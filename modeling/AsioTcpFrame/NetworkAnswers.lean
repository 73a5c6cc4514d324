import AsioTcpFrame.Answers
import AsioTcpFrame.Network

/-! # What the clients of a server that answers get

A `Network` whose server has the callbacks of a `Responder`.  The session of a client hands on the
answers to what its user has written, one for each, in their order, after the greeting, whatever the
other clients do (`answers_in_order`). -/

namespace AsioTcpFrame

open Transition Framing

namespace Network

variable {cfg : Config} {u : Responder} {n : Network} {acts : List NetworkAct}

/-- The callbacks of the server are those of `u`, and nothing else calls it. -/
def Responds (cfg : Config) (u : Responder) (n : Network) : NetworkAct → Prop
  | .server a => n.server.Responds cfg u a
  | _ => True

instance (n : Network) : ∀ a, Decidable (n.Responds cfg u a)
  | .server a => inferInstanceAs (Decidable (n.server.Responds cfg u a))
  | .join _ | .client _ _ | .accept _ _ => isTrue trivial

theorem server_responds (h : Run (Network.step cfg) (Responds cfg u) create acts n) :
    Run (Server.step cfg) (Server.Responds cfg u) Server.create (serverActs acts) n.server := by
  induction h with
  | refl => exact .refl
  | @tail acts a n n' hrun hG hstep ih =>
      rw [serverActs_concat]
      cases a with
      | join kind =>
          cases hstep
          rw [show serverActs [.join kind] = [] from rfl, List.append_nil]
          exact ih
      | client j b =>
          obtain ⟨p, hp, hstep⟩ := Option.bind_eq_some_iff.mp hstep
          split at hstep
          · obtain ⟨client, hclient, rfl⟩ := Option.map_eq_some_iff.mp hstep
            rw [show serverActs [.client j b] = [] from rfl, List.append_nil]
            exact ih
          · cases hstep
      | accept a j =>
          simp only [Network.step] at hstep
          split at hstep
          · obtain ⟨server, hserver, rfl⟩ := Option.map_eq_some_iff.mp hstep
            exact ih.tail trivial hserver
          · cases hstep
      | server b =>
          have hserver : n.server.step cfg b = some n'.server := by
            cases b with
            | acceptDone a => cases hstep
            | io i b =>
                obtain ⟨j, hi, hstep⟩ := Option.bind_eq_some_iff.mp hstep
                obtain ⟨p, hp, hstep⟩ := Option.bind_eq_some_iff.mp hstep
                split at hstep
                · obtain ⟨server, hserver, rfl⟩ := Option.map_eq_some_iff.mp hstep
                  exact hserver
                · cases hstep
            | _ =>
                simp only [Network.step] at hstep
                obtain ⟨server, hserver, rfl⟩ := Option.map_eq_some_iff.mp hstep
                exact hserver
          exact ih.tail hG hserver

/-- **A client gets the answers to what it has sent.**  In every run of a server and its clients in which
the callbacks of the server are those of `u`: when the user of the client `j` has written `sent`, the
frames that its session hands on carry the greeting, and then the answers to the first of `sent`, one
for each and in their order. -/
theorem answers_in_order (h : Run (Network.step cfg) (Responds cfg u) create acts n) {i j : ℕ} {p : Peer}
    (hlink : n.links[i]? = some j) (hp : n.peers[j]? = some p) {sent : List Message}
    (hsent : ∀ q ∈ sent, q.Fits cfg)
    (hwritten : (clientTraffic cfg acts j p.kind).written = sent.map (Message.bytes cfg))
    (hfits : ∀ payload ∈ u.greeting :: sent.map (fun q => u.reply q.payload),
      cfg.hdLen + payload.length < cfg.codec.bound) :
    (clientTraffic cfg acts j p.kind).frames.map (fun f => f.content.drop cfg.hdLen) <+:
      u.greeting :: sent.map fun q => u.reply q.payload := by
  have hI := Inv.of_run (h.imp (H := Anything) fun _ _ _ => trivial)
  have hidx : n.links.idxOf j = i := by
    obtain ⟨hlt, rfl⟩ := List.getElem?_eq_some_iff.mp hlink
    exact hI.nodup.idxOf_getElem i hlt
  obtain ⟨hup, hdown⟩ := hI.piped j p hp
  rw [hidx] at hup hdown
  have hclient := Client.Relaying.of_run (hI.clients j p hp)
  obtain ⟨hwire, htaken⟩ := Server.halves_of_run hI.server i
  -- what the session hands on is what the client has written
  have hframes : (sessionTraffic cfg acts i).frames.map Frame.content <+:
      sent.map (Message.bytes cfg) := by
    apply htaken
    · intro content hcontent
      obtain ⟨q, hq, rfl⟩ := List.mem_map.mp hcontent
      rw [(hsent q hq).length_bytes]
      exact (hsent q hq).length
    · exact List.IsPrefix.trans ⟨_, hup⟩ (hwritten ▸ hclient.sends.sent)
  have hpacked : ∀ f ∈ (sessionTraffic cfg acts i).frames, Server.Packed cfg f := by
    intro f hf
    obtain ⟨q, hq, heq⟩ := List.mem_map.mp (hframes.subset (List.mem_map_of_mem hf))
    have hlen := (hsent q hq).length_bytes
    have hpayload := (hsent q hq).payload
    rw [heq] at hlen
    constructor <;> omega
  -- what is written to it is the answers
  have hanswers : (sessionTraffic cfg acts i).written.map (List.drop cfg.hdLen) <+:
      u.greeting :: sent.map fun q => u.reply q.payload := by
    have hanswered := Server.Answered.of_run (server_responds h) i
    have hpre := hanswered.written (Server.Introduced.of_run hI.server i) hpacked
    apply hpre.trans
    apply (List.prefix_cons_inj _).mpr
    have hreplies := hframes.map fun content => u.reply (content.drop cfg.hdLen)
    rw [List.map_map, List.map_map] at hreplies
    have hsame : sent.map ((fun content => u.reply (content.drop cfg.hdLen)) ∘ Message.bytes cfg) =
        sent.map fun q => u.reply q.payload := by
      apply List.map_congr_left
      intro q hq
      show u.reply ((q.head ++ q.payload).drop cfg.hdLen) = u.reply q.payload
      rw [← (hsent q hq).head, List.drop_left]
    rwa [hsame] at hreplies
  -- and that is what the client hands on
  obtain ⟨todo, held, hintake⟩ := hclient.intake
  have hgot : (clientTraffic cfg acts j p.kind).frames.map Frame.content <+:
      (sessionTraffic cfg acts i).written := by
    apply hintake.contents
    · intro content hcontent
      have hlt := hfits _ (hanswers.subset (List.mem_map_of_mem hcontent))
      rw [List.length_drop] at hlt
      omega
    · exact List.IsPrefix.trans ⟨_, hdown⟩ hwire
  have hdrop := hgot.map (List.drop cfg.hdLen)
  rw [List.map_map] at hdrop
  exact hdrop.trans hanswers

/-- A client is greeted, sends a message, and gets it back. -/
def userEchoes : List NetworkAct :=
  List.flatten
    [[.join .own, .server .arrive, .accept 7 0],
      List.replicate 3 (.server (.run 0 [] none)),
      [.server (.run 0 [.write 7 [0] [35]] none)],
      List.replicate 6 (.server (.run 0 [] none)),
      [.client 0 (.connectDone none), .client 0 .connectNext, .client 0 .connectNext,
        .server (.io 0 (.send 10)), .server (.io 0 .sendDone), .server (.run 2 [] none),
        .server (.run 2 [] none), .client 0 (.io (.recv [2, 0, 0, 0, 0, 0, 0, 0, 0, 35])),
        .client 0 (.io .recvDone)],
      List.replicate 5 (.client 0 (.io (.run 0))),
      [.client 0 (.write [0] [46]), .client 0 (.io (.send 10)), .client 0 (.io .sendDone),
        .server (.io 0 (.recv [2, 0, 0, 0, 0, 0, 0, 0, 0, 46])), .server (.io 0 .recvDone),
        .server (.run 4 [] none), .server (.run 4 [] none),
        .server (.run 4 [.write 7 [0] [46]] none)],
      List.replicate 6 (.server (.run 4 [] none)),
      [.server (.io 0 (.send 10)), .server (.io 0 .sendDone),
        .client 0 (.io (.recv [2, 0, 0, 0, 0, 0, 0, 0, 0, 46])), .client 0 (.io .recvDone)],
      List.replicate 5 (.client 0 (.io (.run 0)))]

theorem answers_in_order_echoes :
    ∃ n p, Run (Network.step .shipped) (Responds .shipped (.echo [35])) create userEchoes n ∧
      n.links[0]? = some 0 ∧ n.peers[0]? = some p ∧
      (clientTraffic .shipped userEchoes 0 p.kind).written = [[0, 46]] ∧
      (clientTraffic .shipped userEchoes 0 p.kind).frames.map Frame.content = [[0, 35], [0, 46]] ∧
      (clientTraffic .shipped userEchoes 0 p.kind).frames.map
        (fun f => f.content.drop Config.shipped.hdLen) <+: [[35], [46]] := by
  have h := Run.of_execWhen (Network.step .shipped) (Responds .shipped (.echo [35])) create userEchoes
    (by decide +kernel)
  obtain ⟨n, h, hlink, p, hp, hkind⟩ : ∃ n,
      Run (Network.step .shipped) (Responds .shipped (.echo [35])) create userEchoes n ∧
        n.links[0]? = some 0 ∧ ∃ p, n.peers[0]? = some p ∧ p.kind = .own :=
    ⟨_, h, by decide +kernel, _, List.getElem?_eq_getElem (by decide +kernel), by decide +kernel⟩
  have hwritten : (clientTraffic .shipped userEchoes 0 p.kind).written =
      [Message.mk [0] [46]].map (Message.bytes .shipped) := by
    rw [hkind]
    decide +kernel
  refine ⟨n, p, h, hlink, hp, hwritten, ?_, ?_⟩
  · rw [hkind]
    decide +kernel
  · exact answers_in_order h hlink hp (by decide +kernel) hwritten (by decide +kernel)

end Network

end AsioTcpFrame
