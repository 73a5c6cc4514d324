import AsioTcpFrame.Client
import AsioTcpFrame.Traffic

/-! # The messages of a client

`ServerMessages.lean` for a client: what was sent begins the frames of what was written, and the contents
that were received become messages, in their order (`told_in_order`).  The session of a client is
`Live` itself, except that the connect handler calls the user as well; it never calls `onMessage`. -/

namespace AsioTcpFrame

open Transition Framing

namespace Client

variable (cfg : Config) (kind : ClientKind)

/-- The messages that the user was given. -/
def messages (n : Client) : List ClientEvent := n.calls.filter ClientEvent.isMessage

/-- The message that a content sent to the client becomes, if it holds a header. -/
def messageFor (content : List Byte) : ClientEvent :=
  .onMessage (content.take cfg.hdLen) (toSize (bodyLength cfg.hdLen content.length)) cfg.hdLen

/-- What is noted of a step. -/
def note (n : Client) (g : Traffic) : ClientAct → Traffic
  | .write head payload => n.live.note cfg g (.write (ClientTCP.write cfg.hdLen head payload).2)
  | .io a => n.live.note cfg g a
  | _ => g

/-- What has gone through the session of a client in a run. -/
def traffic (acts : List ClientAct) : Traffic :=
  follow (Client.step cfg kind) (note cfg) create Traffic.empty acts

variable {cfg} {kind} {n n' : Client} {a : ClientAct} {acts : List ClientAct} {g : Traffic}

/-- A frame becomes one message. -/
theorem filter_body_read {f : Frame} (h : cfg.hdLen ≤ f.content.length) :
    (ClientTCP.body cfg kind (.read f)).filter ClientEvent.isMessage = [messageFor cfg f.content] := by
  have hlen : f.length = f.content.length := f.content_length.symm
  have hhead := head_eq_take h
  have hunpack : ∀ content : ℕ → Byte, ((unpack cfg.hdLen .both none content f.content.length).flatMap
      ClientEvent.ofEffect).filter ClientEvent.isMessage =
      [.onMessage ((List.range cfg.hdLen).map content)
        (toSize (bodyLength cfg.hdLen f.content.length)) cfg.hdLen] := by
    intro content
    by_cases hneg : bodyLength cfg.hdLen f.content.length < 0 <;>
      simp [unpack, hneg, Callbacks.error, Callbacks.message, Callbacks.both, ClientEvent.ofEffect,
        ClientEvent.isMessage]
  cases kind with
  | own => simp only [ClientTCP.body, ClientTCP.readCallback, hlen, hunpack, messageFor, hhead]
  | shared => simp only [ClientTCP.body, ClientTCP.readCallbackOn, hlen, hunpack, messageFor, hhead]

theorem isMessage_errorCallback (r : Bool) (ec : ErrorCode) :
    ∀ e ∈ ClientTCP.body cfg kind (.error r ec), e.isMessage = false := by
  have hnone := (count_errorCallback r ec).2.2
  intro e he
  simpa using List.countP_eq_zero.mp hnone e he

/-- What holds of the traffic of a client: both halves of its session are in order. -/
structure Relaying (cfg : Config) (kind : ClientKind) (g : Traffic) (n : Client) : Prop where
  sends : n.live.SendHalf cfg g
  intake : ∃ todo held,
    Live.Intake cfg (ClientTCP.body cfg kind) ClientEvent.isMessage g n.live todo held

theorem Relaying.sess (h : Relaying cfg kind g n) {b : SessionAct}
    (hstep : n.sess cfg kind b = some n') : Relaying cfg kind (n.live.note cfg g b) n' := by
  obtain ⟨live, hlive, rfl⟩ := Option.map_eq_some_iff.mp hstep
  obtain ⟨todo, held, hintake⟩ := h.intake
  have hlive' := Live.Step.of_step hlive
  exact ⟨h.sends.step hlive', hintake.step isMessage_errorCallback hlive'⟩

/-- The connect handler calls the user. -/
theorem Relaying.see (h : Relaying cfg kind g n) {e : ClientEvent} (he : e.isMessage = false)
    (pc : ConnectPc) :
    Relaying cfg kind g { n with live := n.live.see (.call e), connect := pc } := by
  obtain ⟨todo, held, hintake⟩ := h.intake
  have hcalls : (n.live.see (.call e)).calls.filter ClientEvent.isMessage =
      n.live.calls.filter ClientEvent.isMessage := by
    simp [Live.calls_see, he]
  refine ⟨h.sends.congr id rfl rfl rfl rfl, todo, held, hintake.congr ?_ ?_ hintake.failing rfl rfl⟩
  · exact ⟨hintake.chain.idle, hintake.chain.one⟩
  · exact ⟨rfl, rfl, rfl, fun _ hx _ => hx, hcalls⟩

theorem Relaying.step (h : Relaying cfg kind g n) (hstep : n.step cfg kind a = some n') :
    Relaying cfg kind (note cfg n g a) n' := by
  cases a with
  | connectDone ec =>
      simp only [Client.step] at hstep
      split at hstep
      · cases hstep; exact ⟨h.sends, h.intake⟩
      · cases hstep
  | connectNext =>
      simp only [Client.step] at hstep
      split at hstep
      · obtain ⟨n₁, hsess, rfl⟩ := Option.map_eq_some_iff.mp hstep
        have hstart := h.sess hsess
        exact ⟨hstart.sends, hstart.intake⟩
      · cases hstep; exact h.see rfl _
      · cases hstep; exact h.see rfl _
      · cases hstep
  | write head payload => exact h.sess hstep
  | close => exact h.sess hstep
  | io b =>
      simp only [Client.step] at hstep
      split at hstep
      · exact h.sess hstep
      · cases hstep

theorem Relaying.of_run (h : Run (Client.step cfg kind) Anything create acts n) :
    Relaying cfg kind (traffic cfg kind acts) n :=
  h.follow (I := Relaying cfg kind) ⟨Live.sendHalf_create, [], [], Live.intake_create⟩
    fun _ _ _ _ hI _ hstep => hI.step hstep

/-- What goes through the session of a client: nothing is sent twice or out of order, and the contents
that were received become messages, in their order. -/
structure Relays (cfg : Config) (g : Traffic) (n : Client) : Prop where
  sent : g.wire <+: cfg.codec.stream g.written
  told : ∀ ps : List (List Byte), (∀ q ∈ ps, cfg.hdLen ≤ q.length ∧ q.length < cfg.codec.bound) →
    g.received <+: cfg.codec.stream ps → n.messages <+: ps.map (messageFor cfg)

theorem Relaying.relays (h : Relaying cfg kind g n) : Relays cfg g n := by
  obtain ⟨todo, held, hintake⟩ := h.intake
  refine ⟨h.sends.sent, fun ps hps hpre => ?_⟩
  have hcontents := hintake.contents (fun q hq => (hps q hq).2) hpre
  have hframes : (g.frames.flatMap fun f => ClientTCP.body cfg kind (.read f)).filter
      ClientEvent.isMessage = (g.frames.map Frame.content).map (messageFor cfg) := by
    rw [List.filter_flatMap, List.map_map, List.map_eq_flatMap]
    refine List.flatMap_congr fun f hf => filter_body_read ?_
    exact (hps _ (hcontents.subset (List.mem_map_of_mem hf))).1
  exact List.IsPrefix.trans ⟨_, hintake.told.trans hframes⟩ (hcontents.map _)

/-- **What a peer of a client can rely on**, in every run, whatever fails and whenever it is closed: what
was sent begins the frames of the contents that were written; and when what was received begins the
frames of `ps`, which all hold a header, the messages that the user was given are those of the first
contents of `ps`, in their order. -/
theorem told_in_order (h : Run (Client.step cfg kind) Anything create acts n) :
    (traffic cfg kind acts).wire <+: cfg.codec.stream (traffic cfg kind acts).written ∧
      ∀ ps : List (List Byte), (∀ q ∈ ps, cfg.hdLen ≤ q.length ∧ q.length < cfg.codec.bound) →
        (traffic cfg kind acts).received <+: cfg.codec.stream ps →
          n.messages <+: ps.map (messageFor cfg) :=
  ⟨(Relaying.of_run h).relays.sent, (Relaying.of_run h).relays.told⟩

/-- A client that writes before it is connected, and is closed while it is told of a message. -/
def eagerClient : List ClientAct :=
  [.write [5] [6], .connectDone none, .connectNext, .io (.send 10), .io .sendDone, .connectNext,
    .io (.recv [1, 0, 0, 0, 0, 0, 0, 0, 9]), .io .recvDone, .io (.run 0), .io (.run 0), .close,
    .write [5] [7], .io (.run 0), .io (.run 0)]

theorem told_in_order_eager :
    ∃ n, Run (Client.step .shipped .own) Anything create eagerClient n ∧
      n.messages = [.onMessage [9] 0 1] ∧
      (traffic .shipped .own eagerClient).wire <+:
        Config.shipped.codec.stream (traffic .shipped .own eagerClient).written ∧
      n.messages <+: [[9], [10]].map (messageFor .shipped) := by
  have h := Run.of_exec (Client.step .shipped .own) create eagerClient (by decide)
  obtain ⟨hsent, htold⟩ := told_in_order h
  exact ⟨_, h, by decide +kernel, hsent, htold [[9], [10]] (by decide +kernel) (by decide +kernel)⟩

end Client

end AsioTcpFrame
