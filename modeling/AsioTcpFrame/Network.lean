import AsioTcpFrame.ClientMessages
import AsioTcpFrame.ServerMessages

/-! # A server and its clients

A `ServerTCP` and any number of `ClientTCP`s, joined by the connections that the server has accepted.
What the socket of one end has taken goes into a pipe, and the reads of the other end take it out again,
cut anywhere; a client may send before it is accepted.  Everything else happens as in `Server` and in
`Client`: any interleaving of handlers, threads and users, with failures, `close` and `stop` at any
moment.  What is lost with a connection stays in its pipe for ever.

`links` says which client a session talks to.  What went through the two ends (`Server.traffic`,
`Client.traffic`) and what is in the pipes fit together (`Piped`), so each user is given, in their
order, the first of the messages that the user at the other end has sent (`users_in_order`). -/

namespace AsioTcpFrame

open Transition Framing

/-- A client, with the bytes on their way from it (`up`) and to it (`down`). -/
structure Peer where
  kind : ClientKind
  client : Client
  up : List Byte
  down : List Byte
deriving DecidableEq, Repr

/-- `links` are the peers of the sessions of the server. -/
structure Network where
  server : Server
  peers : List Peer
  links : List ℕ
deriving DecidableEq, Repr

/-- A client is made; a client takes a step; the server accepts the connection of the peer `j` and makes
its session at the address `a`; the server takes another step. -/
inductive NetworkAct where
  | join (kind : ClientKind)
  | client (j : ℕ) (a : ClientAct)
  | accept (a : Addr) (j : ℕ)
  | server (a : ServerAct)
deriving DecidableEq, Repr

/-- The bytes that a step of a client takes out of its pipe. -/
def ClientAct.taken : ClientAct → List Byte
  | .io (.recv bytes) => bytes
  | _ => []

/-- The bytes that a step of a client puts into its pipe. -/
def Client.given (n : Client) : ClientAct → List Byte
  | .io (.send k) => ((n.live.sess.send k).map Prod.fst).getD []
  | _ => []

/-- The bytes that an operation of a session takes out of its pipe. -/
def SessionIo.taken : SessionIo → List Byte
  | .recv bytes => bytes
  | _ => []

/-- The bytes that an operation of the session `i` puts into its pipe. -/
def Server.given (n : Server) (i : ℕ) : SessionIo → List Byte
  | .send k => (((n.session i).bind fun s => s.send k).map Prod.fst).getD []
  | _ => []

namespace Network

variable (cfg : Config)

/-- A server that listens. -/
def create : Network := ⟨Server.create, [], []⟩

def step (n : Network) : NetworkAct → Option Network
  | .join kind => some { n with peers := n.peers ++ [⟨kind, Client.create, [], []⟩] }
  | .client j a =>
      (n.peers[j]?).bind fun p =>
        if a.taken <+: p.down then
          (p.client.step cfg p.kind a).map fun client => { n with
            peers := n.peers.set j { p with
              client := client
              up := p.up ++ p.client.given a
              down := p.down.drop a.taken.length } }
        else none
  | .accept a j =>
      if j < n.peers.length ∧ j ∉ n.links then
        (n.server.step cfg (.acceptDone a)).map fun server => { n with
          server := server
          links := n.links ++ [j] }
      else none
  | .server (.acceptDone _) => none
  | .server (.io i b) =>
      (n.links[i]?).bind fun j => (n.peers[j]?).bind fun p =>
        if b.taken <+: p.up then
          (n.server.step cfg (.io i b)).map fun server => { n with
            server := server
            peers := n.peers.set j { p with
              up := p.up.drop b.taken.length
              down := p.down ++ n.server.given i b } }
        else none
  | .server a => (n.server.step cfg a).map fun server => { n with server := server }

/-- The steps of the server in a run of the network. -/
def serverActs (acts : List NetworkAct) : List ServerAct :=
  acts.filterMap fun
    | .accept a _ => some (.acceptDone a)
    | .server a => some a
    | _ => none

/-- The steps of the client `j` in a run of the network. -/
def clientActs (j : ℕ) (acts : List NetworkAct) : List ClientAct :=
  acts.filterMap fun
    | .client k a => if k = j then some a else none
    | _ => none

/-- What has gone through the session `i` of the server. -/
def sessionTraffic (acts : List NetworkAct) (i : ℕ) : Traffic := Server.traffic cfg i (serverActs acts)

/-- What has gone through the client `j`. -/
def clientTraffic (acts : List NetworkAct) (j : ℕ) (kind : ClientKind) : Traffic :=
  Client.traffic cfg kind (clientActs j acts)

/-- What a session and a client have sent is what the other end has got and what is on its way. -/
structure Piped (session client : Traffic) (p : Peer) : Prop where
  up : session.received ++ p.up = client.wire
  down : client.received ++ p.down = session.wire

/-- What holds in every state of the network: the parts take their own steps, and the pipes fit.  A
client that is not linked has the traffic of a session that does not exist yet. -/
structure Inv (acts : List NetworkAct) (n : Network) : Prop where
  server : Run (Server.step cfg) Anything Server.create (serverActs acts) n.server
  clients : ∀ j p, n.peers[j]? = some p →
    Run (Client.step cfg p.kind) Anything Client.create (clientActs j acts) p.client
  fresh : ∀ j, n.peers.length ≤ j → clientActs j acts = []
  length : n.links.length = n.server.sessions.length
  nodup : n.links.Nodup
  bound : ∀ j ∈ n.links, j < n.peers.length
  absent : ∀ i, n.server.sessions.length ≤ i → sessionTraffic cfg acts i = Traffic.empty
  piped : ∀ j p, n.peers[j]? = some p →
    Piped (sessionTraffic cfg acts (n.links.idxOf j)) (clientTraffic cfg acts j p.kind) p

variable {cfg} {n n' : Network} {acts : List NetworkAct} {g h : Traffic} {p : Peer}

/-! ### What is noted of the pipes -/

theorem noteFor_pipes {m : Server} {a : ServerAct} (hio : ∀ j b, a ≠ .io j b) (i : ℕ) :
    (Server.noteFor cfg i m g a).wire = g.wire ∧
      (Server.noteFor cfg i m g a).received = g.received := by
  have hcall : ∀ s c, (Server.noteCall cfg i s g c).wire = g.wire ∧
      (Server.noteCall cfg i s g c).received = g.received := by
    intro s c
    unfold Server.noteCall
    split
    · split <;> exact ⟨rfl, rfl⟩
    · split
      · split <;> exact ⟨rfl, rfl⟩
      · exact ⟨rfl, rfl⟩
    · exact ⟨rfl, rfl⟩
  unfold Server.noteFor
  split
  · exact absurd rfl (hio _ _)
  · next s t _ _ _ =>
    cases m.top t with
    | none => exact ⟨rfl, rfl⟩
    | some c => exact hcall s c
  · exact ⟨rfl, rfl⟩

theorem noteFor_given (cfg : Config) (g : Traffic) {m : Server} {i : ℕ} {s : Session}
    (hs : m.session i = some s) (b : SessionIo) :
    (Server.noteFor cfg i m g (.io i b)).wire = g.wire ++ m.given i b ∧
      (Server.noteFor cfg i m g (.io i b)).received = g.received ++ b.taken := by
  rw [Server.noteFor_io hs, if_pos rfl]
  cases b <;> simp [Server.noteIo, Server.given, SessionIo.taken, hs]

theorem noteFor_io_ne {m : Server} {i j : ℕ} (hj : j ≠ i) (b : SessionIo) :
    Server.noteFor cfg i m g (.io j b) = g := by
  cases hs : m.session i with
  | none => exact Server.noteFor_none hs _
  | some s => rw [Server.noteFor_io hs, if_neg hj]

theorem clientNote_given (cfg : Config) (g : Traffic) (m : Client) (a : ClientAct) :
    (Client.note cfg m g a).wire = g.wire ++ m.given a ∧
      (Client.note cfg m g a).received = g.received ++ a.taken := by
  have hwrite : ∀ content, (m.live.note cfg g (.write content)).wire = g.wire ∧
      (m.live.note cfg g (.write content)).received = g.received := by
    intro content
    simp only [Live.note]
    split <;> exact ⟨rfl, rfl⟩
  cases a with
  | io b =>
      cases b with
      | write content => simpa [Client.note, Client.given, ClientAct.taken] using hwrite content
      | _ => simp [Client.note, Live.note, Client.given, ClientAct.taken]
  | write head payload => simpa [Client.note, Client.given, ClientAct.taken] using hwrite _
  | _ => simp [Client.note, Client.given, ClientAct.taken]

theorem clientTraffic_snoc {kind : ClientKind} {m m' : Client} {bs : List ClientAct} {a : ClientAct}
    (h : Run (Client.step cfg kind) Anything Client.create bs m) (hs : m.step cfg kind a = some m') :
    Client.traffic cfg kind (bs ++ [a]) = Client.note cfg m (Client.traffic cfg kind bs) a := by
  rw [Client.traffic, h.follow_append, follow, hs]
  rfl

theorem Piped.congr (hp : Piped g h p) {g' : Traffic} (hwire : g'.wire = g.wire)
    (hreceived : g'.received = g.received) : Piped g' h p :=
  ⟨by rw [hreceived]; exact hp.up, by rw [hwire]; exact hp.down⟩

/-! ### Projections -/

@[simp] theorem serverActs_concat (acts : List NetworkAct) (x : NetworkAct) :
    serverActs (acts ++ [x]) = serverActs acts ++ serverActs [x] := List.filterMap_append

@[simp] theorem clientActs_concat (j : ℕ) (acts : List NetworkAct) (x : NetworkAct) :
    clientActs j (acts ++ [x]) = clientActs j acts ++ clientActs j [x] := List.filterMap_append

theorem clientActs_self (j : ℕ) (a : ClientAct) : clientActs j [.client j a] = [a] := by
  simp [clientActs]

theorem clientActs_ne {j k : ℕ} (hk : k ≠ j) (a : ClientAct) : clientActs j [.client k a] = [] := by
  simp [clientActs, hk]

theorem inv_create : Inv cfg [] create where
  server := .refl
  clients j p hp := by simp [create] at hp
  fresh j _ := rfl
  length := rfl
  nodup := List.nodup_nil
  bound j hj := by cases hj
  absent i _ := rfl
  piped j p hp := by simp [create] at hp

/-! ### One step -/

theorem getElem?_set_peer {peers : List Peer} {j k : ℕ} {p p' q : Peer} (hp : peers[j]? = some p)
    (hq : (peers.set j p')[k]? = some q) : (j ≠ k ∧ peers[k]? = some q) ∨ j = k ∧ q = p' := by
  rw [List.getElem?_set] at hq
  by_cases hk : j = k
  · have hj : j < peers.length := (List.getElem?_eq_some_iff.mp hp).1
    rw [if_pos hk, if_pos hj] at hq
    exact Or.inr ⟨hk, (Option.some.inj hq).symm⟩
  · rw [if_neg hk] at hq
    exact Or.inl ⟨hk, hq⟩

theorem Inv.join (h : Inv cfg acts n) (kind : ClientKind) :
    Inv cfg (acts ++ [.join kind])
      { n with peers := n.peers ++ [⟨kind, Client.create, [], []⟩] } := by
  have hserver : serverActs (acts ++ [.join kind]) = serverActs acts := by simp [serverActs]
  have hclient : ∀ j, clientActs j (acts ++ [.join kind]) = clientActs j acts := by
    intro j
    simp [clientActs]
  have hsession : ∀ i, sessionTraffic cfg (acts ++ [.join kind]) i = sessionTraffic cfg acts i := by
    intro i
    rw [sessionTraffic, hserver]; rfl
  have hold : ∀ j p, (n.peers ++ [⟨kind, Client.create, [], []⟩])[j]? = some p →
      n.peers[j]? = some p ∨ j = n.peers.length ∧ p = ⟨kind, Client.create, [], []⟩ := by
    intro j p hp
    rw [List.getElem?_append] at hp
    split at hp
    · exact Or.inl hp
    · next hj =>
      rw [List.getElem?_singleton] at hp
      split at hp
      · next hz => cases hp; exact Or.inr ⟨by omega, rfl⟩
      · cases hp
  have hnew : clientActs n.peers.length acts = [] := h.fresh _ (Nat.le_refl _)
  refine ⟨by rw [hserver]; exact h.server, fun j p hp => ?_, fun j hj => ?_, h.length, h.nodup,
    fun j hj => ?_, fun i hi => (hsession i).trans (h.absent i hi), fun j p hp => ?_⟩
  · rw [hclient]
    rcases hold j p hp with hp | ⟨rfl, rfl⟩
    · exact h.clients j p hp
    · rw [hnew]; exact .refl
  · rw [hclient]
    exact h.fresh j (by simp at hj; omega)
  · have := h.bound j hj
    simp; omega
  · rw [clientTraffic, hclient, hsession]
    rcases hold j p hp with hp | ⟨rfl, rfl⟩
    · exact h.piped j p hp
    · have hout : n.peers.length ∉ n.links := fun hmem => absurd (h.bound _ hmem) (Nat.lt_irrefl _)
      rw [List.idxOf_eq_length hout, h.absent _ h.length.ge, hnew]
      exact ⟨rfl, rfl⟩

theorem Inv.client (h : Inv cfg acts n) {j : ℕ} {p : Peer} {a : ClientAct} {client : Client}
    (hp : n.peers[j]? = some p) (htaken : a.taken <+: p.down)
    (hstep : p.client.step cfg p.kind a = some client) :
    Inv cfg (acts ++ [.client j a]) { n with
      peers := n.peers.set j { p with
        client := client
        up := p.up ++ p.client.given a
        down := p.down.drop a.taken.length } } := by
  have hserver : serverActs (acts ++ [.client j a]) = serverActs acts := by simp [serverActs]
  have hself : clientActs j (acts ++ [.client j a]) = clientActs j acts ++ [a] := by
    rw [clientActs_concat, clientActs_self]
  have hother : ∀ k, j ≠ k → clientActs k (acts ++ [.client j a]) = clientActs k acts := by
    intro k hk
    rw [clientActs_concat, clientActs_ne hk, List.append_nil]
  have hsession : ∀ i, sessionTraffic cfg (acts ++ [.client j a]) i = sessionTraffic cfg acts i := by
    intro i
    rw [sessionTraffic, hserver]; rfl
  have hj : j < n.peers.length := (List.getElem?_eq_some_iff.mp hp).1
  refine ⟨by rw [hserver]; exact h.server, fun k q hq => ?_, fun k hk => ?_, h.length, h.nodup,
    fun k hk => ?_, fun i hi => (hsession i).trans (h.absent i hi), fun k q hq => ?_⟩
  · rcases getElem?_set_peer hp hq with ⟨hk, hq⟩ | ⟨rfl, rfl⟩
    · rw [hother k hk]; exact h.clients k q hq
    · rw [hself]; exact (h.clients j p hp).tail trivial hstep
  · have hlen : n.peers.length ≤ k := by simpa using hk
    rw [hother k (by omega)]
    exact h.fresh k hlen
  · simpa using h.bound k hk
  · rw [hsession]
    rcases getElem?_set_peer hp hq with ⟨hk, hq⟩ | ⟨rfl, rfl⟩
    · rw [clientTraffic, hother k hk]; exact h.piped k q hq
    · obtain ⟨hup, hdown⟩ := h.piped j p hp
      obtain ⟨hwire, hreceived⟩ := clientNote_given cfg (clientTraffic cfg acts j p.kind) p.client a
      obtain ⟨rest, hrest⟩ := htaken
      rw [clientTraffic, hself, clientTraffic_snoc (h.clients j p hp) hstep]
      constructor
      · show _ ++ (p.up ++ p.client.given a) = (Client.note cfg p.client
          (clientTraffic cfg acts j p.kind) a).wire
        rw [hwire, ← hup, List.append_assoc]
      · show (Client.note cfg p.client (clientTraffic cfg acts j p.kind) a).received ++
          p.down.drop a.taken.length = _
        rw [hreceived, ← hdown, ← hrest, List.drop_left, List.append_assoc]

theorem sessionTraffic_snoc (h : Inv cfg acts n) {x : NetworkAct} {a : ServerAct} {server : Server}
    (hx : serverActs [x] = [a]) (hstep : n.server.step cfg a = some server) (i : ℕ) :
    sessionTraffic cfg (acts ++ [x]) i =
      Server.noteFor cfg i n.server (sessionTraffic cfg acts i) a := by
  rw [sessionTraffic, serverActs_concat, hx, Server.traffic_snoc h.server hstep]
  rfl

theorem step_length {m m' : Server} {a : ServerAct} (ha : ∀ b, a ≠ .acceptDone b)
    (h : m.step cfg a = some m') : m'.sessions.length = m.sessions.length := by
  cases Server.Step.of_step h with
  | acceptDone _ _ => exact absurd rfl (ha _)
  | io _ _ => exact List.length_modify _ _ _
  | run hstack hen hexec =>
      cases Server.Exec.of_exec hexec <;> simp [Server.sweep, Server.poolInsert, Server.poolErase,
        Server.modify, Server.onSess, Server.see]
  | _ => rfl

theorem Inv.accept (h : Inv cfg acts n) {a : Addr} {j : ℕ} {server : Server}
    (hj : j < n.peers.length) (hout : j ∉ n.links)
    (hstep : n.server.step cfg (.acceptDone a) = some server) :
    Inv cfg (acts ++ [.accept a j]) { n with server := server, links := n.links ++ [j] } := by
  have hserver : serverActs (acts ++ [.accept a j]) = serverActs acts ++ [.acceptDone a] := by
    simp [serverActs]
  have hclient : ∀ k, clientActs k (acts ++ [.accept a j]) = clientActs k acts := by
    intro k
    simp [clientActs]
  have hsession : ∀ i, sessionTraffic cfg (acts ++ [.accept a j]) i = sessionTraffic cfg acts i := by
    intro i
    rw [sessionTraffic_snoc h rfl hstep]
    exact Server.noteFor_plain nofun nofun
  have hlen : server.sessions.length = n.server.sessions.length + 1 := by
    cases Server.Step.of_step hstep with
    | acceptDone _ _ => exact List.length_append
  refine ⟨by rw [hserver]; exact h.server.tail trivial hstep, fun k p hp => ?_, fun k hk => ?_,
    ?_, ?_, fun k hk => ?_, fun i hi => ?_, fun k p hp => ?_⟩
  · rw [hclient]; exact h.clients k p hp
  · rw [hclient]; exact h.fresh k hk
  · have := h.length
    simp [hlen, this]
  · exact List.nodup_append.mpr ⟨h.nodup, List.nodup_singleton j, fun x hx y hy =>
      fun hxy => hout (List.mem_singleton.mp hy ▸ hxy ▸ hx)⟩
  · rcases List.mem_append.mp hk with hk | hk
    · exact h.bound k hk
    · rw [List.mem_singleton.mp hk]; exact hj
  · have hi' : server.sessions.length ≤ i := hi
    rw [hsession]
    exact h.absent i (by omega)
  · rw [clientTraffic, hclient, hsession]
    have hold := h.piped k p hp
    rw [List.idxOf_append]
    split
    · exact hold
    · next hk =>
      rw [List.idxOf_eq_length hk, h.absent _ h.length.ge] at hold
      have hnone : sessionTraffic cfg acts ([j].idxOf k + n.links.length) = Traffic.empty :=
        h.absent _ (by have := h.length; omega)
      rw [hnone]
      exact hold

theorem Inv.io (h : Inv cfg acts n) {i j : ℕ} {p : Peer} {b : SessionIo} {server : Server}
    (hi : n.links[i]? = some j) (hp : n.peers[j]? = some p) (htaken : b.taken <+: p.up)
    (hstep : n.server.step cfg (.io i b) = some server) :
    Inv cfg (acts ++ [.server (.io i b)]) { n with
      server := server
      peers := n.peers.set j { p with
        up := p.up.drop b.taken.length
        down := p.down ++ n.server.given i b } } := by
  have hserver : serverActs (acts ++ [.server (.io i b)]) = serverActs acts ++ [.io i b] := by
    simp [serverActs]
  have hclient : ∀ k, clientActs k (acts ++ [.server (.io i b)]) = clientActs k acts := by
    intro k
    simp [clientActs]
  have hother : ∀ k, i ≠ k →
      sessionTraffic cfg (acts ++ [.server (.io i b)]) k = sessionTraffic cfg acts k := by
    intro k hk
    rw [sessionTraffic_snoc h rfl hstep]
    exact noteFor_io_ne hk b
  have hlen : server.sessions.length = n.server.sessions.length :=
    step_length (by simp) hstep
  have hlt : i < n.links.length := (List.getElem?_eq_some_iff.mp hi).1
  have hidx : n.links.idxOf j = i := by
    obtain ⟨hlt, rfl⟩ := List.getElem?_eq_some_iff.mp hi
    exact h.nodup.idxOf_getElem i hlt
  refine ⟨by rw [hserver]; exact h.server.tail trivial hstep, fun k q hq => ?_, fun k hk => ?_,
    h.length.trans hlen.symm, h.nodup, fun k hk => ?_, fun k hk => ?_, fun k q hq => ?_⟩
  · rw [hclient]
    rcases getElem?_set_peer hp hq with ⟨-, hq⟩ | ⟨rfl, rfl⟩
    · exact h.clients k q hq
    · exact h.clients j p hp
  · rw [hclient]
    exact h.fresh k (by simpa using hk)
  · simpa using h.bound k hk
  · have hlinks := h.length
    have hk' : server.sessions.length ≤ k := hk
    rw [hother k (by omega)]
    exact h.absent k (by omega)
  · rw [clientTraffic, hclient]
    rcases getElem?_set_peer hp hq with ⟨hk, hq⟩ | ⟨rfl, rfl⟩
    · have hne : i ≠ n.links.idxOf k := by
        intro hik
        have hlt' : n.links.idxOf k < n.links.length := hik ▸ hlt
        have hget : n.links[i]? = some k := by
          rw [hik, List.getElem?_eq_getElem hlt', List.getElem_idxOf hlt']
        exact hk (Option.some.inj (hi.symm.trans hget))
      rw [hother _ hne]
      exact h.piped k q hq
    · obtain ⟨s, hs⟩ : ∃ s, n.server.session i = some s := by
        have hlinks := h.length
        obtain ⟨o, ho⟩ : ∃ o, n.server.sessions[i]? = some o :=
          ⟨_, List.getElem?_eq_getElem (by omega)⟩
        exact ⟨o.sess, by simp [Server.session, ho]⟩
      obtain ⟨hup, hdown⟩ := h.piped j p hp
      rw [hidx] at hup hdown ⊢
      obtain ⟨hwire, hreceived⟩ := noteFor_given cfg (sessionTraffic cfg acts i) hs b
      obtain ⟨rest, hrest⟩ := htaken
      rw [sessionTraffic_snoc h rfl hstep]
      constructor
      · show (Server.noteFor cfg i n.server _ _).received ++ p.up.drop b.taken.length = _
        rw [hreceived, ← hrest, List.drop_left, List.append_assoc, hrest]
        exact hup
      · show _ ++ (p.down ++ n.server.given i b) = _
        rw [hwire, ← List.append_assoc]
        exact congrArg (· ++ _) hdown

/-- A step of the server that touches no pipe. -/
theorem Inv.serverStep (h : Inv cfg acts n) {a : ServerAct} {server : Server}
    (hio : ∀ i b, a ≠ .io i b) (haccept : ∀ b, a ≠ .acceptDone b)
    (hstep : n.server.step cfg a = some server) :
    Inv cfg (acts ++ [.server a]) { n with server := server } := by
  have hserver : serverActs (acts ++ [.server a]) = serverActs acts ++ [a] := by simp [serverActs]
  have hclient : ∀ k, clientActs k (acts ++ [.server a]) = clientActs k acts := by
    intro k
    simp [clientActs]
  have hpipes : ∀ i, (sessionTraffic cfg (acts ++ [.server a]) i).wire =
        (sessionTraffic cfg acts i).wire ∧ (sessionTraffic cfg (acts ++ [.server a]) i).received =
          (sessionTraffic cfg acts i).received := by
    intro i
    rw [sessionTraffic_snoc h rfl hstep]
    exact noteFor_pipes hio i
  have hlen := step_length haccept hstep
  refine ⟨by rw [hserver]; exact h.server.tail trivial hstep, fun k p hp => ?_, fun k hk => ?_,
    h.length.trans hlen.symm, h.nodup, h.bound, fun i hi => ?_, fun k p hp => ?_⟩
  · rw [hclient]; exact h.clients k p hp
  · rw [hclient]; exact h.fresh k hk
  · have hi' : server.sessions.length ≤ i := hi
    have hnone : n.server.session i = none := by
      simp [Server.session, List.getElem?_eq_none (show n.server.sessions.length ≤ i by omega)]
    rw [sessionTraffic_snoc h rfl hstep, Server.noteFor_none hnone]
    exact h.absent i (by omega)
  · rw [clientTraffic, hclient]
    exact (h.piped k p hp).congr (hpipes _).1 (hpipes _).2

theorem Inv.step (h : Inv cfg acts n) {x : NetworkAct} (hstep : n.step cfg x = some n') :
    Inv cfg (acts ++ [x]) n' := by
  cases x with
  | join kind => cases hstep; exact h.join kind
  | client j a =>
      obtain ⟨p, hp, hstep⟩ := Option.bind_eq_some_iff.mp hstep
      split at hstep
      · next htaken =>
        obtain ⟨client, hclient, rfl⟩ := Option.map_eq_some_iff.mp hstep
        exact h.client hp htaken hclient
      · cases hstep
  | accept a j =>
      simp only [Network.step] at hstep
      split at hstep
      · next hj =>
        obtain ⟨server, hserver, rfl⟩ := Option.map_eq_some_iff.mp hstep
        exact h.accept hj.1 hj.2 hserver
      · cases hstep
  | server a =>
      cases a with
      | acceptDone a => cases hstep
      | io i b =>
          obtain ⟨j, hi, hstep⟩ := Option.bind_eq_some_iff.mp hstep
          obtain ⟨p, hp, hstep⟩ := Option.bind_eq_some_iff.mp hstep
          split at hstep
          · next htaken =>
            obtain ⟨server, hserver, rfl⟩ := Option.map_eq_some_iff.mp hstep
            exact h.io hi hp htaken hserver
          · cases hstep
      | _ =>
          simp only [Network.step] at hstep
          obtain ⟨server, hserver, rfl⟩ := Option.map_eq_some_iff.mp hstep
          exact h.serverStep (by simp) (by simp) hserver

theorem Inv.of_run (h : Run (Network.step cfg) Anything create acts n) : Inv cfg acts n :=
  h.history inv_create fun _ _ _ _ hI _ hstep => hI.step hstep

/-! ### What the users see -/

end Network

/-- What a user passes to `write`. -/
structure Message where
  head : List Byte
  payload : List Byte
deriving DecidableEq, Repr

namespace Message

/-- What `write` makes of it. -/
def bytes (cfg : Config) (q : Message) : List Byte := (ServerTCP.write cfg.hdLen q.head q.payload).2

/-- The header is a `PakHeadData`, and the lengths do not overflow. -/
structure Fits (cfg : Config) (q : Message) : Prop where
  head : q.head.length = cfg.hdLen
  payload : q.payload.length < 2 ^ 31
  length : cfg.hdLen + q.payload.length < cfg.codec.bound

instance (cfg : Config) (q : Message) : Decidable (q.Fits cfg) :=
  decidable_of_iff (q.head.length = cfg.hdLen ∧ q.payload.length < 2 ^ 31 ∧
    cfg.hdLen + q.payload.length < cfg.codec.bound)
    ⟨fun h => ⟨h.1, h.2.1, h.2.2⟩, fun h => ⟨h.head, h.payload, h.length⟩⟩

variable {cfg : Config} {q : Message}

theorem Fits.length_bytes (h : q.Fits cfg) : (q.bytes cfg).length = cfg.hdLen + q.payload.length := by
  show (q.head ++ q.payload).length = _
  rw [List.length_append, h.head]

/-- What the user at the other end is given is the message. -/
theorem Fits.shown (h : q.Fits cfg) :
    (q.bytes cfg).take cfg.hdLen = q.head ∧
      toSize (bodyLength cfg.hdLen (q.bytes cfg).length) = q.payload.length := by
  constructor
  · rw [← h.head]
    exact List.take_left
  · have hpayload := h.payload
    rw [h.length_bytes, bodyLength_of_fits (by omega) (by omega), Nat.add_sub_cancel_left,
      toSize_natCast (by omega)]

end Message

namespace Network

variable {cfg : Config} {n : Network} {acts : List NetworkAct}

/-- **The users are told what was sent, in order.**  In every run of a server and its clients: when the
user of the client `j` has written `sent`, the messages that the user of the server was given of the
session it is linked to are the first of `sent`; and the same in the other direction. -/
theorem users_in_order (h : Run (Network.step cfg) Anything create acts n) {i j : ℕ} {p : Peer}
    (hlink : n.links[i]? = some j) (hp : n.peers[j]? = some p) :
    (∀ sent : List Message, (∀ q ∈ sent, q.Fits cfg) →
      (clientTraffic cfg acts j p.kind).written = sent.map (Message.bytes cfg) →
        n.server.messages i <+:
          sent.map fun q => .onMessage i q.head q.payload.length cfg.hdLen) ∧
    (∀ sent : List Message, (∀ q ∈ sent, q.Fits cfg) →
      (sessionTraffic cfg acts i).written = sent.map (Message.bytes cfg) →
        p.client.messages <+: sent.map fun q => .onMessage q.head q.payload.length cfg.hdLen) := by
  have hI := Inv.of_run h
  have hidx : n.links.idxOf j = i := by
    obtain ⟨hlt, rfl⟩ := List.getElem?_eq_some_iff.mp hlink
    exact hI.nodup.idxOf_getElem i hlt
  obtain ⟨hup, hdown⟩ := hI.piped j p hp
  rw [hidx] at hup hdown
  have hserver := Server.Relays.of_run hI.server i
  have hclient := (Client.Relaying.of_run (hI.clients j p hp)).relays
  have hlengths : ∀ sent : List Message, (∀ q ∈ sent, q.Fits cfg) →
      ∀ content ∈ sent.map (Message.bytes cfg),
        cfg.hdLen ≤ content.length ∧ content.length < cfg.codec.bound := by
    intro sent hsent content hcontent
    obtain ⟨q, hq, rfl⟩ := List.mem_map.mp hcontent
    rw [(hsent q hq).length_bytes]
    exact ⟨Nat.le_add_right _ _, (hsent q hq).length⟩
  constructor
  · intro sent hsent hwritten
    have hpre := hserver.told (sent.map (Message.bytes cfg)) (hlengths sent hsent)
      (List.IsPrefix.trans ⟨_, hup⟩ (hwritten ▸ hclient.sent))
    have hsame : (sent.map (Message.bytes cfg)).map (Server.messageFor cfg i) =
        sent.map fun q => .onMessage i q.head q.payload.length cfg.hdLen := by
      rw [List.map_map]
      refine List.map_congr_left fun q hq => ?_
      obtain ⟨hhead, hlen⟩ := (hsent q hq).shown
      simp only [Function.comp, Server.messageFor, hhead, hlen]
    rwa [hsame] at hpre
  · intro sent hsent hwritten
    have hpre := hclient.told (sent.map (Message.bytes cfg)) (hlengths sent hsent)
      (List.IsPrefix.trans ⟨_, hdown⟩ (hwritten ▸ hserver.sent))
    have hsame : (sent.map (Message.bytes cfg)).map (Client.messageFor cfg) =
        sent.map fun q => .onMessage q.head q.payload.length cfg.hdLen := by
      rw [List.map_map]
      refine List.map_congr_left fun q hq => ?_
      obtain ⟨hhead, hlen⟩ := (hsent q hq).shown
      simp only [Function.comp, Client.messageFor, hhead, hlen]
    rwa [hsame] at hpre

/-- A client sends a message, and the user of the server answers while it is given it. -/
def userAsks : List NetworkAct :=
  [.join .own, .server .arrive, .accept 7 0] ++
    List.replicate 6 (.server (.run 0 [] none)) ++
    [.client 0 (.connectDone none), .client 0 .connectNext, .client 0 .connectNext,
      .client 0 (.write [5] [6]), .client 0 (.io (.send 10)), .client 0 (.io .sendDone),
      .server (.io 0 (.recv [2, 0, 0, 0, 0, 0, 0, 0, 5, 6])), .server (.io 0 .recvDone),
      .server (.run 2 [] none), .server (.run 2 [] none), .server (.run 2 [.write 7 [8] []] none),
      .server (.run 2 [] none), .server (.run 2 [] none), .server (.run 2 [] none),
      .server (.run 2 [] none), .server (.io 0 (.send 9)), .server (.io 0 .sendDone),
      .client 0 (.io (.recv [1, 0, 0, 0, 0, 0, 0, 0, 8])), .client 0 (.io .recvDone),
      .client 0 (.io (.run 0)), .client 0 (.io (.run 0)), .client 0 (.io (.run 0))]

theorem users_in_order_asks :
    ∃ n p, Run (Network.step .shipped) Anything create userAsks n ∧
      n.links[0]? = some 0 ∧ n.peers[0]? = some p ∧
      (clientTraffic .shipped userAsks 0 p.kind).written = [[5, 6]] ∧
      n.server.messages 0 = [.onMessage 0 [5] 1 1] ∧ p.client.messages = [.onMessage [8] 0 1] ∧
      ∀ sent : List Message, (∀ q ∈ sent, q.Fits .shipped) →
        (clientTraffic .shipped userAsks 0 p.kind).written = sent.map (Message.bytes .shipped) →
          n.server.messages 0 <+: sent.map fun q =>
            .onMessage 0 q.head q.payload.length Config.shipped.hdLen := by
  have h := Run.of_exec (Network.step .shipped) create userAsks (by decide +kernel)
  exact ⟨_, _, h, by decide +kernel, List.getElem?_eq_getElem (by decide +kernel),
    by decide +kernel, by decide +kernel, by decide +kernel,
    (users_in_order h (by decide +kernel) (List.getElem?_eq_getElem (by decide +kernel))).1⟩

end Network

end AsioTcpFrame
