import AsioTcpFrame.Lib.Trace
import AsioTcpFrame.Packet
import AsioTcpFrame.Handlers

/-! # A client

`ClientTCP` is a session with three chains of handlers: the connect handler, which starts the
session and then reports the connection; the read handler; and the write handler, which may run
as soon as the client exists, since `write` does not ask whether it is connected.  `Client` is
the session among its threads (`Live`) with the state of the connect handler.

An operation that fails is reported by `error_callback`, which says `onDisconnect` and stops
nothing.  So the calls come in their order only as long as completions do (`Orderly`): no
failure is reported and no frame handed on before the connection was reported, or after a
failure, and no failure is reported while a message is on its way to the user. -/

namespace AsioTcpFrame

open Transition Trace
open scoped List

/-- The calls of the user's callbacks. -/
inductive ClientEvent where
  | onConnect
  | onMessage (head : List Byte) (length content : ℕ)
  | onError (message : String)
  | onDisconnect
deriving DecidableEq, Repr

namespace ClientEvent

def isMessage : ClientEvent → Bool
  | onMessage _ _ _ => true
  | _ => false

/-- What the user sees of a `read_callback`. -/
def ofEffect : Effect → List ClientEvent
  | .load _ _ => []
  | .onError _ message => [onError message]
  | .onMessage _ head length content => [onMessage head length content]

end ClientEvent

/-- The two constructors: with an `io_context` of its own, or on the caller's. -/
inductive ClientKind where
  | own
  | shared
deriving DecidableEq, Repr

namespace ClientTCP

/-- The `error_callback` of both constructors. -/
def errorCallback (errWhenReading : Bool) (ec : ErrorCode) : List ClientEvent :=
  (if ec = .eof then []
    else [.onError ((if errWhenReading then "read" else "write") ++ " failed: " ++ ec.message)]) ++
  [.onDisconnect]

/-- What the callbacks of the session call.  What lies in memory after the frame is not looked at
here, and is `0`. -/
def body (cfg : Config) (kind : ClientKind) : Callback → List ClientEvent
  | .read f =>
      let content := fun i => f.content.getD i 0
      (match kind with
        | .own => readCallback cfg.hdLen .both content f.length
        | .shared => readCallbackOn cfg.hdLen .both content f.length).flatMap ClientEvent.ofEffect
  | .error errWhenReading ec => errorCallback errWhenReading ec

end ClientTCP

/-- Where the connect handler is: not run yet; connected, before `start` and before `_connect`;
failed, before `_error`; and after each. -/
inductive ConnectPc where
  | pending
  | starting
  | reporting
  | failing (message : String)
  | connected
  | failed
deriving DecidableEq, Repr

/-- A client, and how many failures were reported to its `error_callback`. -/
structure Client where
  live : Live ClientEvent
  connect : ConnectPc
  errors : ℕ
deriving DecidableEq, Repr

/-- The completions of a session and the steps of its handlers. -/
def SessionAct.isIo : SessionAct → Bool
  | .start | .write _ | .stop => false
  | _ => true

/-- The connect operation completes; its handler takes a step; the user calls `write` or `close`;
an operation of the session completes, or one of its handlers takes a step. -/
inductive ClientAct where
  | connectDone (ec : Option ErrorCode)
  | connectNext
  | write (head payload : List Byte)
  | close
  | io (a : SessionAct)
deriving DecidableEq, Repr

namespace Client

variable (cfg : Config) (kind : ClientKind)

/-- A client that was just made: the connect operation is outstanding. -/
def create : Client := ⟨Live.create, .pending, 0⟩

/-- A step of the session. -/
def sess (n : Client) (a : SessionAct) : Option Client :=
  (n.live.step cfg (ClientTCP.body cfg kind) a).map fun live =>
    { n with live := live, errors := n.errors + if n.live.Reports a then 1 else 0 }

def step (n : Client) : ClientAct → Option Client
  | .connectDone ec =>
      if n.connect = .pending then
        some { n with
          connect := match ec with
            | none => .starting
            | some ec => .failing ec.message }
      else none
  | .connectNext =>
      match n.connect with
      | .starting => (n.sess cfg kind .start).map fun n => { n with connect := .reporting }
      | .reporting => some { n with live := n.live.see (.call .onConnect), connect := .connected }
      | .failing message =>
          some { n with live := n.live.see (.call (.onError message)), connect := .failed }
      | _ => none
  | .write head payload => n.sess cfg kind (.write (ClientTCP.write cfg.hdLen head payload).2)
  | .close => n.sess cfg kind .stop
  | .io a => if a.isIo then n.sess cfg kind a else none

/-- The calls of the user's callbacks, in order. -/
def calls (n : Client) : List ClientEvent := n.live.calls

/-- A failure is reported, and a frame handed on, only after the connection was reported and before
any failure was; and a failure only while no message is on its way to the user. -/
def Orderly (n : Client) : ClientAct → Prop
  | .io a =>
      (n.live.Reports a ∨ n.live.HandsOn a → n.connect = .connected ∧ n.errors = 0) ∧
      (n.live.Reports a → n.live.ahead.countP ClientEvent.isMessage = 0)
  | _ => True

instance (n : Client) (a : ClientAct) : Decidable (n.Orderly a) := by
  cases a <;> unfold Orderly <;> infer_instance

/-- The order in which the user's callbacks should be called. -/
structure Protocol (n : Client) : Prop where
  connectOnce : n.calls.count .onConnect ≤ 1
  connectFirst : Preceded (· = .onConnect) (ClientEvent.isMessage · = true) n.calls
  disconnectOnce : n.calls.count .onDisconnect ≤ 1
  disconnectAfter : Preceded (· = .onConnect) (· = .onDisconnect) n.calls
  silent : NeverAfter (· = .onDisconnect) (ClientEvent.isMessage · = true) n.calls

/-- What holds in every state of an orderly run: one `onDisconnect` for every failure, and at most
one failure, which comes after the connection; no message is on its way unless the client is
connected and nothing has failed. -/
structure Inv (n : Client) : Prop where
  noConnect : n.live.ahead.count .onConnect = 0
  connect : n.calls.count .onConnect = if n.connect = .connected then 1 else 0
  disconnect : n.live.ahead.count .onDisconnect + n.calls.count .onDisconnect = n.errors
  one : n.errors ≤ 1
  errors : n.errors ≠ 0 → n.connect = .connected
  message : n.live.ahead.countP ClientEvent.isMessage ≠ 0 → n.connect = .connected ∧ n.errors = 0
  connectFirst : Preceded (· = .onConnect) (ClientEvent.isMessage · = true) n.calls
  disconnectAfter : Preceded (· = .onConnect) (· = .onDisconnect) n.calls
  silent : NeverAfter (· = .onDisconnect) (ClientEvent.isMessage · = true) n.calls

theorem inv_create : Inv create where
  noConnect := rfl
  connect := rfl
  disconnect := rfl
  one := Nat.zero_le 1
  errors := fun h => absurd rfl h
  message := fun h => absurd rfl h
  connectFirst := preceded_nil
  disconnectAfter := preceded_nil
  silent := neverAfter_nil

/-! ### What the callbacks call -/

theorem count_body_read (f : Frame) :
    (ClientTCP.body cfg kind (.read f)).count .onConnect = 0 ∧
      (ClientTCP.body cfg kind (.read f)).count .onDisconnect = 0 := by
  have hunpack : ∀ content length,
      ((unpack cfg.hdLen .both none content length).flatMap ClientEvent.ofEffect).count .onConnect = 0 ∧
      ((unpack cfg.hdLen .both none content length).flatMap ClientEvent.ofEffect).count
        .onDisconnect = 0 := by
    intro content length
    by_cases hneg : bodyLength cfg.hdLen length < 0 <;>
      simp [unpack, hneg, Callbacks.error, Callbacks.message, Callbacks.both, ClientEvent.ofEffect]
  cases kind with
  | own => exact hunpack _ _
  | shared => exact hunpack _ _

theorem count_errorCallback (errWhenReading : Bool) (ec : ErrorCode) :
    (ClientTCP.errorCallback errWhenReading ec).count .onConnect = 0 ∧
      (ClientTCP.errorCallback errWhenReading ec).count .onDisconnect = 1 ∧
      (ClientTCP.errorCallback errWhenReading ec).countP ClientEvent.isMessage = 0 := by
  by_cases hec : ec = .eof <;> simp [ClientTCP.errorCallback, hec, ClientEvent.isMessage]

variable {cfg} {kind} {n n' : Client} {a : ClientAct}

theorem Inv.enter (h : Inv n) {live : Live ClientEvent} {todo : List ClientEvent} {errors : ℕ}
    (hcalls : live.calls = n.live.calls) (hahead : live.ahead ~ todo ++ n.live.ahead)
    (hconnect : todo.count .onConnect = 0) (herrors : errors = n.errors + todo.count .onDisconnect)
    (hone : errors ≤ 1) (hfailed : errors ≠ 0 → n.connect = .connected)
    (hmessage : todo.countP ClientEvent.isMessage + n.live.ahead.countP ClientEvent.isMessage ≠ 0 →
      n.connect = .connected ∧ errors = 0) :
    Inv { n with live := live, errors := errors } where
  noConnect := by rw [hahead.count_eq, List.count_append, hconnect, h.noConnect]
  connect := by simp only [calls, hcalls]; exact h.connect
  disconnect := by
    have hold := h.disconnect
    simp only [calls, hcalls, hahead.count_eq, List.count_append] at hold ⊢
    omega
  one := hone
  errors := hfailed
  message := fun hne => hmessage (by rwa [hahead.countP_eq, List.countP_append] at hne)
  connectFirst := by simp only [calls, hcalls]; exact h.connectFirst
  disconnectAfter := by simp only [calls, hcalls]; exact h.disconnectAfter
  silent := by simp only [calls, hcalls]; exact h.silent

theorem Inv.mem_onConnect (h : Inv n) (hc : n.connect = .connected) :
    .onConnect ∈ n.calls := by
  have hcount := h.connect
  rw [if_pos hc] at hcount
  exact List.count_pos_iff.mp (by omega)

theorem Inv.call (h : Inv n) {live : Live ClientEvent} {e : ClientEvent}
    (hcalls : live.calls = n.live.calls ++ [e]) (hahead : e :: live.ahead ~ n.live.ahead) :
    Inv { n with live := live } := by
  have hconnect := h.noConnect
  have hdisconnect := h.disconnect
  have hone := h.one
  rw [← hahead.count_eq, List.count_cons] at hconnect hdisconnect
  have hmsg := h.message
  rw [← hahead.countP_eq, List.countP_cons] at hmsg
  have hne : e ≠ .onConnect := by rintro rfl; simp at hconnect
  refine ⟨by dsimp only; omega, ?_, ?_, hone, h.errors,
    fun hm => hmsg (by dsimp only at hm; omega), ?_, ?_, ?_⟩
  · simp only [calls, hcalls, List.count_append, List.count_singleton, beq_iff_eq, hne, if_false]
    exact h.connect
  · simp only [calls, hcalls, List.count_append, List.count_singleton] at hdisconnect ⊢
    omega
  · simp only [calls, hcalls]
    refine preceded_snoc.mpr ⟨h.connectFirst, fun he => ⟨.onConnect, ?_, rfl⟩⟩
    exact h.mem_onConnect (hmsg (by simp [he])).1
  · simp only [calls, hcalls]
    refine preceded_snoc.mpr ⟨h.disconnectAfter, fun he => ⟨.onConnect, ?_, rfl⟩⟩
    exact h.mem_onConnect (h.errors (by simp [he] at hdisconnect; omega))
  · simp only [calls, hcalls]
    refine neverAfter_snoc.mpr ⟨h.silent, ?_⟩
    intro he y hy hyd
    have hzero := (hmsg (by simp [he])).2
    have hpos : 0 < n.calls.count .onDisconnect := List.count_pos_iff.mpr (hyd ▸ hy)
    omega

theorem Inv.sess (h : Inv n) {b : SessionAct}
    (hG : n.live.Reports b ∨ n.live.HandsOn b → n.connect = .connected ∧ n.errors = 0)
    (hmessage : n.live.Reports b → n.live.ahead.countP ClientEvent.isMessage = 0)
    (hstep : n.sess cfg kind b = some n') : Inv n' := by
  obtain ⟨live, hlive, rfl⟩ := Option.map_eq_some_iff.mp hstep
  cases Live.Calls.of_step (Live.Step.of_step hlive) with
  | quiet hrep hcalls hahead =>
      rw [if_neg hrep]
      have hnone : live.ahead ~ [] ++ n.live.ahead := hahead
      exact h.enter hcalls hnone rfl rfl h.one h.errors (by simpa using h.message)
  | read f hon hrep hcalls hahead =>
      obtain ⟨hconnected, hzero⟩ := hG (Or.inr hon)
      obtain ⟨hc, hd⟩ := count_body_read cfg kind f
      rw [if_neg hrep]
      exact h.enter hcalls hahead hc (by rw [hd]) h.one h.errors fun _ => ⟨hconnected, hzero⟩
  | error r ec hrep hcalls hahead =>
      obtain ⟨hconnected, hzero⟩ := hG (Or.inl hrep)
      obtain ⟨hc, hd, hm⟩ := count_errorCallback r ec
      rw [if_pos hrep]
      refine h.enter hcalls hahead hc (by rw [ClientTCP.body, hd]) (by omega)
        (fun _ => hconnected) fun hne => ?_
      rw [ClientTCP.body, hm, hmessage hrep] at hne
      exact absurd rfl hne
  | call e hrep hcalls hahead =>
      rw [if_neg hrep]
      exact h.call hcalls hahead

/-- While the client is not connected, nothing has been reported and nothing is on its way. -/
theorem Inv.quiet (h : Inv n) (hc : n.connect ≠ .connected) :
    n.errors = 0 ∧ n.live.ahead.count .onDisconnect = 0 ∧ n.calls.count .onDisconnect = 0 ∧
      n.live.ahead.countP ClientEvent.isMessage = 0 := by
  have hzero : n.errors = 0 := by
    by_contra hne
    exact hc (h.errors hne)
  have hmsg : n.live.ahead.countP ClientEvent.isMessage = 0 := by
    by_contra hne
    exact hc (h.message hne).1
  have := h.disconnect
  exact ⟨hzero, by omega, by omega, hmsg⟩

theorem Inv.move (h : Inv n) {pc : ConnectPc} (hc : n.connect ≠ .connected)
    (hpc : pc ≠ .connected) : Inv { n with connect := pc } := by
  obtain ⟨hzero, -, -, hmsg⟩ := h.quiet hc
  refine ⟨h.noConnect, ?_, h.disconnect, h.one, fun hne => absurd hzero hne,
    fun hne => absurd hmsg hne, h.connectFirst, h.disconnectAfter, h.silent⟩
  have hold := h.connect
  rw [if_neg hc] at hold
  rw [if_neg hpc]
  exact hold

theorem Inv.reportFailed (h : Inv n) (hc : n.connect ≠ .connected) (message : String) :
    Inv { n with live := n.live.see (.call (.onError message)), connect := .failed } := by
  obtain ⟨hzero, hahead, hcalls, hmsg⟩ := h.quiet hc
  have hold := h.connect
  rw [if_neg hc] at hold
  have hsee : (Client.mk (n.live.see (.call (.onError message))) .failed n.errors).calls =
      n.calls ++ [.onError message] := Live.calls_see _ _
  refine ⟨h.noConnect, ?_, ?_, h.one, fun hne => absurd hzero hne, fun hne => absurd hmsg hne,
    ?_, ?_, ?_⟩
  · simp [hsee, hold]
  · simpa [hsee] using h.disconnect
  · rw [hsee]; exact preceded_snoc.mpr ⟨h.connectFirst, fun he => by cases he⟩
  · rw [hsee]; exact preceded_snoc.mpr ⟨h.disconnectAfter, fun he => by cases he⟩
  · rw [hsee]; exact neverAfter_snoc.mpr ⟨h.silent, fun he => by cases he⟩

theorem Inv.reportConnected (h : Inv n) (hc : n.connect ≠ .connected) :
    Inv { n with live := n.live.see (.call .onConnect), connect := .connected } := by
  obtain ⟨hzero, hahead, hcalls, hmsg⟩ := h.quiet hc
  have hold := h.connect
  rw [if_neg hc] at hold
  have hsee : (Client.mk (n.live.see (.call .onConnect)) .connected n.errors).calls =
      n.calls ++ [.onConnect] := Live.calls_see _ _
  refine ⟨h.noConnect, ?_, ?_, h.one, fun _ => rfl, fun hne => absurd hmsg hne, ?_, ?_, ?_⟩
  · simp [hsee, hold]
  · simpa [hsee] using h.disconnect
  · rw [hsee]; exact preceded_snoc.mpr ⟨h.connectFirst, fun he => by cases he⟩
  · rw [hsee]; exact preceded_snoc.mpr ⟨h.disconnectAfter, fun he => by cases he⟩
  · rw [hsee]; exact neverAfter_snoc.mpr ⟨h.silent, fun he => by cases he⟩

theorem Inv.step (h : Inv n) (hG : n.Orderly a) (hstep : n.step cfg kind a = some n') :
    Inv n' := by
  have hno : ∀ b : SessionAct, b = .start ∨ (∃ content, b = .write content) ∨ b = .stop →
      ¬ n.live.Reports b ∧ ¬ n.live.HandsOn b := by
    rintro b (rfl | ⟨content, rfl⟩ | rfl) <;> exact ⟨fun h => h, fun h => h⟩
  have huser : ∀ b : SessionAct, b = .start ∨ (∃ content, b = .write content) ∨ b = .stop →
      ∀ n', n.sess cfg kind b = some n' → Inv n' := fun b hb n' hs =>
    h.sess (fun hr => (hr.elim (hno b hb).1 (hno b hb).2).elim) (fun hr => ((hno b hb).1 hr).elim) hs
  cases a with
  | connectDone ec =>
      simp only [Client.step] at hstep
      split at hstep
      · next hc =>
        cases hstep
        cases ec with
        | none => exact h.move (by rw [hc]; decide) (by decide)
        | some ec => exact h.move (by rw [hc]; decide) (fun he => by cases he)
      · cases hstep
  | connectNext =>
      simp only [Client.step] at hstep
      split at hstep
      · next hc =>
        obtain ⟨m, hm, rfl⟩ := Option.map_eq_some_iff.mp hstep
        have hI := huser .start (Or.inl rfl) m hm
        obtain ⟨live, -, rfl⟩ := Option.map_eq_some_iff.mp hm
        exact hI.move (by dsimp only; rw [hc]; decide) (by decide)
      · next hc => cases hstep; exact h.reportConnected (by rw [hc]; decide)
      · next hc => cases hstep; exact h.reportFailed (by rw [hc]; intro he; cases he) _
      · cases hstep
  | write head payload => exact huser _ (Or.inr (Or.inl ⟨_, rfl⟩)) _ hstep
  | close => exact huser _ (Or.inr (Or.inr rfl)) _ hstep
  | io b =>
      simp only [Client.step] at hstep
      split at hstep
      · exact h.sess hG.1 hG.2 hstep
      · cases hstep

/-- **The client's callbacks come in order** in every orderly run. -/
theorem protocol {acts : List ClientAct}
    (h : Run (Client.step cfg kind) Orderly create acts n) : n.Protocol := by
  have hI := h.invariant (I := Inv) inv_create fun _ _ _ hI hG hstep => hI.step hG hstep
  have hconnect := hI.connect
  have hdisconnect := hI.disconnect
  have hone := hI.one
  exact ⟨by split at hconnect <;> omega, hI.connectFirst, by omega, hI.disconnectAfter, hI.silent⟩

/-- The client connects, gets a packet of one byte of header and one of payload, and the server
closes. -/
def packetThenEof : List ClientAct :=
  [.connectDone none, .connectNext, .connectNext, .io (.recv [2, 0, 0, 0, 0, 0, 0, 0, 5, 6]),
    .io .recvDone, .io (.run 0), .io (.run 0), .io (.run 0), .io (.run 0), .io (.run 0),
    .io (.recvFail .eof), .io (.run 0)]

theorem protocol_closed :
    ∃ n, Run (Client.step .shipped .own) Orderly create packetThenEof n ∧
      n.calls = [.onConnect, .onMessage [5] 1 1, .onDisconnect] ∧ n.Protocol := by
  have h := Run.of_execWhen (Client.step .shipped .own) Orderly create packetThenEof (by decide)
  exact ⟨_, h, by decide +kernel, protocol h⟩

/-- `write` before the connection exists: the socket refuses the bytes. -/
def writeUnconnected : List ClientAct :=
  [.write [0] [], .io (.sendFail (.other "Broken pipe")), .io (.run 0), .io (.run 0)]

/-- The write and the read fail, both while the client is connected. -/
def bothFail : List ClientAct :=
  [.connectDone none, .connectNext, .connectNext, .write [0] [],
    .io (.sendFail (.other "Broken pipe")), .io (.recvFail .eof), .io (.run 0), .io (.run 0),
    .io (.run 1)]

/-- The write fails, and a packet is received after that. -/
def receiveAfterFailure : List ClientAct :=
  [.connectDone none, .connectNext, .connectNext, .write [0] [],
    .io (.sendFail (.other "Broken pipe")), .io (.run 0), .io (.run 0), .io (.run 0),
    .io (.recv [1, 0, 0, 0, 0, 0, 0, 0, 5]), .io .recvDone, .io (.run 0), .io (.run 0),
    .io (.run 0)]

theorem not_protocol :
    (∃ n, Run (Client.step .shipped .own) Anything create writeUnconnected n ∧
      n.calls = [.onError "write failed: Broken pipe", .onDisconnect] ∧ ¬ n.Protocol) ∧
    (∃ n, Run (Client.step .shipped .own) Anything create bothFail n ∧
      n.calls = [.onConnect, .onError "write failed: Broken pipe", .onDisconnect, .onDisconnect] ∧
      ¬ n.Protocol) ∧
    (∃ n, Run (Client.step .shipped .own) Anything create receiveAfterFailure n ∧
      n.calls = [.onConnect, .onError "write failed: Broken pipe", .onDisconnect,
        .onMessage [5] 0 1] ∧ ¬ n.Protocol) := by
  refine ⟨?_, ?_, ?_⟩
  · have h := Run.of_exec (Client.step .shipped .own) create writeUnconnected (by decide)
    refine ⟨_, h, by decide +kernel, ?_⟩
    intro hp
    have hafter := hp.disconnectAfter [.onError "write failed: Broken pipe"] .onDisconnect []
      (by decide) rfl
    revert hafter
    decide
  · have h := Run.of_exec (Client.step .shipped .own) create bothFail (by decide)
    exact ⟨_, h, by decide +kernel, fun hp => absurd hp.disconnectOnce (by decide)⟩
  · have h := Run.of_exec (Client.step .shipped .own) create receiveAfterFailure (by decide)
    refine ⟨_, h, by decide +kernel, ?_⟩
    intro hp
    have hsilent := hp.silent
    unfold NeverAfter at hsilent
    revert hsilent
    decide

end Client

end AsioTcpFrame
