import AsioTcpFrame.Lib.Slots
import AsioTcpFrame.Lib.Transition
import AsioTcpFrame.Session

/-! # A session among threads

The completion handlers of a session run on any number of threads, and user code may call
`write` and `stop` at any moment, from inside a callback or from elsewhere.  `Live` is a session
together with the handlers that are running (`Activation`) and the trace of what was seen from
outside.  `step` takes one step of it:

* a call of `start`, `write` or `stop`;
* the socket takes bytes of the outstanding write (`send`) or gets bytes for the outstanding
  read (`recv`);
* an operation completes, with success or with an error, and its handler is entered: it tests
  the stop flag, and goes on or returns;
* a test of the stop flag finds the session stopped, and takes the flag for a moment (`tryLock`,
  `unlock`); every other test finds it then as if the session were running;
* a handler that is running takes its next step (`run`): a turn of the loop of the read handler,
  one of the user calls of a callback, or the return from it.

What `read_callback` and `error_callback` do is the parameter `body`: the calls of user code, in
order.  `Step` is the same transition as a relation, with one named case for everything a step
can do. -/

namespace AsioTcpFrame

open Transition
open scoped List

/-- A call of `read_callback` or of `error_callback`. -/
inductive Callback where
  | read (f : Frame)
  | error (whenReading : Bool) (ec : ErrorCode)
deriving DecidableEq, Repr

/-- A handler that is running: the read handler at the head of its loop; the read handler inside
`read_callback`; a handler inside `error_callback`.  `todo` are the user calls still to come. -/
inductive Activation (ε : Type) where
  | loop
  | reading (todo : List ε)
  | failing (todo : List ε)
deriving DecidableEq, Repr

/-- What is seen from outside: a call of user code, or the return of `stop`. -/
inductive Obs (ε : Type) where
  | call (e : ε)
  | stopped
deriving DecidableEq, Repr

/-- `testing`: a test that has found the session stopped has still to unlock the flag. -/
structure Live (ε : Type) where
  sess : Session
  started : Bool
  testing : Bool
  running : List (Activation ε)
  trace : List (Obs ε)
deriving DecidableEq, Repr

inductive SessionAct where
  | start
  | write (content : List Byte)
  | stop
  | tryLock
  | unlock
  | send (k : ℕ)
  | sendDone
  | sendFail (ec : ErrorCode)
  | recv (bytes : List Byte)
  | recvDone
  | recvFail (ec : ErrorCode)
  | run (i : ℕ)
deriving DecidableEq, Repr

namespace Live

variable {ε : Type}

/-- A session that was just made. -/
def create : Live ε := ⟨Session.create, false, false, [], []⟩

/-- `n` with another session state. -/
def withSess (n : Live ε) (s : Session) : Live ε := { n with sess := s }

/-- A handler is entered with the session `s`: when it is not stopped, `act` is what it does. -/
def enter (n : Live ε) (s : Session) (act : Activation ε) : Live ε :=
  if s.stopped then n.withSess s else { n with sess := s, running := n.running ++ [act] }

/-- The running handler `i` goes on as `act`. -/
def goOn (n : Live ε) (i : ℕ) (act : Activation ε) : Live ε :=
  { n with running := n.running.set i act }

/-- The running handler `i` returns. -/
def leave (n : Live ε) (i : ℕ) : Live ε := { n with running := n.running.eraseIdx i }

/-- `o` is seen. -/
def see (n : Live ε) (o : Obs ε) : Live ε := { n with trace := n.trace ++ [o] }

variable (cfg : Config) (body : Callback → List ε)

/-- The next step of the running handler `i`. -/
def run (n : Live ε) (i : ℕ) : Option (Live ε) :=
  match n.running[i]? with
  | none => none
  | some .loop =>
      match n.sess.turn cfg with
      | .brk => some ((n.withSess n.sess.doRead).leave i)
      | .overread => none
      | .head s => some (n.withSess s)
      | .body f s => some ((n.withSess s).goOn i (.reading (body (.read f))))
  | some (.reading []) => some ((n.withSess n.sess.consumeBody).goOn i .loop)
  | some (.reading (e :: todo)) => some ((n.see (.call e)).goOn i (.reading todo))
  | some (.failing []) => some (n.leave i)
  | some (.failing (e :: todo)) => some ((n.see (.call e)).goOn i (.failing todo))

def step (n : Live ε) : SessionAct → Option (Live ε)
  | .start => if n.started then none else some { n with sess := n.sess.start, started := true }
  | .write content => some (n.withSess (n.sess.write cfg content))
  | .stop => some ((n.withSess n.sess.stop).see .stopped)
  | .tryLock =>
      if n.sess.stopped then
        some { n with sess := { n.sess with stopped := false }, testing := true }
      else none
  | .unlock =>
      if n.testing then
        some { n with sess := { n.sess with stopped := true }, testing := false }
      else none
  | .send k => (n.sess.send k).map fun r => n.withSess r.2
  | .sendDone => n.sess.sendDone.map n.withSess
  | .sendFail ec =>
      match n.sess.writes with
      | ⟨_, none⟩ :: rest =>
          some (n.enter { n.sess with writes := rest } (.failing (body (.error false ec))))
      | _ => none
  | .recv bytes => (n.sess.recv bytes).map n.withSess
  | .recvDone =>
      match n.sess.reads with
      | some bytes :: rest =>
          let s := { n.sess with reads := rest }
          some (n.enter (if s.stopped then s else s.commit bytes) .loop)
      | _ => none
  | .recvFail ec =>
      match n.sess.reads with
      | none :: rest =>
          some (n.enter { n.sess with reads := rest } (.failing (body (.error true ec))))
      | _ => none
  | .run i => n.run cfg body i

/-- Everything a step can do. -/
inductive Step (n : Live ε) : SessionAct → Live ε → Prop
  | start : n.started = false → Step n .start { n with sess := n.sess.start, started := true }
  | write (content : List Byte) : Step n (.write content) (n.withSess (n.sess.write cfg content))
  | stop : Step n .stop ((n.withSess n.sess.stop).see .stopped)
  | tryLock : n.sess.stopped = true → Step n .tryLock
      { n with sess := { n.sess with stopped := false }, testing := true }
  | unlock : n.testing = true → Step n .unlock
      { n with sess := { n.sess with stopped := true }, testing := false }
  | send {k : ℕ} {bytes : List Byte} {s : Session} :
      n.sess.send k = some (bytes, s) → Step n (.send k) (n.withSess s)
  | sendDone {s : Session} : n.sess.sendDone = some s → Step n .sendDone (n.withSess s)
  | sendFail {data : List Byte} {rest : List WriteOp} (ec : ErrorCode) :
      n.sess.writes = ⟨data, none⟩ :: rest → Step n (.sendFail ec)
        (n.enter { n.sess with writes := rest } (.failing (body (.error false ec))))
  | recv {bytes : List Byte} {s : Session} :
      n.sess.recv bytes = some s → Step n (.recv bytes) (n.withSess s)
  | recvStopped {bytes : List Byte} {rest : List ReadOp} :
      n.sess.reads = some bytes :: rest → n.sess.stopped = true →
        Step n .recvDone (n.withSess { n.sess with reads := rest })
  | recvDone {bytes : List Byte} {rest : List ReadOp} :
      n.sess.reads = some bytes :: rest → n.sess.stopped = false → Step n .recvDone
        { n with
          sess := ({ n.sess with reads := rest } : Session).commit bytes
          running := n.running ++ [.loop] }
  | recvFail {rest : List ReadOp} (ec : ErrorCode) :
      n.sess.reads = none :: rest → Step n (.recvFail ec)
        (n.enter { n.sess with reads := rest } (.failing (body (.error true ec))))
  | brk {i : ℕ} : n.running[i]? = some .loop → n.sess.turn cfg = .brk →
      Step n (.run i) ((n.withSess n.sess.doRead).leave i)
  | head {i : ℕ} {s : Session} : n.running[i]? = some .loop → n.sess.turn cfg = .head s →
      Step n (.run i) (n.withSess s)
  | body {i : ℕ} {f : Frame} {s : Session} : n.running[i]? = some .loop →
      n.sess.turn cfg = .body f s →
        Step n (.run i) ((n.withSess s).goOn i (.reading (body (.read f))))
  | consume {i : ℕ} : n.running[i]? = some (.reading []) →
      Step n (.run i) ((n.withSess n.sess.consumeBody).goOn i .loop)
  | callRead {i : ℕ} {e : ε} {todo : List ε} : n.running[i]? = some (.reading (e :: todo)) →
      Step n (.run i) ((n.see (.call e)).goOn i (.reading todo))
  | returnFail {i : ℕ} : n.running[i]? = some (.failing []) → Step n (.run i) (n.leave i)
  | callFail {i : ℕ} {e : ε} {todo : List ε} : n.running[i]? = some (.failing (e :: todo)) →
      Step n (.run i) ((n.see (.call e)).goOn i (.failing todo))

variable {cfg} {body} {n n' : Live ε} {a : SessionAct}

theorem Step.of_run {i : ℕ} (h : n.run cfg body i = some n') : Step cfg body n (.run i) n' := by
  unfold run at h
  split at h
  · cases h
  · next hact =>
    split at h
    · next hturn => cases h; exact .brk hact hturn
    · cases h
    · next hturn => cases h; exact .head hact hturn
    · next hturn => cases h; exact .body hact hturn
  · next hact => cases h; exact .consume hact
  · next hact => cases h; exact .callRead hact
  · next hact => cases h; exact .returnFail hact
  · next hact => cases h; exact .callFail hact

theorem Step.of_step (h : n.step cfg body a = some n') : Step cfg body n a n' := by
  cases a with
  | start =>
      simp only [step] at h
      split at h
      · cases h
      · next hs => cases h; exact .start (by simpa using hs)
  | write content => cases h; exact .write content
  | stop => cases h; exact .stop
  | tryLock =>
      simp only [step] at h
      split at h
      · next hs => cases h; exact .tryLock hs
      · cases h
  | unlock =>
      simp only [step] at h
      split at h
      · next ht => cases h; exact .unlock ht
      · cases h
  | send k =>
      obtain ⟨⟨bytes, s⟩, hs, rfl⟩ := Option.map_eq_some_iff.mp h
      exact .send hs
  | sendDone =>
      obtain ⟨s, hs, rfl⟩ := Option.map_eq_some_iff.mp h
      exact .sendDone hs
  | sendFail ec =>
      simp only [step] at h
      split at h
      · next hw => cases h; exact .sendFail ec hw
      · cases h
  | recv bytes =>
      obtain ⟨s, hs, rfl⟩ := Option.map_eq_some_iff.mp h
      exact .recv hs
  | recvDone =>
      simp only [step] at h
      split at h
      · next bytes rest hr =>
        cases h
        cases hs : n.sess.stopped with
        | true => simpa [enter, hs] using Step.recvStopped hr hs
        | false => simpa [enter, hs, Session.commit] using Step.recvDone hr hs
      · cases h
  | recvFail ec =>
      simp only [step] at h
      split at h
      · next hr => cases h; exact .recvFail ec hr
      · cases h
  | run i => exact Step.of_run h

/-! ### One read chain

`start` is called once for a session, by the connect handler or by the accept handler, and after
that the only call of `doRead` is the last action of the read handler.  So at most one read is
outstanding or being handled. -/

end Live

/-- The activations of the read handler that will call `doRead`. -/
def Activation.isReader {ε : Type} : Activation ε → Bool
  | failing _ => false
  | _ => true

namespace Live

variable {ε : Type} {cfg : Config} {body : Callback → List ε} {n n' : Live ε} {a : SessionAct}

/-- The reads that are outstanding and the read handlers that are running. -/
def readers (n : Live ε) : ℕ := n.sess.reads.length + n.running.countP Activation.isReader

structure ReadChain (n : Live ε) : Prop where
  idle : n.started = false → n.readers = 0
  one : n.readers ≤ 1

theorem readChain_create : (create : Live ε).ReadChain := ⟨fun _ => rfl, Nat.zero_le 1⟩

theorem ReadChain.congr (h : n.ReadChain) (hs : n'.started = n.started)
    (hr : n'.readers ≤ n.readers) : n'.ReadChain :=
  ⟨fun hn => by have := h.idle (by rw [← hs]; exact hn); omega, hr.trans h.one⟩

theorem readers_withSess {s : Session} (h : s.input = n.sess.input) :
    (n.withSess s).readers = n.readers := by
  have hreads : s.reads = n.sess.reads := congrArg Session.Input.reads h
  simp only [readers, withSess, hreads]

theorem readers_enter_failing {s : Session} (todo : List ε) :
    (n.enter s (.failing todo)).readers = s.reads.length + n.running.countP Activation.isReader := by
  unfold enter
  split
  · rfl
  · simp [readers, Activation.isReader]

theorem readers_goOn {m : Live ε} {i : ℕ} {x y : Activation ε} (h : n.running[i]? = some x)
    (hxy : x.isReader = y.isReader) (hm : m.running = n.running)
    (hreads : m.sess.reads = n.sess.reads) : (m.goOn i y).readers = n.readers := by
  have := Slots.countP_set_add (p := Activation.isReader) h y
  simp only [readers, goOn, hm, hreads]
  rw [hxy] at this
  omega

theorem readers_leave {i : ℕ} {x : Activation ε} (h : n.running[i]? = some x) :
    (n.leave i).readers + x.isReader.toNat = n.readers := by
  have := Slots.countP_eraseIdx_add (p := Activation.isReader) h
  simp only [readers, leave]
  omega

theorem readers_doRead_le : (n.withSess n.sess.doRead).readers ≤ n.readers + 1 := by
  unfold Session.doRead
  split
  · simp [readers, withSess]
  · simp only [readers, withSess, List.length_append, List.length_singleton]; omega

/-- **One read chain** in every state. -/
theorem ReadChain.step (h : n.ReadChain) (hstep : Step cfg body n a n') : n'.ReadChain := by
  cases hstep with
  | start hs =>
      have h₀ := h.idle hs
      have h₁ := readers_doRead_le (n := n)
      refine ⟨fun hn => (by cases hn), ?_⟩
      show (n.withSess n.sess.doRead).readers ≤ 1
      omega
  | write content => exact h.congr rfl (readers_withSess (by simp)).le
  | stop => exact h.congr rfl (readers_withSess (n := n) (s := n.sess.stop) (by simp)).le
  | tryLock hs => exact h.congr rfl (le_refl _)
  | unlock ht => exact h.congr rfl (le_refl _)
  | send hsend =>
      obtain ⟨data, rest, -, -, -, -, rfl⟩ := Session.send_eq hsend
      exact h.congr rfl (readers_withSess rfl).le
  | sendDone hdone =>
      obtain ⟨data, k, rest, -, rfl⟩ := Session.sendDone_eq hdone
      exact h.congr rfl (readers_withSess (by rw [Session.writeHandler_input]; rfl)).le
  | sendFail ec hw =>
      refine h.congr (by unfold enter; split <;> rfl) ?_
      rw [readers_enter_failing]
      exact le_refl _
  | recv hrecv =>
      obtain ⟨rest, hr, -, -, rfl⟩ := Session.recv_eq hrecv
      refine h.congr rfl ?_
      simp [readers, withSess, hr]
  | recvStopped hr hs =>
      refine h.congr rfl ?_
      simp [readers, withSess, hr]
  | recvDone hr hs =>
      refine h.congr rfl ?_
      simp [readers, hr, Session.commit, Activation.isReader]
      omega
  | recvFail ec hr =>
      refine h.congr (by unfold enter; split <;> rfl) ?_
      rw [readers_enter_failing]
      simp [readers, hr]
  | brk hact hturn =>
      have h₁ := readers_doRead_le (n := n)
      have h₂ := readers_leave (n := n.withSess n.sess.doRead) hact
      simp only [Activation.isReader, Bool.toNat_true] at h₂
      exact h.congr rfl (by omega)
  | head hact hturn =>
      obtain ⟨-, -, -, rfl⟩ := Session.turn_eq_head hturn
      exact h.congr rfl (le_refl _)
  | body hact hturn =>
      obtain ⟨-, -, -, -, rfl⟩ := Session.turn_eq_body hturn
      exact h.congr rfl (le_of_eq (readers_goOn hact rfl rfl rfl))
  | consume hact => exact h.congr rfl (le_of_eq (readers_goOn hact rfl rfl rfl))
  | callRead hact => exact h.congr rfl (le_of_eq (readers_goOn hact rfl rfl rfl))
  | returnFail hact => exact h.congr rfl (by have := readers_leave hact; omega)
  | callFail hact => exact h.congr rfl (le_of_eq (readers_goOn hact rfl rfl rfl))

/-- The running read handler is the only one. -/
theorem ReadChain.unique (h : n.ReadChain) {x y : Activation ε} (hx : x ∈ n.running)
    (hy : y ∈ n.running) (hxr : x.isReader = true) (hyr : y.isReader = true) : x = y :=
  Slots.eq_of_countP_le_one (by have := h.one; simp only [readers] at this; omega) hx hy hxr hyr

/-! ### User calls -/

/-- The calls in the trace. -/
def calls (n : Live ε) : List ε :=
  n.trace.filterMap fun
    | .call e => some e
    | .stopped => none

@[simp] theorem calls_see (n : Live ε) (e : ε) : (n.see (.call e)).calls = n.calls ++ [e] := by
  simp [calls, see]

end Live

/-- The user calls that a running handler has still to make in its callback. -/
def Activation.todo {ε : Type} : Activation ε → List ε
  | loop => []
  | reading todo => todo
  | failing todo => todo

namespace Live

variable {ε : Type} {cfg : Config} {body : Callback → List ε} {n n' : Live ε} {a : SessionAct}

/-- The user calls that the running handlers have still to make. -/
def ahead (n : Live ε) : List ε := n.running.flatMap Activation.todo

@[simp] theorem ahead_see (n : Live ε) (o : Obs ε) : (n.see o).ahead = n.ahead := rfl

/-- The step reports a failure to `error_callback`. -/
def Reports (n : Live ε) : SessionAct → Prop
  | .sendFail _ | .recvFail _ => n.sess.stopped = false
  | _ => False

/-- The step hands a frame to `read_callback`. -/
def HandsOn (n : Live ε) : SessionAct → Prop
  | .run i => n.running[i]? = some .loop ∧ n.sess.isReadingHead = false ∧
      n.sess.bodylen ≤ n.sess.recvBuf.length
  | _ => False

instance (n : Live ε) (a : SessionAct) : Decidable (n.Reports a) := by
  cases a <;> unfold Reports <;> infer_instance

instance [DecidableEq ε] (n : Live ε) (a : SessionAct) : Decidable (n.HandsOn a) := by
  cases a <;> unfold HandsOn <;> infer_instance

/-- What a step means for the user calls: nothing; a frame is handed on; a failure is reported; a
call is made. -/
inductive Calls (body : Callback → List ε) (n : Live ε) (a : SessionAct) (n' : Live ε) : Prop
  | quiet : ¬ n.Reports a → n'.calls = n.calls → n'.ahead ~ n.ahead → Calls body n a n'
  | read (f : Frame) : n.HandsOn a → ¬ n.Reports a → n'.calls = n.calls →
      n'.ahead ~ body (.read f) ++ n.ahead → Calls body n a n'
  | error (whenReading : Bool) (ec : ErrorCode) : n.Reports a → n'.calls = n.calls →
      n'.ahead ~ body (.error whenReading ec) ++ n.ahead → Calls body n a n'
  | call (e : ε) : ¬ n.Reports a → n'.calls = n.calls ++ [e] → e :: n'.ahead ~ n.ahead →
      Calls body n a n'

theorem ahead_goOn {m : Live ε} {i : ℕ} {x : Activation ε} (h : n.running[i]? = some x)
    (y : Activation ε) (hm : m.running = n.running) :
    x.todo ++ (m.goOn i y).ahead ~ y.todo ++ n.ahead := by
  simp only [ahead, goOn, hm]
  exact Slots.flatMap_set_perm Activation.todo h y

theorem ahead_call {m : Live ε} {i : ℕ} {x y : Activation ε} {e : ε} (h : n.running[i]? = some x)
    (hx : x.todo = e :: y.todo) (hm : m.running = n.running) :
    e :: (m.goOn i y).ahead ~ n.ahead := by
  have hperm := ahead_goOn h y hm
  rw [hx, List.cons_append] at hperm
  exact (List.perm_append_left_iff y.todo).mp (List.perm_middle.trans hperm)

theorem ahead_leave {m : Live ε} {i : ℕ} {x : Activation ε} (h : n.running[i]? = some x)
    (hx : x.todo = []) (hm : m.running = n.running) : (m.leave i).ahead ~ n.ahead := by
  have hperm := Slots.flatMap_eraseIdx_perm Activation.todo h
  rw [hx, List.nil_append] at hperm
  simpa only [ahead, leave, hm] using hperm

theorem ahead_enter {s : Session} (h : s.stopped = false) (x : Activation ε) :
    (n.enter s x).ahead ~ x.todo ++ n.ahead := by
  simp only [enter, h, Bool.false_eq_true, if_false, ahead, List.flatMap_append,
    List.flatMap_singleton]
  exact List.perm_append_comm

theorem calls_enter {s : Session} (x : Activation ε) : (n.enter s x).calls = n.calls := by
  unfold enter
  split <;> rfl

/-- **What a step means for the user calls.** -/
theorem Calls.of_step (hstep : Step cfg body n a n') : Calls body n a n' := by
  cases hstep with
  | start hs => exact .quiet (fun h => h) rfl (.refl _)
  | write content => exact .quiet (fun h => h) rfl (.refl _)
  | stop => exact .quiet (fun h => h) (by simp [calls, see, withSess]) (.refl _)
  | tryLock hs => exact .quiet (fun h => h) rfl (.refl _)
  | unlock ht => exact .quiet (fun h => h) rfl (.refl _)
  | send hsend => exact .quiet (fun h => h) rfl (.refl _)
  | sendDone hdone => exact .quiet (fun h => h) rfl (.refl _)
  | sendFail ec hw =>
      cases hs : n.sess.stopped with
      | true =>
          exact .quiet (fun h => absurd (hs.symm.trans h) (by decide)) (calls_enter _)
            (by simp [enter, hs, ahead, withSess])
      | false => exact .error false ec hs (calls_enter _) (ahead_enter (by exact hs) _)
  | recv hrecv => exact .quiet (fun h => h) rfl (.refl _)
  | recvStopped hr hs => exact .quiet (fun h => h) rfl (.refl _)
  | recvDone hr hs => exact .quiet (fun h => h) rfl (by simp [ahead, Activation.todo])
  | recvFail ec hr =>
      cases hs : n.sess.stopped with
      | true =>
          exact .quiet (fun h => absurd (hs.symm.trans h) (by decide)) (calls_enter _)
            (by simp [enter, hs, ahead, withSess])
      | false => exact .error true ec hs (calls_enter _) (ahead_enter (by exact hs) _)
  | brk hact hturn => exact .quiet (fun h => h) rfl (ahead_leave hact rfl rfl)
  | head hact hturn => exact .quiet (fun h => h) rfl (.refl _)
  | body hact hturn =>
      obtain ⟨hr, hb, -, -, -⟩ := Session.turn_eq_body hturn
      exact .read _ ⟨hact, hr, hb⟩ (fun h => h) rfl (ahead_goOn hact (.reading _) rfl)
  | consume hact => exact .quiet (fun h => h) rfl (ahead_goOn hact .loop rfl)
  | callRead hact =>
      exact .call _ (fun h => h) (calls_see _ _) (ahead_call hact (y := .reading _) rfl rfl)
  | returnFail hact => exact .quiet (fun h => h) rfl (ahead_leave hact rfl rfl)
  | callFail hact =>
      exact .call _ (fun h => h) (calls_see _ _) (ahead_call hact (y := .failing _) rfl rfl)

end Live

end AsioTcpFrame
