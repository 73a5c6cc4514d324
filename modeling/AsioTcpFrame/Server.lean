import AsioTcpFrame.Lib.Slots
import AsioTcpFrame.Lib.Transition
import AsioTcpFrame.Packet
import AsioTcpFrame.Session

/-! # A server

`Server` is a `ServerTCP`: the sessions it has accepted, the pool of those it holds by address,
its acceptor, and the threads that run its handlers and the calls of its interface.  A session is
known by its serial number; `Obj.addr` is where the object lives.

A thread is a stack of calls (`Call`): each is a function of the source that is running, with the
place where it is.  `exec` runs the call on top up to the next place where another thread may
come in between: where it takes or frees a mutex, or where it calls the user.  A call of a
user's callback puts the user's program, any list of calls of the interface, on top of the stack.
Which mutex a call holds where it is, and which it has to lock next, is `Call.holds` and
`Call.wants`; a call that wants a mutex runs only when no call of any thread holds it.

Sessions are owned by `shared_ptr`s: the pool, the two callbacks of the session itself, which
capture it, and the calls that are running (`Call.owns`).  A session that nobody owns is
destroyed, and `~Session` stops it (`sweep`).

`closeAll` erases the element its iterator is at and then advances the iterator.  That is
undefined, which `ub` records; the loop then goes on anywhere, or ends. -/

namespace AsioTcpFrame

open Transition
open scoped List

/-- The interface of a server. -/
inductive Api where
  | write (session : Addr) (head payload : List Byte)
  | broadcast (head payload : List Byte)
  | close (session : Addr)
  | closeAll
  | stop
deriving DecidableEq, Repr

/-- The calls of the user's callbacks, with the serial number of the session. -/
inductive ServerEvent where
  | onConnect (session : ℕ)
  | onMessage (session : ℕ) (head : List Byte) (length content : ℕ)
  | onError (session : Option ℕ) (message : String)
  | onDisconnect (session : ℕ)
deriving DecidableEq, Repr

/-- The session a callback is about. -/
def ServerEvent.session : ServerEvent → Option ℕ
  | onConnect i => some i
  | onMessage i _ _ _ => some i
  | onError i _ => i
  | onDisconnect i => some i

/-- `Session::write`: before the stop test, before `send_mtx` is locked, and with it locked. -/
inductive WritePc where
  | test
  | lock
  | body
deriving DecidableEq, Repr

/-- The handler of an accepted connection, before each of its steps. -/
inductive AcceptPc where
  | insert
  | setError
  | setRead
  | connect
  | start
  | rearm
deriving DecidableEq, Repr

/-- A function that is running, and where it is.  The last part of `close` and of the loop of
`closeAll` is shared: `disconnect` is before the call of `onDisconnect`, `erase` after it.
`message` and `error` are `_message` and `_error`. -/
inductive Call where
  | write (session : Addr) (bytes : List Byte)
  | broadcast (bytes : List Byte)
  | broadcasting (todo : List ℕ) (bytes : List Byte)
  | close (session : Addr)
  | closeAll
  | stop
  | disconnect (session : Addr) (i : ℕ) (all : Bool)
  | erase (session : Addr) (i : ℕ) (all : Bool)
  | advance
  | accepted (i : ℕ) (pc : AcceptPc)
  | message (i : ℕ) (head : List Byte) (length content : ℕ)
  | error (i : Option ℕ) (message : String)
  | sessionWrite (i : ℕ) (bytes : List Byte) (pc : WritePc)
  | readLoop (i : ℕ)
  | readConsume (i : ℕ)
  | writeDone (i : ℕ) (len : ℕ) (locked : Bool)
  | guard (i : ℕ)
deriving DecidableEq, Repr

/-- `sess_pool_mtx`, and the `send_mtx` of a session. -/
inductive Mutex where
  | pool
  | send (i : ℕ)
deriving DecidableEq, Repr

namespace Call

/-- The mutex that is held. -/
def holds : Call → Option Mutex
  | broadcasting _ _ | disconnect _ _ _ | erase _ _ _ | advance => some .pool
  | sessionWrite i _ .body => some (.send i)
  | writeDone i _ true => some (.send i)
  | _ => none

/-- The mutex that has to be locked next. -/
def wants : Call → Option Mutex
  | write _ _ | broadcast _ | close _ | closeAll | accepted _ .insert => some .pool
  | sessionWrite i _ .lock => some (.send i)
  | writeDone i _ false => some (.send i)
  | _ => none

/-- The session that a local variable of the call owns. -/
def owns : Call → Option ℕ
  | accepted i _ | sessionWrite i _ _ | writeDone i _ _ | guard i => some i
  | _ => none

end Call

/-- The calls that the user's program or a callback of a session begins with. -/
inductive Call.Initial : Call → Prop
  | write (session : Addr) (bytes : List Byte) : Initial (.write session bytes)
  | broadcast (bytes : List Byte) : Initial (.broadcast bytes)
  | close (session : Addr) : Initial (.close session)
  | closeAll : Initial .closeAll
  | stop : Initial .stop
  | message (i : ℕ) (head : List Byte) (length content : ℕ) :
      Initial (.message i head length content)
  | error (i : Option ℕ) (message : String) : Initial (.error i message)
  | guard (i : ℕ) : Initial (.guard i)

theorem Call.Initial.holds {c : Call} (h : c.Initial) : c.holds = none := by
  cases h <;> rfl

/-- What a `read_callback` of the session `i` calls. -/
def Call.ofEffect (i : ℕ) : Effect → List Call
  | .load _ _ => []
  | .onError _ text => [error (some i) text]
  | .onMessage _ head length content => [message i head length content]

/-- The function that a call of the interface runs; `write` and `broadcast` put header and payload
together first. -/
def Api.toCall (cfg : Config) : Api → Call
  | write session head payload => .write session (ServerTCP.write cfg.hdLen head payload).2
  | broadcast head payload => .broadcast (ServerTCP.broadcast cfg.hdLen head payload).2
  | close session => .close session
  | closeAll => .closeAll
  | stop => .stop

/-- A `Session` object of a server; its callbacks are set, and then own it, or not. -/
structure Obj where
  addr : Addr
  sess : Session
  alive : Bool
  errorCallback : Bool
  readCallback : Bool
deriving DecidableEq, Repr

/-- `make_shared<Session>`, at the address `a`. -/
def Obj.create (a : Addr) : Obj := ⟨a, Session.create, true, false, false⟩

/-- `pool` is `session_pool`, in the order of the addresses; `accepts` counts the `async_accept`s
that wait for a connection, and `arrived` those that have got one and whose handler is still to
run. -/
structure Server where
  sessions : List Obj
  pool : List (Addr × ℕ)
  acceptorOpen : Bool
  accepts : ℕ
  arrived : ℕ
  threads : List (List Call)
  trace : List ServerEvent
  ub : Bool
deriving DecidableEq, Repr

/-- What happens to the operations of a session: the socket takes bytes or gets some, and an
operation completes, with success or with an error. -/
inductive SessionIo where
  | send (k : ℕ)
  | sendDone
  | sendFail (ec : ErrorCode)
  | recv (bytes : List Byte)
  | recvDone
  | recvFail (ec : ErrorCode)
deriving DecidableEq, Repr

/-- Another thread calls the interface; a connection arrives at the acceptor; the accept operation
completes with it, and its session is made at the address `a`; or it fails; something happens to
an operation of a session; the thread `t` takes a step. -/
inductive ServerAct where
  | call (c : Api)
  | arrive
  | acceptDone (a : Addr)
  | acceptFail (message : String)
  | io (i : ℕ) (a : SessionIo)
  | run (t : ℕ) (prog : List Api) (next : Option ℕ)
deriving DecidableEq, Repr

namespace Server

/-- A server that listens. -/
def create : Server := ⟨[], [], true, 1, 0, [], [], false⟩

/-- `session_pool[a]`, if there is one. -/
def find (n : Server) (a : Addr) : Option ℕ := (n.pool.find? fun e => e.1 == a).map Prod.snd

/-- `session_pool[a] = i`. -/
def poolInsert (n : Server) (a : Addr) (i : ℕ) : Server :=
  { n with pool := n.pool.filter (fun e => e.1 < a) ++ (a, i) :: n.pool.filter fun e => a < e.1 }

/-- `session_pool.erase(a)`. -/
def poolErase (n : Server) (a : Addr) : Server :=
  { n with pool := n.pool.filter fun e => e.1 ≠ a }

/-- The object `i` is changed. -/
def modify (n : Server) (i : ℕ) (f : Obj → Obj) : Server :=
  { n with sessions := n.sessions.modify i f }

/-- The session `i` is changed. -/
def onSess (n : Server) (i : ℕ) (f : Session → Session) : Server :=
  n.modify i fun o => { o with sess := f o.sess }

def see (n : Server) (e : ServerEvent) : Server := { n with trace := n.trace ++ [e] }

/-- A new thread runs `stack`. -/
def spawn (n : Server) (stack : List Call) : Server := { n with threads := n.threads ++ [stack] }

/-- The calls of all threads. -/
def calls (n : Server) : List Call := n.threads.flatten

/-- The call that the thread `t` is in. -/
def top (n : Server) (t : ℕ) : Option Call := (n.threads[t]?).bind List.head?

/-- Nobody holds the mutex that `c` wants. -/
def Enabled (n : Server) (c : Call) : Prop := ∀ l, c.wants = some l → ∀ d ∈ n.calls, d.holds ≠ some l

instance (n : Server) (c : Call) : Decidable (n.Enabled c) :=
  match h : c.wants with
  | none => isTrue fun l hl => by rw [h] at hl; cases hl
  | some l => decidable_of_iff (∀ d ∈ n.calls, d.holds ≠ some l)
      ⟨fun hd l' hl' => by rw [h] at hl'; cases hl'; exact hd, fun he => he l h⟩

/-- The object `i` has an owner. -/
def owned (n : Server) (i : ℕ) (o : Obj) : Bool :=
  o.errorCallback || o.readCallback || n.pool.any (fun e => e.2 == i) ||
    n.calls.any fun c => c.owns == some i

/-- Objects that nobody owns are destroyed; `~Session` calls `stop`. -/
def sweep (n : Server) : Server :=
  { n with
    sessions := n.sessions.mapIdx fun i o =>
      if o.alive && !n.owned i o then { o with alive := false, sess := o.sess.stop } else o }

variable (cfg : Config)

/-- What the `read_callback` of the session `i` calls, if it is set.  What lies in memory after the
frame is not looked at here, and is `0`. -/
def readCallback (i : ℕ) (o : Obj) (f : Frame) : List Call :=
  if o.readCallback then
    (ServerTCP.readCallback cfg.hdLen .both o.addr (fun k => f.content.getD k 0) f.length).flatMap
      (Call.ofEffect i)
  else []

/-- The calls of the `error_callback` of the session `i`, if it is set. -/
def errorCallback (i : ℕ) (o : Obj) (ec : ErrorCode) : List Call :=
  if o.errorCallback then
    (if ec = .eof then [] else [.error (some i) ec.message]) ++ [.close o.addr]
  else []

/-- One step of the call `c` on top of a stack: the server after it, and the calls that take its
place.  `prog` is the program of the user's callback, if one is called, and `next` where an
iterator that is not valid goes. -/
def exec (n : Server) (prog : List Api) (next : Option ℕ) : Call → Option (Server × List Call)
  | .write a bytes =>
      some (n, match n.find a with
        | none => []
        | some i => [.sessionWrite i bytes .test])
  | .broadcast bytes => some (n, [.broadcasting (n.pool.map Prod.snd) bytes])
  | .broadcasting [] _ => some (n, [])
  | .broadcasting (i :: todo) bytes =>
      some (n, [.sessionWrite i bytes .test, .broadcasting todo bytes])
  | .close a =>
      some (n, match n.find a with
        | none => []
        | some i => [.disconnect a i false])
  | .closeAll =>
      some (n, match n.pool with
        | [] => []
        | (a, i) :: _ => [.disconnect a i true])
  | .stop => some ({ n with acceptorOpen := false }, [.closeAll])
  | .disconnect a i all =>
      some (n.see (.onDisconnect i), prog.map (Api.toCall cfg) ++ [.erase a i all])
  | .erase a _ all => some (n.poolErase a, if all then [.advance] else [])
  | .advance =>
      some ({ n with ub := true }, match next.bind fun k => n.pool[k]? with
        | none => []
        | some (a, i) => [.disconnect a i true])
  | .accepted i .insert =>
      (n.sessions[i]?).map fun o => (n.poolInsert o.addr i, [.accepted i .setError])
  | .accepted i .setError =>
      some (n.modify i fun o => { o with errorCallback := true }, [.accepted i .setRead])
  | .accepted i .setRead =>
      some (n.modify i fun o => { o with readCallback := true }, [.accepted i .connect])
  | .accepted i .connect =>
      some (n.see (.onConnect i), prog.map (Api.toCall cfg) ++ [.accepted i .start])
  | .accepted i .start => some (n.onSess i Session.start, [.accepted i .rearm])
  | .accepted _ .rearm => some ({ n with accepts := n.accepts + 1 }, [])
  | .message i head length content =>
      some (n.see (.onMessage i head length content), prog.map (Api.toCall cfg))
  | .error i message => some (n.see (.onError i message), prog.map (Api.toCall cfg))
  | .sessionWrite i bytes .test =>
      (n.sessions[i]?).map fun o =>
        (n, if o.sess.stopped then [] else [.sessionWrite i bytes .lock])
  | .sessionWrite i bytes .lock => some (n, [.sessionWrite i bytes .body])
  | .sessionWrite i bytes .body => some (n.onSess i fun s => s.writeLocked cfg bytes, [])
  | .readLoop i =>
      (n.sessions[i]?).bind fun o =>
        match o.sess.turn cfg with
        | .brk => some (n.onSess i Session.doRead, [])
        | .overread => none
        | .head s => some (n.onSess i fun _ => s, [.readLoop i])
        | .body f s => some (n.onSess i fun _ => s,
            readCallback cfg i o f ++ [.readConsume i])
  | .readConsume i => some (n.onSess i Session.consumeBody, [.readLoop i])
  | .writeDone i len false => some (n, [.writeDone i len true])
  | .writeDone i len true => some (n.onSess i fun s => s.writeDone len, [])
  | .guard _ => some (n, [])

/-- An operation of the session `i` gets its bytes or completes: the session after it, and the
handler that is entered. -/
def complete (i : ℕ) (o : Obj) : SessionIo → Option (Session × List Call)
  | .send k => (o.sess.send k).map fun r => (r.2, [])
  | .sendDone =>
      match o.sess.writes with
      | ⟨_, some k⟩ :: rest =>
          some ({ o.sess with writes := rest },
            if o.sess.stopped then [] else [.writeDone i k false])
      | _ => none
  | .sendFail ec =>
      match o.sess.writes with
      | ⟨_, none⟩ :: rest =>
          some ({ o.sess with writes := rest },
            if o.sess.stopped then [] else errorCallback i o ec ++ [.guard i])
      | _ => none
  | .recv bytes => (o.sess.recv bytes).map fun s => (s, [])
  | .recvDone =>
      match o.sess.reads with
      | some bytes :: rest =>
          let s := { o.sess with reads := rest }
          some (if s.stopped then (s, []) else (s.commit bytes, [.readLoop i]))
      | _ => none
  | .recvFail ec =>
      match o.sess.reads with
      | none :: rest =>
          some ({ o.sess with reads := rest }, if o.sess.stopped then [] else errorCallback i o ec)
      | _ => none

/-- The address `a` is not that of an object. -/
def Fresh (n : Server) (a : Addr) : Prop := ∀ o ∈ n.sessions, o.alive = true → o.addr ≠ a

instance (n : Server) (a : Addr) : Decidable (n.Fresh a) := by unfold Fresh; infer_instance

/-- An accept operation waits no longer. -/
def acceptEnd (n : Server) : Server := { n with accepts := n.accepts - 1 }

/-- An accept operation gets a connection. -/
def arrive (n : Server) : Server := { n.acceptEnd with arrived := n.arrived + 1 }

/-- The session of a connection is made at the address `a`. -/
def accept (n : Server) (a : Addr) : Server :=
  { n with arrived := n.arrived - 1, sessions := n.sessions ++ [Obj.create a] }

def step (n : Server) : ServerAct → Option Server
  | .call c => some (n.spawn [c.toCall cfg])
  | .arrive => if n.acceptorOpen = true ∧ 0 < n.accepts then some n.arrive else none
  | .acceptDone a =>
      if 0 < n.arrived ∧ n.Fresh a then
        some ((n.accept a).spawn [.accepted n.sessions.length .insert])
      else none
  | .acceptFail message =>
      if 0 < n.accepts then
        some (n.acceptEnd.spawn [.error none ("accept failed: " ++ message)])
      else none
  | .io i a =>
      (n.sessions[i]?).bind fun o => (complete i o a).map fun r =>
        (n.onSess i fun _ => r.1).spawn r.2
  | .run t prog next =>
      match n.threads[t]? with
      | some (c :: rest) =>
          if n.Enabled c then
            (n.exec cfg prog next c).map fun r =>
              sweep { r.1 with threads := r.1.threads.set t (r.2 ++ rest) }
          else none
      | _ => none

/-- Everything a step can do. -/
inductive Step (n : Server) : ServerAct → Server → Prop
  | call (c : Api) : Step n (.call c) (n.spawn [c.toCall cfg])
  | arrive : n.acceptorOpen = true → 0 < n.accepts → Step n .arrive n.arrive
  | acceptDone {a : Addr} : 0 < n.arrived → n.Fresh a →
      Step n (.acceptDone a) ((n.accept a).spawn [.accepted n.sessions.length .insert])
  | acceptFail (message : String) : 0 < n.accepts →
      Step n (.acceptFail message)
        (n.acceptEnd.spawn [.error none ("accept failed: " ++ message)])
  | io {i : ℕ} {a : SessionIo} {o : Obj} {s : Session} {stack : List Call} :
      n.sessions[i]? = some o → complete i o a = some (s, stack) →
        Step n (.io i a) ((n.onSess i fun _ => s).spawn stack)
  | run {t : ℕ} {prog : List Api} {next : Option ℕ} {c : Call} {rest new : List Call}
      {m : Server} :
      n.threads[t]? = some (c :: rest) → n.Enabled c → n.exec cfg prog next c = some (m, new) →
        Step n (.run t prog next) (sweep { m with threads := m.threads.set t (new ++ rest) })

variable {cfg} {n n' m : Server} {a : ServerAct}

theorem Step.of_step (h : n.step cfg a = some n') : Step cfg n a n' := by
  cases a with
  | call c => cases h; exact .call c
  | arrive =>
      simp only [step] at h
      split at h
      · next hacc => cases h; exact .arrive hacc.1 hacc.2
      · cases h
  | acceptDone a =>
      simp only [step] at h
      split at h
      · next hacc => cases h; exact .acceptDone hacc.1 hacc.2
      · cases h
  | acceptFail message =>
      simp only [step] at h
      split at h
      · next hacc => cases h; exact .acceptFail message hacc
      · cases h
  | io i a =>
      obtain ⟨o, ho, h⟩ := Option.bind_eq_some_iff.mp h
      obtain ⟨⟨s, stack⟩, hc, rfl⟩ := Option.map_eq_some_iff.mp h
      exact .io ho hc
  | run t prog next =>
      simp only [step] at h
      split at h
      · next c rest hstack =>
        split at h
        · next hen =>
          obtain ⟨⟨m, new⟩, hexec, rfl⟩ := Option.map_eq_some_iff.mp h
          exact .run hstack hen hexec
        · cases h
      · cases h

/-- The handlers that are entered: none; the write handler; the read handler; or a failure is
reported. -/
theorem complete_cases {i : ℕ} {o : Obj} {b : SessionIo} {s : Session} {stack : List Call}
    (h : complete i o b = some (s, stack)) :
    s.stopped = o.sess.stopped ∧
      (stack = [] ∨ (∃ k, stack = [.writeDone i k false]) ∨ stack = [.readLoop i] ∨
        ∃ ec tail, (b = .sendFail ec ∨ b = .recvFail ec) ∧ o.sess.stopped = false ∧
          (tail = [] ∨ tail = [.guard i]) ∧ stack = errorCallback i o ec ++ tail) := by
  cases b with
  | send k =>
      obtain ⟨⟨bytes, t⟩, hs, hr⟩ := Option.map_eq_some_iff.mp h
      cases hr
      obtain ⟨data, rest, -, -, -, -, rfl⟩ := Session.send_eq hs
      exact ⟨rfl, Or.inl rfl⟩
  | recv bytes =>
      obtain ⟨t, hs, hr⟩ := Option.map_eq_some_iff.mp h
      cases hr
      obtain ⟨rest, -, -, -, rfl⟩ := Session.recv_eq hs
      exact ⟨rfl, Or.inl rfl⟩
  | sendDone =>
      simp only [complete] at h
      split at h
      · cases h
        refine ⟨rfl, ?_⟩
        split
        · exact Or.inl rfl
        · exact Or.inr (Or.inl ⟨_, rfl⟩)
      · cases h
  | sendFail ec =>
      simp only [complete] at h
      split at h
      · cases h
        refine ⟨rfl, ?_⟩
        split
        · exact Or.inl rfl
        · next hs =>
          exact Or.inr (Or.inr (Or.inr
            ⟨ec, [.guard i], Or.inl rfl, by simpa using hs, Or.inr rfl, rfl⟩))
      · cases h
  | recvDone =>
      simp only [complete] at h
      split at h
      · rw [Option.some.injEq] at h
        split at h
        · cases h; exact ⟨rfl, Or.inl rfl⟩
        · cases h; exact ⟨rfl, Or.inr (Or.inr (Or.inl rfl))⟩
      · cases h
  | recvFail ec =>
      simp only [complete] at h
      split at h
      · cases h
        refine ⟨rfl, ?_⟩
        split
        · exact Or.inl rfl
        · next hs =>
          exact Or.inr (Or.inr (Or.inr
            ⟨ec, [], Or.inr rfl, by simpa using hs, Or.inl rfl, (List.append_nil _).symm⟩))
      · cases h

/-! ### Calls that have just begun -/

variable (cfg) in
theorem initial_prog (prog : List Api) : ∀ c ∈ prog.map (Api.toCall cfg), c.Initial := by
  intro c hc
  obtain ⟨api, -, rfl⟩ := List.mem_map.mp hc
  cases api with
  | write session head payload => exact .write _ _
  | broadcast head payload => exact .broadcast _
  | close session => exact .close _
  | closeAll => exact .closeAll
  | stop => exact .stop

theorem initial_readCallback (i : ℕ) (o : Obj) (f : Frame) :
    ∀ c ∈ readCallback cfg i o f, c.Initial := by
  intro c hc
  unfold readCallback at hc
  split at hc
  · obtain ⟨e, -, he⟩ := List.mem_flatMap.mp hc
    cases e with
    | load _ _ => cases he
    | onError _ text => rw [List.mem_singleton.mp he]; exact .error _ _
    | onMessage _ head length content => rw [List.mem_singleton.mp he]; exact .message _ _ _ _
  · cases hc

theorem initial_errorCallback (i : ℕ) (o : Obj) (ec : ErrorCode) {tail : List Call}
    (htail : tail = [] ∨ tail = [.guard i]) : ∀ c ∈ errorCallback i o ec ++ tail, c.Initial := by
  intro c hc
  rcases List.mem_append.mp hc with hc | hc
  · unfold errorCallback at hc
    split at hc
    · rcases List.mem_append.mp hc with hc | hc
      · split at hc
        · cases hc
        · rw [List.mem_singleton.mp hc]; exact .error _ _
      · rw [List.mem_singleton.mp hc]; exact .close _
    · cases hc
  · rcases htail with rfl | rfl
    · cases hc
    · rw [List.mem_singleton.mp hc]; exact .guard _

theorem initial_complete {i : ℕ} {o : Obj} {b : SessionIo} {s : Session} {stack : List Call}
    (h : complete i o b = some (s, stack)) :
    ∀ c ∈ stack, c.Initial ∨ (∃ k, c = .writeDone i k false) ∨ c = .readLoop i := by
  obtain ⟨-, rfl | ⟨k, rfl⟩ | rfl | ⟨ec, tail, -, -, htail, rfl⟩⟩ := complete_cases h
  · exact fun c hc => by cases hc
  · exact fun c hc => Or.inr (Or.inl ⟨k, List.mem_singleton.mp hc⟩)
  · exact fun c hc => Or.inr (Or.inr (List.mem_singleton.mp hc))
  · exact fun c hc => Or.inl (initial_errorCallback i o ec htail c hc)

/-! ### What a step of a thread leaves alone -/

section frame
variable (n) (i : ℕ) (f : Obj → Obj) (g : Session → Session) (e : ServerEvent) (stack : List Call)

@[simp] theorem modify_threads : (n.modify i f).threads = n.threads := rfl
@[simp] theorem modify_pool : (n.modify i f).pool = n.pool := rfl
@[simp] theorem modify_trace : (n.modify i f).trace = n.trace := rfl
@[simp] theorem onSess_threads : (n.onSess i g).threads = n.threads := rfl
@[simp] theorem onSess_pool : (n.onSess i g).pool = n.pool := rfl
@[simp] theorem onSess_trace : (n.onSess i g).trace = n.trace := rfl
@[simp] theorem see_threads : (n.see e).threads = n.threads := rfl
@[simp] theorem see_pool : (n.see e).pool = n.pool := rfl
@[simp] theorem see_sessions : (n.see e).sessions = n.sessions := rfl
@[simp] theorem sweep_threads : n.sweep.threads = n.threads := rfl
@[simp] theorem sweep_pool : n.sweep.pool = n.pool := rfl
@[simp] theorem sweep_trace : n.sweep.trace = n.trace := rfl

theorem modify_getElem?_ne {j : ℕ} (h : j ≠ i) :
    (n.modify i f).sessions[j]? = n.sessions[j]? := by
  simp [modify, Ne.symm h]

theorem onSess_getElem?_self {o : Obj} (ho : n.sessions[i]? = some o) :
    (n.onSess i g).sessions[i]? = some { o with sess := g o.sess } := by
  simp [onSess, modify, ho]

variable {n} in
theorem mem_calls {t : ℕ} {c : Call} {rest : List Call} (hstack : n.threads[t]? = some (c :: rest)) :
    c ∈ n.calls :=
  List.mem_flatten.mpr ⟨_, List.mem_of_getElem? hstack, List.mem_cons_self⟩

variable {n} in
theorem top_eq {t : ℕ} {c : Call} {rest : List Call} (hstack : n.threads[t]? = some (c :: rest)) :
    n.top t = some c := by
  simp [top, hstack]

@[simp] theorem calls_spawn : (n.spawn stack).calls = n.calls ++ stack := by simp [calls, spawn]

end frame

variable (cfg) (n) in
/-- Everything a call can do in one step: the server after it, and the calls that take its place. -/
inductive Exec (prog : List Api) (next : Option ℕ) : Call → Server → List Call → Prop
  | write (a : Addr) (bytes : List Byte) : Exec prog next (.write a bytes) n (match n.find a with
      | none => []
      | some i => [.sessionWrite i bytes .test])
  | broadcast (bytes : List Byte) :
      Exec prog next (.broadcast bytes) n [.broadcasting (n.pool.map Prod.snd) bytes]
  | broadcasted (bytes : List Byte) : Exec prog next (.broadcasting [] bytes) n []
  | broadcasting (i : ℕ) (todo : List ℕ) (bytes : List Byte) :
      Exec prog next (.broadcasting (i :: todo) bytes) n
        [.sessionWrite i bytes .test, .broadcasting todo bytes]
  | close (a : Addr) : Exec prog next (.close a) n (match n.find a with
      | none => []
      | some i => [.disconnect a i false])
  | closeAll : Exec prog next .closeAll n (match n.pool with
      | [] => []
      | (a, i) :: _ => [.disconnect a i true])
  | stop : Exec prog next .stop { n with acceptorOpen := false } [.closeAll]
  | disconnect (a : Addr) (i : ℕ) (all : Bool) : Exec prog next (.disconnect a i all)
      (n.see (.onDisconnect i)) (prog.map (Api.toCall cfg) ++ [.erase a i all])
  | erase (a : Addr) (i : ℕ) (all : Bool) :
      Exec prog next (.erase a i all) (n.poolErase a) (if all then [.advance] else [])
  | advance : Exec prog next .advance { n with ub := true }
      (match next.bind fun k => n.pool[k]? with
        | none => []
        | some (a, i) => [.disconnect a i true])
  | insert {i : ℕ} {o : Obj} : n.sessions[i]? = some o →
      Exec prog next (.accepted i .insert) (n.poolInsert o.addr i) [.accepted i .setError]
  | setError (i : ℕ) : Exec prog next (.accepted i .setError)
      (n.modify i fun o => { o with errorCallback := true }) [.accepted i .setRead]
  | setRead (i : ℕ) : Exec prog next (.accepted i .setRead)
      (n.modify i fun o => { o with readCallback := true }) [.accepted i .connect]
  | connect (i : ℕ) : Exec prog next (.accepted i .connect) (n.see (.onConnect i))
      (prog.map (Api.toCall cfg) ++ [.accepted i .start])
  | start (i : ℕ) :
      Exec prog next (.accepted i .start) (n.onSess i Session.start) [.accepted i .rearm]
  | rearm (i : ℕ) : Exec prog next (.accepted i .rearm) { n with accepts := n.accepts + 1 } []
  | message (i : ℕ) (head : List Byte) (length content : ℕ) :
      Exec prog next (.message i head length content) (n.see (.onMessage i head length content))
        (prog.map (Api.toCall cfg))
  | error (i : Option ℕ) (message : String) :
      Exec prog next (.error i message) (n.see (.onError i message)) (prog.map (Api.toCall cfg))
  | test {i : ℕ} {o : Obj} (bytes : List Byte) : n.sessions[i]? = some o →
      Exec prog next (.sessionWrite i bytes .test) n
        (if o.sess.stopped then [] else [.sessionWrite i bytes .lock])
  | lock (i : ℕ) (bytes : List Byte) :
      Exec prog next (.sessionWrite i bytes .lock) n [.sessionWrite i bytes .body]
  | body (i : ℕ) (bytes : List Byte) : Exec prog next (.sessionWrite i bytes .body)
      (n.onSess i fun s => s.writeLocked cfg bytes) []
  | loopBreak {i : ℕ} {o : Obj} : n.sessions[i]? = some o → o.sess.turn cfg = .brk →
      Exec prog next (.readLoop i) (n.onSess i Session.doRead) []
  | loopHead {i : ℕ} {o : Obj} {s : Session} : n.sessions[i]? = some o →
      o.sess.turn cfg = .head s → Exec prog next (.readLoop i) (n.onSess i fun _ => s) [.readLoop i]
  | loopBody {i : ℕ} {o : Obj} {f : Frame} {s : Session} : n.sessions[i]? = some o →
      o.sess.turn cfg = .body f s → Exec prog next (.readLoop i) (n.onSess i fun _ => s)
        (readCallback cfg i o f ++ [.readConsume i])
  | consume (i : ℕ) :
      Exec prog next (.readConsume i) (n.onSess i Session.consumeBody) [.readLoop i]
  | doneLock (i len : ℕ) : Exec prog next (.writeDone i len false) n [.writeDone i len true]
  | done (i len : ℕ) :
      Exec prog next (.writeDone i len true) (n.onSess i fun s => s.writeDone len) []
  | guard (i : ℕ) : Exec prog next (.guard i) n []

theorem Exec.of_exec {prog : List Api} {next : Option ℕ} {c : Call} {new : List Call}
    (h : n.exec cfg prog next c = some (m, new)) : Exec cfg n prog next c m new := by
  cases c with
  | write a bytes => cases h; exact .write a bytes
  | broadcast bytes => cases h; exact .broadcast bytes
  | broadcasting todo bytes =>
      cases todo with
      | nil => cases h; exact .broadcasted bytes
      | cons i todo => cases h; exact .broadcasting i todo bytes
  | close a => cases h; exact .close a
  | closeAll => cases h; exact .closeAll
  | stop => cases h; exact .stop
  | disconnect a i all => cases h; exact .disconnect a i all
  | erase a i all => cases h; exact .erase a i all
  | advance => cases h; exact .advance
  | accepted i pc =>
      cases pc with
      | insert => obtain ⟨o, ho, hr⟩ := Option.map_eq_some_iff.mp h; cases hr; exact .insert ho
      | setError => cases h; exact .setError i
      | setRead => cases h; exact .setRead i
      | connect => cases h; exact .connect i
      | start => cases h; exact .start i
      | rearm => cases h; exact .rearm i
  | message i head length content => cases h; exact .message i head length content
  | error i message => cases h; exact .error i message
  | sessionWrite i bytes pc =>
      cases pc with
      | test => obtain ⟨o, ho, hr⟩ := Option.map_eq_some_iff.mp h; cases hr; exact .test bytes ho
      | lock => cases h; exact .lock i bytes
      | body => cases h; exact .body i bytes
  | readLoop i =>
      obtain ⟨o, ho, hr⟩ := Option.bind_eq_some_iff.mp h
      split at hr
      · next hturn => cases hr; exact .loopBreak ho hturn
      · cases hr
      · next s hturn => cases hr; exact .loopHead ho hturn
      · next f s hturn => cases hr; exact .loopBody ho hturn
  | readConsume i => cases h; exact .consume i
  | writeDone i len locked =>
      cases locked with
      | false => cases h; exact .doneLock i len
      | true => cases h; exact .done i len
  | guard i => cases h; exact .guard i

theorem exec_threads {prog : List Api} {next : Option ℕ} {c : Call} {new : List Call}
    (h : n.exec cfg prog next c = some (m, new)) : m.threads = n.threads := by
  cases Exec.of_exec h <;> rfl

/-- The calls of all threads, when `new` takes the place of `c`. -/
theorem calls_run {t : ℕ} {c : Call} {rest : List Call} (new : List Call)
    (hstack : n.threads[t]? = some (c :: rest)) (hthreads : m.threads = n.threads) :
    c :: (sweep { m with threads := m.threads.set t (new ++ rest) }).calls ~ new ++ n.calls := by
  have hperm := Slots.flatMap_set_perm id hstack (new ++ rest)
  simp only [id, List.flatMap_id, List.cons_append, List.append_assoc] at hperm
  simp only [calls, sweep, hthreads]
  apply (List.perm_append_left_iff rest).mp
  calc rest ++ c :: (n.threads.set t (new ++ rest)).flatten
      _ ~ c :: (rest ++ (n.threads.set t (new ++ rest)).flatten) := List.perm_middle
      _ ~ new ++ (rest ++ n.threads.flatten) := hperm
      _ ~ rest ++ (new ++ n.threads.flatten) := List.perm_append_comm_assoc _ _ _

theorem countP_calls_run {t : ℕ} {c : Call} {rest : List Call} (new : List Call)
    (hstack : n.threads[t]? = some (c :: rest)) (hthreads : m.threads = n.threads)
    (p : Call → Bool) :
    [c].countP p + (sweep { m with threads := m.threads.set t (new ++ rest) }).calls.countP p =
      new.countP p + n.calls.countP p :=
  Slots.countP_exchange (r := [c]) (calls_run new hstack hthreads) p

end Server

end AsioTcpFrame
