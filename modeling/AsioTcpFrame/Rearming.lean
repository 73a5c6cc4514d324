import AsioTcpFrame.Ownership
import AsioTcpFrame.ServerUdp
import AsioTcpFrame.WriteFailure

/-! # The asynchronous loops

Each loop of the framework is one operation that is started again at the end of its own handler:
`doAccept`, `doRead` and `do_receive`.  So what is conserved is the sum of the operations that are
outstanding and of the handlers that are to start the next one; every failure that ends a loop takes
one away (`AcceptLoop`, `ReadLoop`).

The read handler ends its loop when the read has failed, which is what it should do.  But the accept
handler does the same: an accept that fails while the server is listening ends the listening
(`loopsArmed_iff`).  The receive handler of `ServerUDP` starts the next receive whether it failed or
not. -/

namespace AsioTcpFrame

open Transition
open scoped List

/-- The handler of an accepted connection, which will call `doAccept`. -/
def Call.accepting : Call → Bool
  | accepted _ _ => true
  | _ => false

/-- The handler that will call `doRead` for the session `i`. -/
def Call.reading (i : ℕ) : Call → Bool
  | accepted _ .rearm => false
  | accepted j _ | readLoop j | readConsume j => j == i
  | _ => false

/-- The accept operation fails. -/
def ServerAct.isAcceptFail : ServerAct → Bool
  | acceptFail _ => true
  | _ => false

/-- The read of the session `i` fails. -/
def ServerAct.isRecvFail (i : ℕ) : ServerAct → Bool
  | io j (.recvFail _) => j == i
  | _ => false

/-- The read of the session fails. -/
def SessionAct.isRecvFail : SessionAct → Bool
  | recvFail _ => true
  | _ => false

namespace Server

variable {cfg : Config} {n n' m : Server} {a : ServerAct} {acts : List ServerAct} {i j : ℕ}

/-! ### What neither accepts nor reads -/

/-- A program of the user, and the calls of a session's callbacks. -/
structure Idle (stack : List Call) : Prop where
  accepting : stack.countP Call.accepting = 0
  reading : ∀ i, stack.countP (Call.reading i) = 0

theorem idle_of_initial {stack : List Call} (h : ∀ c ∈ stack, c.Initial) : Idle stack where
  accepting := List.countP_eq_zero.mpr fun c hc => by cases h c hc <;> simp [Call.accepting]
  reading i := List.countP_eq_zero.mpr fun c hc => by cases h c hc <;> simp [Call.reading]

theorem idle_prog (prog : List Api) : Idle (prog.map (Api.toCall cfg)) :=
  idle_of_initial (initial_prog cfg prog)

theorem idle_readCallback (i : ℕ) (o : Obj) (f : Frame) : Idle (readCallback cfg i o f) :=
  idle_of_initial (initial_readCallback i o f)

theorem idle_errorCallback (i : ℕ) (o : Obj) (ec : ErrorCode) {tail : List Call}
    (htail : tail = [] ∨ tail = [.guard i]) : Idle (errorCallback i o ec ++ tail) :=
  idle_of_initial (initial_errorCallback i o ec htail)

/-! ### The accept loop -/

/-- The accept operations that are outstanding, and the handlers that will start one. -/
def acceptors (n : Server) : ℕ := n.accepts + n.arrived + n.calls.countP Call.accepting

/-- One, as long as no accept has failed. -/
def AcceptLoop (acts : List ServerAct) (n : Server) : Prop :=
  n.acceptors + acts.countP ServerAct.isAcceptFail = 1

theorem exec_acceptors {prog : List Api} {next : Option ℕ} {c : Call} {new : List Call}
    (h : n.exec cfg prog next c = some (m, new)) :
    m.accepts + m.arrived + new.countP Call.accepting =
      n.accepts + n.arrived + [c].countP Call.accepting := by
  cases Exec.of_exec h with
  | write a bytes => split <;> rfl
  | close a => split <;> rfl
  | closeAll => split <;> rfl
  | advance => split <;> rfl
  | erase a i all => cases all <;> rfl
  | test bytes ho => split <;> rfl
  | disconnect a i all =>
      rw [List.countP_append, (idle_prog prog).accepting]
      rfl
  | connect i =>
      rw [List.countP_append, (idle_prog prog).accepting]
      rfl
  | message i head length content => rw [(idle_prog prog).accepting]; rfl
  | error i message => rw [(idle_prog prog).accepting]; rfl
  | loopBody ho hturn =>
      rw [List.countP_append, (idle_readCallback _ _ _).accepting]
      rfl
  | rearm i => simp only [List.countP_nil, List.countP_singleton, Call.accepting, if_true]; omega
  | _ => rfl

theorem acceptors_spawn (n : Server) (stack : List Call) :
    (n.spawn stack).acceptors = n.acceptors + stack.countP Call.accepting := by
  rw [acceptors, calls_spawn, List.countP_append]
  exact (Nat.add_assoc _ _ _).symm

theorem AcceptLoop.step (h : AcceptLoop acts n) (hstep : Step cfg n a n') :
    AcceptLoop (acts ++ [a]) n' := by
  unfold AcceptLoop at h ⊢
  rw [List.countP_append]
  cases hstep with
  | call c =>
      rw [acceptors_spawn]
      cases c <;> exact h
  | arrive _ hacc =>
      have harrive : n.arrive.acceptors = n.acceptors := by
        simp only [acceptors, arrive, acceptEnd, calls]; omega
      rw [harrive]
      exact h
  | @acceptDone a harr hfresh =>
      have haccept : (n.accept a).acceptors + 1 = n.acceptors := by
        simp only [acceptors, accept, calls]; omega
      rw [acceptors_spawn]
      simp only [List.countP_singleton, Call.accepting, ServerAct.isAcceptFail, if_true,
        Bool.false_eq_true, if_false]
      omega
  | acceptFail message hacc =>
      have hend : n.acceptEnd.acceptors + 1 = n.acceptors := by
        simp only [acceptors, acceptEnd, calls]; omega
      rw [acceptors_spawn]
      simp only [List.countP_singleton, Call.accepting, ServerAct.isAcceptFail, if_true,
        Bool.false_eq_true, if_false]
      omega
  | @io i b o s stack ho hc =>
      have hidle : stack.countP Call.accepting = 0 := by
        obtain ⟨-, rfl | ⟨k, rfl⟩ | rfl | ⟨ec, tail, -, -, htail, rfl⟩⟩ := complete_cases hc
        · rfl
        · rfl
        · rfl
        · exact (idle_errorCallback i o ec htail).accepting
      rw [acceptors_spawn, hidle]
      exact h
  | @run t prog next c rest new m hstack hen hexec =>
      have hcount := exec_acceptors hexec
      have hperm := countP_calls_run new hstack (exec_threads hexec) Call.accepting
      generalize hn' : sweep { m with threads := m.threads.set t (new ++ rest) } = n' at hperm ⊢
      have haccepts : n'.accepts = m.accepts := by rw [← hn']; rfl
      have harrived : n'.arrived = m.arrived := by rw [← hn']; rfl
      have hsame : n'.acceptors = n.acceptors := by
        unfold acceptors
        omega
      rw [hsame]
      exact h

/-! ### The read loops -/

/-- The reads of the session `i` that are outstanding. -/
def reads (n : Server) (i : ℕ) : ℕ := ((n.sessions[i]?).map fun o => o.sess.reads.length).getD 0

/-- Together with the handlers that will start one. -/
def readers (n : Server) (i : ℕ) : ℕ := n.reads i + n.calls.countP (Call.reading i)

/-- One for every session, as long as no read of it has failed. -/
def ReadLoop (acts : List ServerAct) (n : Server) : Prop :=
  ∀ i, n.readers i + acts.countP (ServerAct.isRecvFail i) = if i < n.sessions.length then 1 else 0

theorem reads_of_getElem? {o : Obj} (h : n.sessions[i]? = some o) :
    n.reads i = o.sess.reads.length := by
  simp only [reads, h, Option.map_some, Option.getD_some]

theorem reads_onSess {f : Session → Session} {o : Obj} (h : n.sessions[j]? = some o) :
    (n.onSess j f).reads i = if j = i then (f o.sess).reads.length else n.reads i := by
  simp only [reads, onSess, modify, List.getElem?_modify]
  by_cases hij : j = i
  · subst hij
    simp [h]
  · simp [hij]

theorem reads_modify {f : Obj → Obj} (hf : ∀ o, (f o).sess.reads.length = o.sess.reads.length) :
    (n.modify j f).reads i = n.reads i := by
  simp only [reads, modify, List.getElem?_modify]
  cases n.sessions[i]? with
  | none => rfl
  | some o => by_cases hij : j = i <;> simp [hij, hf]

theorem reads_onSess_same {f : Session → Session}
    (hf : ∀ s : Session, (f s).reads.length = s.reads.length) :
    (n.onSess j f).reads i = n.reads i := reads_modify fun o => hf o.sess

theorem exec_readers {prog : List Api} {next : Option ℕ} {c : Call} {new : List Call}
    (h : n.exec cfg prog next c = some (m, new))
    (hc : ∀ i, c.reading i = true → ∃ o, n.sessions[i]? = some o ∧ o.sess.stopped = false) (i : ℕ) :
    m.reads i + new.countP (Call.reading i) = n.reads i + [c].countP (Call.reading i) := by
  have hdoRead : ∀ j o, n.sessions[j]? = some o → o.sess.stopped = false →
      (n.onSess j Session.doRead).reads i = n.reads i + if j = i then 1 else 0 := by
    intro j o ho hs
    rw [reads_onSess ho, Session.doRead_running hs]
    split
    · next hij => subst hij; rw [reads_of_getElem? ho]; exact List.length_append
    · rfl
  have honce : ∀ (c : Call) j, (∀ i, c.reading i = (j == i)) →
      [c].countP (Call.reading i) = if j = i then 1 else 0 := by
    intro c j hj
    simp only [List.countP_singleton, hj, beq_iff_eq]
  cases Exec.of_exec h with
  | write a bytes => split <;> rfl
  | close a => split <;> rfl
  | closeAll => split <;> rfl
  | advance => split <;> rfl
  | erase a i all => cases all <;> rfl
  | test bytes ho => split <;> rfl
  | disconnect a j all => rw [List.countP_append, (idle_prog prog).reading]; rfl
  | message j head length content => rw [(idle_prog prog).reading]; rfl
  | error j message => rw [(idle_prog prog).reading]; rfl
  | connect j =>
      rw [List.countP_append, (idle_prog prog).reading, Nat.zero_add]
      rfl
  | setError j =>
      have hsame : (n.modify j fun o => { o with errorCallback := true }).reads i = n.reads i :=
        reads_modify fun _ => rfl
      rw [hsame]
      rfl
  | setRead j =>
      have hsame : (n.modify j fun o => { o with readCallback := true }).reads i = n.reads i :=
        reads_modify fun _ => rfl
      rw [hsame]
      rfl
  | start j =>
      obtain ⟨o, ho, hs⟩ := hc j (by simp [Call.reading])
      have hstart : (n.onSess j Session.start).reads i = n.reads i + if j = i then 1 else 0 :=
        hdoRead j o ho hs
      rw [hstart, honce (.accepted j .start) j fun _ => rfl]
      rfl
  | body j bytes =>
      have hsame : ∀ s : Session, (s.writeLocked cfg bytes).reads.length = s.reads.length := fun s =>
        congrArg (fun x => x.reads.length) (Session.writeLocked_input cfg s bytes)
      rw [reads_onSess_same hsame]
      rfl
  | @loopBreak j o ho hturn =>
      obtain ⟨o', ho', hs⟩ := hc j (by simp [Call.reading])
      rw [hdoRead j o' ho' hs, honce (.readLoop j) j fun _ => rfl]
      rfl
  | @loopHead j o s ho hturn =>
      obtain ⟨-, -, -, rfl⟩ := Session.turn_eq_head hturn
      rw [reads_onSess ho]
      split
      · next hij => subst hij; rw [reads_of_getElem? ho]
      · rfl
  | @loopBody j o f s ho hturn =>
      obtain ⟨-, -, -, -, rfl⟩ := Session.turn_eq_body hturn
      rw [reads_onSess ho, List.countP_append, (idle_readCallback _ _ _).reading, Nat.zero_add]
      split
      · next hij => subst hij; rw [reads_of_getElem? ho]; rfl
      · rfl
  | consume j =>
      have hsame : (n.onSess j Session.consumeBody).reads i = n.reads i :=
        reads_onSess_same fun _ => rfl
      rw [hsame]
      rfl
  | done j len =>
      have hsame : ∀ s : Session, (s.writeDone len).reads.length = s.reads.length := fun s =>
        congrArg (fun x => x.reads.length) (Session.doWrite_input _)
      rw [reads_onSess_same hsame]
      rfl
  | _ => rfl

theorem complete_readers {o : Obj} {b : SessionIo} {s : Session} {stack : List Call}
    (h : complete i o b = some (s, stack)) (hs : o.sess.stopped = false) :
    s.reads.length + stack.countP (Call.reading i) +
        [ServerAct.io i b].countP (ServerAct.isRecvFail i) = o.sess.reads.length ∧
      ∀ j, i ≠ j → stack.countP (Call.reading j) = 0 := by
  have hcallback : ∀ ec, Idle (errorCallback i o ec) := fun ec => by
    simpa using idle_errorCallback i o ec (Or.inl rfl)
  cases b with
  | send k =>
      obtain ⟨⟨bytes, t⟩, hsend, hr⟩ := Option.map_eq_some_iff.mp h
      cases hr
      obtain ⟨data, rest, -, -, -, -, rfl⟩ := Session.send_eq hsend
      exact ⟨rfl, fun _ _ => rfl⟩
  | sendDone =>
      simp only [complete, hs, Bool.false_eq_true, if_false] at h
      split at h
      · cases h; exact ⟨rfl, fun _ _ => rfl⟩
      · cases h
  | sendFail ec =>
      simp only [complete, hs, Bool.false_eq_true, if_false] at h
      have hidle := idle_errorCallback i o ec (Or.inr rfl)
      split at h
      · cases h
        exact ⟨by rw [hidle.reading]; rfl, fun j _ => hidle.reading j⟩
      · cases h
  | recv bytes =>
      obtain ⟨t, hrecv, hr⟩ := Option.map_eq_some_iff.mp h
      cases hr
      obtain ⟨rest, hreads, -, -, rfl⟩ := Session.recv_eq hrecv
      rw [hreads]
      exact ⟨rfl, fun _ _ => rfl⟩
  | recvDone =>
      simp only [complete] at h
      split at h
      · next bytes rest hreads =>
        simp only [hs, Bool.false_eq_true, if_false, Option.some.injEq] at h
        cases h
        refine ⟨?_, fun j hij => ?_⟩
        · rw [hreads]
          simp [Session.commit, Call.reading, ServerAct.isRecvFail]
        · simp [Call.reading, hij]
      · cases h
  | recvFail ec =>
      simp only [complete, hs, Bool.false_eq_true, if_false] at h
      split at h
      · next rest hreads =>
        cases h
        refine ⟨?_, fun j _ => (hcallback ec).reading j⟩
        rw [(hcallback ec).reading, hreads]
        simp [ServerAct.isRecvFail]
      · cases h

theorem readers_spawn (n : Server) (stack : List Call) (i : ℕ) :
    (n.spawn stack).readers i = n.readers i + stack.countP (Call.reading i) := by
  rw [readers, calls_spawn, List.countP_append]
  exact (Nat.add_assoc _ _ _).symm

theorem ReadLoop.step (h : ReadLoop acts n) (hkept : n.Kept) (hstep : Step cfg n a n') :
    ReadLoop (acts ++ [a]) n' := by
  intro i
  have hi := h i
  rw [List.countP_append]
  cases hstep with
  | call c =>
      rw [readers_spawn]
      cases c <;> exact hi
  | arrive _ hacc => exact hi
  | acceptFail message hacc =>
      rw [readers_spawn]
      exact hi
  | @acceptDone b harr hfresh =>
      rw [readers_spawn]
      have hcall : [Call.accepted n.sessions.length .insert].countP (Call.reading i) =
          if n.sessions.length = i then 1 else 0 := by
        simp only [List.countP_singleton, Call.reading, beq_iff_eq]
      have hreads : (n.accept b).readers i = n.readers i := by
        have hnew : (n.accept b).reads i = n.reads i := by
          simp only [reads, accept, List.getElem?_append]
          split
          · rfl
          · next hlt =>
            rw [List.getElem?_eq_none (Nat.le_of_not_lt hlt), List.getElem?_singleton]
            split <;> rfl
        rw [readers, hnew]
        rfl
      have hlen : ((n.accept b).spawn [.accepted n.sessions.length .insert]).sessions.length =
          n.sessions.length + 1 := List.length_append
      rw [hcall, hreads, hlen]
      show _ + (_ + 0) = _
      split at hi <;> split <;> split <;> omega
  | @io j b o s stack ho hc =>
      have hstopped := (hkept j o ho).2.1
      obtain ⟨hself, hother⟩ := complete_readers hc hstopped
      have hlen : ((n.onSess j fun _ => s).spawn stack).sessions.length = n.sessions.length :=
        List.length_modify _ _ _
      rw [readers_spawn, hlen, ← hi, readers, reads_onSess ho]
      by_cases hij : j = i
      · subst hij
        rw [if_pos rfl, readers, reads_of_getElem? ho]
        show s.reads.length + n.calls.countP _ + _ + _ = _
        omega
      · have hnone : [ServerAct.io j b].countP (ServerAct.isRecvFail i) = 0 := by
          cases b <;> simp [ServerAct.isRecvFail, hij]
        rw [if_neg hij, hother i hij, hnone, readers]
        rfl
  | @run t prog next c rest new m hstack hen hexec =>
      have hmem := mem_calls hstack
      have hsession : ∀ i, c.reading i = true →
          ∃ o, n.sessions[i]? = some o ∧ o.sess.stopped = false := by
        intro i hc
        have hpos : 0 < n.calls.countP (Call.reading i) := List.countP_pos_iff.mpr ⟨c, hmem, hc⟩
        have hi := h i
        have hlt : i < n.sessions.length := by
          by_contra hge
          rw [if_neg hge] at hi
          unfold readers at hi
          omega
        exact ⟨_, List.getElem?_eq_getElem hlt, (hkept i _ (List.getElem?_eq_getElem hlt)).2.1⟩
      have hcount := exec_readers hexec hsession i
      have hperm := countP_calls_run new hstack (exec_threads hexec) (Call.reading i)
      rw [(hkept.exec hstack hexec).sweep] at hperm ⊢
      have hlen : m.sessions.length = n.sessions.length := by
        cases Exec.of_exec hexec <;> first | rfl | exact List.length_modify _ _ _
      have hsame : readers { m with threads := m.threads.set t (new ++ rest) } i = n.readers i := by
        unfold readers
        show m.reads i + _ = _
        omega
      rw [hsame, hlen]
      exact hi

theorem loops_of_run (h : Run (Server.step cfg) Anything create acts n) :
    AcceptLoop acts n ∧ ReadLoop acts n := by
  have hI := h.history (I := fun acts n => n.Kept ∧ AcceptLoop acts n ∧ ReadLoop acts n)
    ⟨fun i o ho => by simp [create] at ho, rfl, fun i => rfl⟩
    fun _ _ _ _ hI _ hstep => ⟨hI.1.step (.of_step hstep), hI.2.1.step (.of_step hstep),
      hI.2.2.step hI.1 (.of_step hstep)⟩
  exact hI.2

/-- Between handlers, a server that listens has one `async_accept` outstanding, and every session that
is running and whose reads have not failed one `async_read_some`; and none is outstanding while a
`read_callback` is shown what was read. -/
structure LoopsArmed (acts : List ServerAct) (n : Server) : Prop where
  accept : n.Quiescent → n.acceptorOpen = true → n.accepts + n.arrived = 1
  read : n.Quiescent → ∀ i o, n.sessions[i]? = some o → o.sess.stopped = false →
    (∀ ec, .io i (.recvFail ec) ∉ acts) → o.sess.reads.length = 1
  shown : ∀ i o, n.sessions[i]? = some o → .readConsume i ∈ n.calls → o.sess.reads = []

/-- **When the loops of a server are armed.** -/
theorem armed_iff (h : Run (Server.step cfg) Anything create acts n) : LoopsArmed acts n ↔
    (n.Quiescent → n.acceptorOpen = true → ∀ message, .acceptFail message ∉ acts) := by
  obtain ⟨haccept, hread⟩ := loops_of_run h
  unfold AcceptLoop acceptors at haccept
  constructor
  · intro harmed hq hopen message hmem
    have hone := harmed.accept hq hopen
    have hpos : 0 < acts.countP ServerAct.isAcceptFail := List.countP_pos_iff.mpr ⟨_, hmem, rfl⟩
    omega
  · intro hnone
    refine ⟨fun hq hopen => ?_, fun hq i o ho hs hfail => ?_, fun i o ho hshown => ?_⟩
    · have hzero : acts.countP ServerAct.isAcceptFail = 0 := by
        refine List.countP_eq_zero.mpr fun a ha hfail => ?_
        cases a with
        | acceptFail message => exact hnone hq hopen message ha
        | _ => cases hfail
      have hnil : n.calls = [] := hq
      rw [hnil, hzero] at haccept
      exact haccept
    · have hone := hread i
      have hzero : acts.countP (ServerAct.isRecvFail i) = 0 := by
        refine List.countP_eq_zero.mpr fun a ha hrecv => ?_
        cases a with
        | io j b =>
            cases b with
            | recvFail ec =>
                obtain rfl : j = i := by simpa [ServerAct.isRecvFail] using hrecv
                exact hfail ec ha
            | _ => cases hrecv
        | _ => cases hrecv
      have hnil : n.calls = [] := hq
      rw [readers, hnil, hzero, reads_of_getElem? ho,
        if_pos (List.getElem?_eq_some_iff.mp ho).1] at hone
      exact hone
    · have hone := hread i
      have hpos : 0 < n.calls.countP (Call.reading i) :=
        List.countP_pos_iff.mpr ⟨_, hshown, by simp [Call.reading]⟩
      rw [readers, reads_of_getElem? ho, if_pos (List.getElem?_eq_some_iff.mp ho).1] at hone
      exact List.length_eq_zero_iff.mp (by omega)

end Server

/-! ### A session by itself -/

namespace Live

variable {ε : Type} {cfg : Config} {body : Callback → List ε} {n n' : Live ε} {a : SessionAct}
  {acts : List SessionAct}

theorem readers_doRead (hs : n.sess.stopped = false) :
    (n.withSess n.sess.doRead).readers = n.readers + 1 := by
  rw [Session.doRead_running hs]
  simp only [readers, withSess, List.length_append, List.length_singleton]
  omega

theorem readers_same (hr : n'.readers = n.readers) (hs : n'.started = n.started)
    (ha : a.isRecvFail = false) :
    n'.readers + [a].countP SessionAct.isRecvFail + n.started.toNat =
      n.readers + n'.started.toNat := by
  rw [hr, hs, List.countP_singleton, ha]
  rfl

/-- What a step does to the reads and their handlers, while the session is running. -/
theorem Step.readers (hun : n.Untouched) (hG : NotStop n a) (hstep : Step cfg body n a n') :
    n'.readers + [a].countP SessionAct.isRecvFail + n.started.toNat =
      n.readers + n'.started.toNat := by
  have hs := hun.1
  cases hstep with
  | start hstart =>
      have hread := readers_doRead hs
      have hsame : ({ n with sess := n.sess.start, started := true } : Live ε).readers =
          (n.withSess n.sess.doRead).readers := rfl
      simp only [hsame, hread, hstart, List.countP_singleton, SessionAct.isRecvFail,
        Bool.false_eq_true, if_false, Bool.toNat_false, Bool.toNat_true]
  | write content => exact readers_same (readers_withSess (by simp)) rfl rfl
  | stop => exact absurd rfl hG
  | tryLock hstop => rw [hs] at hstop; cases hstop
  | unlock htest => rw [hun.2] at htest; cases htest
  | send hsend =>
      obtain ⟨data, rest, -, -, -, -, rfl⟩ := Session.send_eq hsend
      exact readers_same rfl rfl rfl
  | sendDone hdone =>
      obtain ⟨data, k, rest, -, rfl⟩ := Session.sendDone_eq hdone
      exact readers_same (readers_withSess (by rw [Session.writeHandler_input]; rfl)) rfl rfl
  | sendFail ec hw =>
      refine readers_same ?_ (by unfold enter; split <;> rfl) rfl
      rw [readers_enter_failing]
      rfl
  | recv hrecv =>
      obtain ⟨rest, hr, -, -, rfl⟩ := Session.recv_eq hrecv
      exact readers_same (by simp [Live.readers, withSess, hr]) rfl rfl
  | recvStopped hr hstop => rw [hs] at hstop; cases hstop
  | recvDone hr _ =>
      refine readers_same ?_ rfl rfl
      simp only [Live.readers, hr, Session.commit, List.countP_append, List.countP_singleton,
        Activation.isReader, List.length_cons, if_true]
      omega
  | @recvFail rest ec hr =>
      have hstarted : (n.enter { n.sess with reads := rest }
          (.failing (body (.error true ec)))).started = n.started := by
        unfold enter; split <;> rfl
      rw [readers_enter_failing, hstarted]
      simp only [Live.readers, hr, List.countP_singleton, SessionAct.isRecvFail, List.length_cons,
        if_true]
      omega
  | brk hact hturn =>
      refine readers_same ?_ rfl rfl
      have hread := readers_doRead hs
      have hleave := readers_leave (n := n.withSess n.sess.doRead) hact
      simp only [Activation.isReader, Bool.toNat_true] at hleave
      omega
  | head hact hturn =>
      obtain ⟨-, -, -, rfl⟩ := Session.turn_eq_head hturn
      exact readers_same rfl rfl rfl
  | body hact hturn =>
      obtain ⟨-, -, -, -, rfl⟩ := Session.turn_eq_body hturn
      exact readers_same (readers_goOn hact rfl rfl rfl) rfl rfl
  | consume hact => exact readers_same (readers_goOn hact rfl rfl rfl) rfl rfl
  | callRead hact => exact readers_same (readers_goOn hact rfl rfl rfl) rfl rfl
  | returnFail hact => exact readers_same (readers_leave hact) rfl rfl
  | callFail hact => exact readers_same (readers_goOn hact rfl rfl rfl) rfl rfl

/-- One read or read handler from `start` on, as long as no read has failed and `stop` was not
called. -/
structure LoopInv (acts : List SessionAct) (n : Live ε) : Prop where
  chain : n.ReadChain
  running : .stop ∉ acts → n.Untouched ∧
    n.readers + acts.countP SessionAct.isRecvFail = n.started.toNat

theorem LoopInv.step (h : LoopInv acts n) (hstep : Step cfg body n a n') :
    LoopInv (acts ++ [a]) n' := by
  refine ⟨h.chain.step hstep, fun hnone => ?_⟩
  have hG : NotStop n a := by
    rintro rfl
    exact hnone (List.mem_append_right _ (List.mem_singleton_self _))
  obtain ⟨hun, hone⟩ := h.running fun hmem => hnone (List.mem_append_left _ hmem)
  have hread := hstep.readers hun hG
  refine ⟨hun.step hG hstep, ?_⟩
  rw [List.countP_append]
  omega

/-- Between handlers, a session that was started and not stopped, and whose reads have not failed, has
one `async_read_some` outstanding; and none is outstanding while `read_callback` is shown what was
read. -/
structure LoopArmed (acts : List SessionAct) (n : Live ε) : Prop where
  read : n.running = [] → n.started = true → .stop ∉ acts → (∀ ec, .recvFail ec ∉ acts) →
    n.sess.reads.length = 1
  shown : ∀ todo, .reading todo ∈ n.running → n.sess.reads = []

theorem loopArmed_of_run (h : Run (Live.step cfg body) Anything create acts n) :
    LoopArmed acts n := by
  have hI : LoopInv acts n := h.history (I := LoopInv)
    ⟨readChain_create, fun _ => ⟨⟨rfl, rfl⟩, rfl⟩⟩ fun _ _ _ _ hI _ hstep => hI.step (.of_step hstep)
  constructor
  · intro hidle hstarted hstop hfail
    obtain ⟨-, hone⟩ := hI.running hstop
    have hzero : acts.countP SessionAct.isRecvFail = 0 := by
      refine List.countP_eq_zero.mpr fun a ha hrecv => ?_
      cases a with
      | recvFail ec => exact hfail ec ha
      | _ => cases hrecv
    rw [readers, hidle, hzero, hstarted] at hone
    exact hone
  · intro todo hshown
    have hone := hI.chain.one
    have hpos : 0 < n.running.countP Activation.isReader :=
      List.countP_pos_iff.mpr ⟨_, hshown, rfl⟩
    unfold readers at hone
    exact List.length_eq_zero_iff.mp (by omega)

end Live

namespace ServerUDP

variable {ε : Type} {cfg : Config} {cb : Callbacks} {n : ServerUDP ε}

/-- Between handlers one `async_receive_from` is outstanding, and none is while `onMessage` is shown what
was received. -/
structure LoopArmed (n : ServerUDP ε) : Prop where
  receive : n.running = [] → n.receives.length = 1
  shown : .showing ∈ n.running → n.receives = []

theorem Loop.armed (h : n.Loop) : n.LoopArmed := by
  cases h with
  | waiting hrec hrun => exact ⟨fun _ => by rw [hrec]; rfl, by simp [hrun]⟩
  | done r hrec hrun => exact ⟨fun _ => by rw [hrec]; rfl, by simp [hrun]⟩
  | called r hrec hrun => exact ⟨by simp [hrun], fun _ => hrec⟩
  | showing hrec hrun => exact ⟨by simp [hrun], fun _ => hrec⟩

end ServerUDP

/-- **When the loops go on.**  In every state of every run of a server, of a session by itself, and of a
`ServerUDP`, each loop has its one operation outstanding whenever it should, and none while a callback
is shown the buffer, exactly when no accept has failed by the time the server listens between two
handlers. -/
theorem loopsArmed_iff {ε : Type} [Inhabited ε] {κ : Type} {cfg : Config} {cb : Callbacks}
    {body : Callback → List κ} {acts : List ServerAct} {n : Server}
    (h : Run (Server.step cfg) Anything Server.create acts n)
    {acts' : List SessionAct} {l : Live κ} (hl : Run (Live.step cfg body) Anything Live.create acts' l)
    {acts'' : List (ServerUDPAct ε)} {u : ServerUDP ε}
    (hu : Run (ServerUDP.step cfg cb) Anything ServerUDP.create acts'' u) :
    (Server.LoopsArmed acts n ∧ Live.LoopArmed acts' l ∧ u.LoopArmed) ↔
      (n.Quiescent → n.acceptorOpen = true → ∀ message, .acceptFail message ∉ acts) := by
  rw [← Server.armed_iff h]
  exact and_iff_left ⟨Live.loopArmed_of_run hl, (ServerUDP.loop_of_run hu).armed⟩

/-- A client connects and sends a packet, whose handler closes it. -/
def connectAndClose : List ServerAct :=
  Server.clientConnects ++ [.io 0 (.recv [1, 0, 0, 0, 0, 0, 0, 0, 5]), .io 0 .recvDone,
    .run 2 [] none, .run 2 [] none, .run 2 [.close 7] none, .run 2 [] none, .run 2 [] none,
    .run 2 [] none, .run 2 [] none, .run 2 [] none]

theorem loopsArmed_closed :
    ∃ n l u, Run (Server.step .shipped) Anything Server.create connectAndClose n ∧
      Run (Live.step .shipped Live.callbacks) Anything Live.create
        [.start, .recv [0, 0, 0], .recvDone, .run 0] l ∧
      Run (ServerUDP.step .shipped .both) Anything ServerUDP.create ServerUDP.mixedReceives u ∧
      n.Quiescent ∧ n.trace = [.onConnect 0, .onMessage 0 [5] 0 1, .onDisconnect 0] ∧
      (Server.LoopsArmed connectAndClose n ∧
        Live.LoopArmed [.start, .recv [0, 0, 0], .recvDone, .run 0] l ∧ u.LoopArmed) := by
  have h := Run.of_exec (Server.step .shipped) Server.create connectAndClose (by decide +kernel)
  have hl := Run.of_exec (Live.step .shipped Live.callbacks) Live.create
    [.start, .recv [0, 0, 0], .recvDone, .run 0] (by decide +kernel)
  have hu := Run.of_exec (ServerUDP.step .shipped .both) ServerUDP.create ServerUDP.mixedReceives
    (by decide +kernel)
  refine ⟨_, _, _, h, hl, hu, by decide +kernel, by decide +kernel, (loopsArmed_iff h hl hu).mpr ?_⟩
  intro _ _ message
  simp [connectAndClose, Server.clientConnects]

/-- An accept fails, and nobody listens any more. -/
theorem not_loopsArmed :
    ∃ n, Run (Server.step .shipped) Anything Server.create
        [.acceptFail "Too many open files", .run 0 [] none] n ∧
      n.Quiescent ∧ n.acceptorOpen = true ∧ n.accepts = 0 ∧ n.arrived = 0 ∧
      ¬ Server.LoopsArmed [.acceptFail "Too many open files", .run 0 [] none] n := by
  have h := Run.of_exec (Server.step .shipped) Server.create
    [.acceptFail "Too many open files", .run 0 [] none] (by decide +kernel)
  refine ⟨_, h, by decide +kernel, by decide +kernel, by decide +kernel, by decide +kernel, ?_⟩
  intro harmed
  exact absurd (harmed.accept (by decide +kernel) (by decide +kernel)) (by decide +kernel)

end AsioTcpFrame
