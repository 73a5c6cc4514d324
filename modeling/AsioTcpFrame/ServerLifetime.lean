import Mathlib.Data.Fintype.EquivFin
import AsioTcpFrame.Lib.Lifetime
import AsioTcpFrame.Deadlock
import AsioTcpFrame.Rearming

/-! # What runs after a server is destroyed

`~ServerTCP` closes the acceptor and drops the pool, but the sessions own themselves (`Kept`) and go on.
What they report through their callbacks goes to the server that is gone, as does the handler of the
accept operation.  Between handlers all is well exactly when the server is `Settled`: no accept and no
read is outstanding, and the writes that are have sent all that is buffered.

From a settled server on nothing reports (`Inert`, `noneOutlives_of_settled`).  From any other a few
steps lead to a report (`settled_of_noneOutlives`): an operation fails; or a read that has got its bytes
runs the read loop to its end, or to a message; or a write starts the next one, which fails.  A session
has one write at a time (`WriteLoop`), so nothing else comes in between. -/

namespace AsioTcpFrame

open Transition Lifetime
open scoped List

/-- The call accesses the server, and not only the session it is about. -/
def Call.usesServer : Call → Bool
  | sessionWrite _ _ _ | readLoop _ | readConsume _ | writeDone _ _ _ | guard _ => false
  | accepted _ .setError | accepted _ .setRead | accepted _ .start => false
  | _ => true

/-- The session that the call accesses, if it is one that it knows by its object. -/
def Call.worksOn : Call → Option ℕ
  | sessionWrite i _ _ | readLoop i | readConsume i | writeDone i _ _ | accepted i _ => some i
  | _ => none

/-- The write handler of the session `i`. -/
def Call.writing (i : ℕ) : Call → Bool
  | writeDone j _ _ => j == i
  | _ => false

/-- The handler of an operation is called. -/
def SessionIo.isHandler : SessionIo → Bool
  | send _ | recv _ => false
  | _ => true

namespace Session

/-- Nothing is outstanding but writes that have sent all that is buffered. -/
structure WindingUp (s : Session) : Prop where
  reads : s.reads = []
  writes : ∀ op ∈ s.writes, ∃ k, op.sent = some k ∧ s.sendBuf.length ≤ k

/-- From `s` to `s'` at most `d` writes come to be outstanding for which `is_writing` is not set. -/
def Paid (d : ℕ) (s s' : Session) : Prop :=
  s.isWriting.toNat + s'.writes.length ≤ s'.isWriting.toNat + s.writes.length + d

theorem Paid.of_eq {s s' : Session} (hi : s'.isWriting = s.isWriting) (hw : s'.writes = s.writes) :
    Paid 0 s s' := by
  rw [Paid, hi, hw, Nat.add_zero]

theorem paid_doWrite (s : Session) : Paid s.isWriting.toNat s s.doWrite := by
  unfold doWrite
  split
  · exact Nat.le_add_right _ _
  · split
    · simp only [Paid, Bool.toNat_false]; omega
    · simp only [Paid, Bool.toNat_true, List.length_append, List.length_singleton]; omega

theorem paid_writeLocked (cfg : Config) (s : Session) (content : List Byte) :
    Paid 0 s (s.writeLocked cfg content) := by
  unfold writeLocked
  split
  · exact .of_eq rfl rfl
  · next hs =>
    have hpaid := paid_doWrite (s.append cfg content)
    have hfalse : (s.append cfg content).isWriting = false := Bool.eq_false_iff.mpr hs
    rw [hfalse] at hpaid
    exact hpaid

theorem paid_writeDone (s : Session) (len : ℕ) : Paid 1 s (s.writeDone len) := by
  have hpaid := paid_doWrite { s with sendBuf := s.sendBuf.drop len }
  have hle : s.isWriting.toNat ≤ 1 := Bool.toNat_le _
  simp only [Paid, writeDone] at hpaid ⊢
  omega

theorem paid_doRead (s : Session) : Paid 0 s s.doRead := by
  unfold doRead
  split
  · exact .of_eq rfl rfl
  · exact .of_eq rfl rfl

theorem writeDone_empty {s : Session} {k : ℕ} (hs : s.stopped = false) (hk : s.sendBuf.length ≤ k) :
    s.writeDone k = { s with sendBuf := [], isWriting := false } := by
  have hdrop : s.sendBuf.drop k = [] := List.drop_of_length_le hk
  simp only [writeDone, doWrite, hdrop, hs, List.length_nil, if_true, Bool.false_eq_true, if_false]

theorem writeDone_running {s : Session} {k : ℕ} (hs : s.stopped = false) (hk : k < s.sendBuf.length) :
    (s.writeDone k).writes = s.writes ++ [⟨s.sendBuf.drop k, none⟩] := by
  have hdrop : (s.sendBuf.drop k).length ≠ 0 := by rw [List.length_drop]; omega
  simp only [writeDone, doWrite, hs, Bool.false_eq_true, if_false, if_neg hdrop]

end Session

namespace Server

variable {cfg : Config} {n n' m : Server} {a : ServerAct} {i j : ℕ}

/-- The object of the session `i` was destroyed. -/
def dead (n : Server) (i : ℕ) : Bool := (n.sessions[i]?).any fun o => !o.alive

/-- A server on the caller's `io_context`.  What is accessed may be the server, or a session that was
destroyed.  `~ServerTCP` closes the acceptor and drops the pool. -/
def host (cfg : Config) : Host Server ServerAct where
  step := Server.step cfg
  isCall
    | .call _ => true
    | _ => false
  touches n
    | .run t _ _ => (n.top t).any fun c => c.usesServer || c.worksOn.any n.dead
    | .io i b => b.isHandler && n.dead i
    | _ => false
  destroy n := sweep { n with acceptorOpen := false, pool := [], ub := n.ub || !n.pool.isEmpty }

/-- Nothing of the server is outstanding that would report to it. -/
structure Settled (n : Server) : Prop where
  accepts : n.accepts = 0
  arrived : n.arrived = 0
  sessions : ∀ (i : ℕ) (o : Obj), n.sessions[i]? = some o → o.sess.WindingUp

/-! ### The writes of a session -/

/-- The writes of the session `i` that are outstanding. -/
def writes (n : Server) (i : ℕ) : ℕ := ((n.sessions[i]?).map fun o => o.sess.writes.length).getD 0

/-- `is_writing` of the session `i`. -/
def isWriting (n : Server) (i : ℕ) : Bool := (n.sessions[i]?).any fun o => o.sess.isWriting

/-- One write, with its handler, for a session whose `is_writing` is set, and else none. -/
def WriteLoop (n : Server) : Prop :=
  ∀ i, n.writes i + n.calls.countP (Call.writing i) ≤ (n.isWriting i).toNat

theorem not_writing_of_initial {stack : List Call} (h : ∀ c ∈ stack, c.Initial) (i : ℕ) :
    stack.countP (Call.writing i) = 0 :=
  List.countP_eq_zero.mpr fun c hc => by cases h c hc <;> simp [Call.writing]

theorem paid_modify {f : Obj → Obj} {d : ℕ}
    (hf : ∀ o, n.sessions[j]? = some o → Session.Paid d o.sess (f o).sess) (i : ℕ) :
    (n.isWriting i).toNat + (n.modify j f).writes i ≤
      ((n.modify j f).isWriting i).toNat + n.writes i + if j = i then d else 0 := by
  simp only [isWriting, writes, modify, List.getElem?_modify]
  split
  · next hij =>
    subst hij
    cases ho : n.sessions[j]? with
    | none => simp
    | some o => simpa [ho, Session.Paid] using hf o ho
  · simp

/-- A write is started by a write handler, or sets `is_writing`. -/
theorem exec_writes {prog : List Api} {next : Option ℕ} {c : Call} {new : List Call}
    (h : n.exec cfg prog next c = some (m, new)) (i : ℕ) :
    (n.isWriting i).toNat + m.writes i + new.countP (Call.writing i) ≤
      (m.isWriting i).toNat + n.writes i + [c].countP (Call.writing i) := by
  have hprog := not_writing_of_initial (initial_prog cfg prog) i
  have hsame : ∀ (k : Server) (new : List Call), k.sessions = n.sessions →
      new.countP (Call.writing i) = 0 → (n.isWriting i).toNat + k.writes i +
        new.countP (Call.writing i) ≤ (k.isWriting i).toNat + n.writes i +
          [c].countP (Call.writing i) := by
    intro k new hk hnew
    simp only [isWriting, writes, hk, hnew]
    omega
  have hmodify : ∀ (j : ℕ) (f : Obj → Obj) (new : List Call),
      (∀ o, n.sessions[j]? = some o → Session.Paid 0 o.sess (f o).sess) →
      new.countP (Call.writing i) = 0 → (n.isWriting i).toNat + (n.modify j f).writes i +
        new.countP (Call.writing i) ≤ ((n.modify j f).isWriting i).toNat + n.writes i +
          [c].countP (Call.writing i) := by
    intro j f new hf hnew
    have hpaid := paid_modify hf i
    rw [ite_self] at hpaid
    omega
  cases Exec.of_exec h with
  | write a bytes => refine hsame _ _ rfl ?_; split <;> rfl
  | close a => refine hsame _ _ rfl ?_; split <;> rfl
  | closeAll => refine hsame _ _ rfl ?_; split <;> rfl
  | advance => refine hsame _ _ rfl ?_; split <;> rfl
  | erase a j all => refine hsame _ _ rfl ?_; split <;> rfl
  | test bytes ho => refine hsame _ _ rfl ?_; split <;> rfl
  | disconnect a j all => exact hsame _ _ rfl (by rw [List.countP_append, hprog]; rfl)
  | connect j => exact hsame _ _ rfl (by rw [List.countP_append, hprog]; rfl)
  | message j head length content => exact hsame _ _ rfl hprog
  | error j message => exact hsame _ _ rfl hprog
  | setError j => exact hmodify j _ _ (fun _ _ => .of_eq rfl rfl) rfl
  | setRead j => exact hmodify j _ _ (fun _ _ => .of_eq rfl rfl) rfl
  | start j => exact hmodify j _ _ (fun o _ => Session.paid_doRead o.sess) rfl
  | body j bytes => exact hmodify j _ _ (fun o _ => Session.paid_writeLocked cfg o.sess bytes) rfl
  | loopBreak ho hturn => exact hmodify _ _ _ (fun o _ => Session.paid_doRead o.sess) rfl
  | @loopHead j o s ho hturn =>
      obtain ⟨-, -, -, rfl⟩ := Session.turn_eq_head hturn
      refine hmodify j _ _ (fun o' ho' => ?_) rfl
      cases ho.symm.trans ho'
      exact .of_eq rfl rfl
  | @loopBody j o f s ho hturn =>
      obtain ⟨-, -, -, -, rfl⟩ := Session.turn_eq_body hturn
      refine hmodify j _ _ (fun o' ho' => ?_) ?_
      · cases ho.symm.trans ho'
        exact .of_eq rfl rfl
      · rw [List.countP_append, not_writing_of_initial (initial_readCallback j o f)]
        rfl
  | consume j => exact hmodify j _ _ (fun _ _ => .of_eq rfl rfl) rfl
  | doneLock j len => exact Nat.le_refl _
  | done j len =>
      have hpaid : (n.isWriting i).toNat + (n.onSess j fun s => s.writeDone len).writes i ≤
          ((n.onSess j fun s => s.writeDone len).isWriting i).toNat + n.writes i +
            if j = i then 1 else 0 := paid_modify (fun o _ => Session.paid_writeDone o.sess len) i
      simpa [List.countP_singleton, Call.writing] using hpaid
  | _ => exact hsame _ _ rfl rfl

theorem complete_writes {o : Obj} {b : SessionIo} {s : Session} {stack : List Call}
    (h : complete i o b = some (s, stack)) :
    s.isWriting = o.sess.isWriting ∧
      s.writes.length + stack.countP (Call.writing i) ≤ o.sess.writes.length ∧
      ∀ j, i ≠ j → stack.countP (Call.writing j) = 0 := by
  have hcallback : ∀ ec tail, tail = [] ∨ tail = [.guard i] → ∀ j,
      (errorCallback i o ec ++ tail).countP (Call.writing j) = 0 := fun ec _ htail =>
    not_writing_of_initial (initial_errorCallback i o ec htail)
  cases b with
  | send k =>
      obtain ⟨⟨bytes, t⟩, hsend, hr⟩ := Option.map_eq_some_iff.mp h
      cases hr
      obtain ⟨data, rest, hw, -, -, -, rfl⟩ := Session.send_eq hsend
      rw [hw]
      exact ⟨rfl, Nat.le_refl _, fun _ _ => rfl⟩
  | sendDone =>
      simp only [complete] at h
      split at h
      · next data k rest hw =>
        cases h
        rw [hw]
        split
        · exact ⟨rfl, Nat.le_succ _, fun _ _ => rfl⟩
        · refine ⟨rfl, ?_, fun j hij => ?_⟩
          · simp [Call.writing]
          · simp [Call.writing, hij]
      · cases h
  | sendFail ec =>
      simp only [complete] at h
      split at h
      · next data rest hw =>
        cases h
        rw [hw]
        split
        · exact ⟨rfl, Nat.le_succ _, fun _ _ => rfl⟩
        · have hnone := hcallback ec [.guard i] (Or.inr rfl)
          exact ⟨rfl, by rw [hnone]; exact Nat.le_succ _, fun j _ => hnone j⟩
      · cases h
  | recv bytes =>
      obtain ⟨t, hrecv, hr⟩ := Option.map_eq_some_iff.mp h
      cases hr
      obtain ⟨rest, -, -, -, rfl⟩ := Session.recv_eq hrecv
      exact ⟨rfl, Nat.le_refl _, fun _ _ => rfl⟩
  | recvDone =>
      simp only [complete] at h
      split at h
      · rw [Option.some.injEq] at h
        split at h
        · cases h; exact ⟨rfl, Nat.le_refl _, fun _ _ => rfl⟩
        · cases h; exact ⟨rfl, Nat.le_refl _, fun _ _ => rfl⟩
      · cases h
  | recvFail ec =>
      simp only [complete] at h
      split at h
      · cases h
        split
        · exact ⟨rfl, Nat.le_refl _, fun _ _ => rfl⟩
        · have hnone := hcallback ec [] (Or.inl rfl)
          rw [List.append_nil] at hnone
          exact ⟨rfl, by rw [hnone]; exact Nat.le_refl _, fun j _ => hnone j⟩
      · cases h

theorem writes_spawn (n : Server) (stack : List Call) (i : ℕ) :
    (n.spawn stack).writes i + (n.spawn stack).calls.countP (Call.writing i) =
      n.writes i + n.calls.countP (Call.writing i) + stack.countP (Call.writing i) := by
  rw [calls_spawn, List.countP_append]
  exact (Nat.add_assoc _ _ _).symm

theorem WriteLoop.step (h : n.WriteLoop) (hkept : n.Kept) (hstep : Step cfg n a n') :
    n'.WriteLoop := by
  intro i
  have hi := h i
  cases hstep with
  | call c =>
      have hnone : [c.toCall cfg].countP (Call.writing i) = 0 :=
        not_writing_of_initial (initial_prog cfg [c]) i
      rw [writes_spawn, hnone]
      exact hi
  | arrive _ _ => exact hi
  | @acceptDone a _ _ =>
      have hnew : (n.accept a).writes i = n.writes i ∧ (n.accept a).isWriting i = n.isWriting i := by
        simp only [writes, isWriting, accept, List.getElem?_append]
        split
        · exact ⟨rfl, rfl⟩
        · next hlen =>
          rw [List.getElem?_eq_none (Nat.le_of_not_lt hlen), List.getElem?_singleton]
          split <;> exact ⟨rfl, rfl⟩
      rw [writes_spawn, hnew.1]
      exact hi.trans_eq (congrArg Bool.toNat hnew.2.symm)
  | acceptFail message _ =>
      rw [writes_spawn]
      exact hi
  | @io j b o s stack ho hc =>
      obtain ⟨hwriting, hwrites, hother⟩ := complete_writes hc
      rw [writes_spawn]
      have hgoal : (n.onSess j fun _ => s).writes i + n.calls.countP (Call.writing i) +
          stack.countP (Call.writing i) ≤ ((n.onSess j fun _ => s).isWriting i).toNat := by
        by_cases hij : i = j
        · subst hij
          simp only [writes, isWriting, ho, onSess_getElem?_self _ _ _ ho, Option.map_some,
            Option.getD_some, Option.any_some, hwriting] at hi ⊢
          omega
        · have hsame : (n.onSess j fun _ => s).sessions[i]? = n.sessions[i]? :=
            modify_getElem?_ne _ _ _ hij
          simp only [writes, isWriting, hsame, hother i (Ne.symm hij)] at hi ⊢
          exact hi
      exact hgoal
  | @run t prog next c rest new m hstack hen hexec =>
      have hpaid := exec_writes hexec i
      have hperm := countP_calls_run new hstack (exec_threads hexec) (Call.writing i)
      rw [(hkept.exec hstack hexec).sweep] at hperm ⊢
      generalize hn' : ({ m with threads := m.threads.set t (new ++ rest) } : Server) = n' at hperm ⊢
      have hwrites : n'.writes i = m.writes i := by rw [← hn']; rfl
      have hwriting : n'.isWriting i = m.isWriting i := by rw [← hn']; rfl
      rw [hwrites, hwriting]
      omega

/-- **One write at a time**, in every run. -/
theorem WriteLoop.of_run {acts : List ServerAct}
    (h : Run (Server.step cfg) Anything create acts n) : n.WriteLoop := by
  have hI := h.invariant (I := fun n => n.Kept ∧ n.WriteLoop)
    ⟨fun i o ho => by simp [create] at ho, fun i => Nat.le_refl 0⟩
    fun _ _ _ hI _ hstep => ⟨hI.1.step (.of_step hstep), hI.2.step hI.1 (.of_step hstep)⟩
  exact hI.2

/-- The call is the handler of a write that has sent all that is buffered. -/
def Drains (n : Server) (c : Call) : Prop :=
  ∃ i k locked o, c = .writeDone i k locked ∧ n.sessions[i]? = some o ∧ o.sess.sendBuf.length ≤ k

/-- No other handler is running. -/
structure Inert (n : Server) : Prop where
  kept : n.Kept
  settled : n.Settled
  calls : ∀ c ∈ n.calls, n.Drains c

theorem Kept.dead (h : n.Kept) (i : ℕ) : n.dead i = false := by
  unfold Server.dead
  cases ho : n.sessions[i]? with
  | none => rfl
  | some o => simp [(h i o ho).1]

theorem Kept.destroy (h : n.Kept) : (host cfg).destroy n =
    { n with acceptorOpen := false, pool := [], ub := n.ub || !n.pool.isEmpty } :=
  Kept.sweep (n := { n with acceptorOpen := false, pool := [], ub := n.ub || !n.pool.isEmpty }) h

theorem Settled.congr (h : n.Settled) (hs : m.sessions = n.sessions) (hacc : m.accepts = n.accepts)
    (harr : m.arrived = n.arrived) : m.Settled :=
  ⟨hacc.trans h.accepts, harr.trans h.arrived, fun i o ho => h.sessions i o (hs ▸ ho)⟩

theorem Settled.onSess (h : n.Settled) {f : Session → Session} {o : Obj}
    (ho : n.sessions[i]? = some o) (hf : (f o.sess).WindingUp) : (n.onSess i f).Settled := by
  refine ⟨h.accepts, h.arrived, fun j o' hj => ?_⟩
  by_cases hij : j = i
  · subst hij
    rw [onSess_getElem?_self _ _ _ ho] at hj
    cases hj
    exact hf
  · rw [Server.onSess, modify_getElem?_ne _ _ _ hij] at hj
    exact h.sessions j o' hj

theorem Drains.onSess {c : Call} (h : n.Drains c) {f : Session → Session} {o : Obj}
    (ho : n.sessions[i]? = some o) (hf : (f o.sess).sendBuf.length ≤ o.sess.sendBuf.length) :
    (n.onSess i f).Drains c := by
  obtain ⟨j, k, locked, p, rfl, hp, hk⟩ := h
  by_cases hij : j = i
  · subst hij
    rw [ho] at hp
    cases hp
    exact ⟨j, k, locked, _, rfl, onSess_getElem?_self _ _ _ ho, hf.trans hk⟩
  · exact ⟨j, k, locked, p, rfl, (modify_getElem?_ne _ _ _ hij).trans hp, hk⟩

theorem Inert.of_settled (hkept : n.Kept) (hq : n.Quiescent) (h : n.Settled) :
    ((host cfg).destroy n).Inert := by
  rw [hkept.destroy]
  refine ⟨hkept, ⟨h.accepts, h.arrived, h.sessions⟩, fun c hc => ?_⟩
  have hnil : n.calls = [] := hq
  have hmem : c ∈ n.calls := hc
  rw [hnil] at hmem
  cases hmem

/-- An operation of a session that winds up completes: it is a write that has sent everything. -/
theorem Inert.complete (h : n.Inert) {o : Obj} {b : SessionIo} {s : Session} {stack : List Call}
    (ho : n.sessions[i]? = some o) (hc : complete i o b = some (s, stack)) :
    ∃ k, stack = [.writeDone i k false] ∧ s.sendBuf = o.sess.sendBuf ∧ s.sendBuf.length ≤ k ∧
      s.WindingUp := by
  have hstopped := (h.kept i o ho).2.1
  obtain ⟨hreads, hwrites⟩ := h.settled.sessions i o ho
  cases b with
  | send k =>
      obtain ⟨⟨bytes, t⟩, hsend, -⟩ := Option.map_eq_some_iff.mp hc
      obtain ⟨data, rest, hw, -⟩ := Session.send_eq hsend
      obtain ⟨k', hsent, -⟩ := hwrites ⟨data, none⟩ (by rw [hw]; exact List.mem_cons_self)
      cases hsent
  | sendDone =>
      simp only [Server.complete, hstopped, Bool.false_eq_true, if_false] at hc
      split at hc
      · next data k rest hw =>
        cases hc
        obtain ⟨k', hsent, hle⟩ := hwrites ⟨data, some k⟩ (by rw [hw]; exact List.mem_cons_self)
        cases hsent
        exact ⟨k, rfl, rfl, hle, hreads, fun op hop =>
          hwrites op (by rw [hw]; exact List.mem_cons_of_mem _ hop)⟩
      · cases hc
  | sendFail ec =>
      simp only [Server.complete] at hc
      split at hc
      · next data rest hw =>
        obtain ⟨k', hsent, -⟩ := hwrites ⟨data, none⟩ (by rw [hw]; exact List.mem_cons_self)
        cases hsent
      · cases hc
  | recv bytes => simp [Server.complete, Session.recv, hreads] at hc
  | recvDone => simp [Server.complete, hreads] at hc
  | recvFail ec => simp [Server.complete, hreads] at hc

theorem Inert.step (h : n.Inert) (ha : (host cfg).isCall a = false)
    (hstep : n.step cfg a = some n') : (host cfg).touches n a = false ∧ n'.Inert := by
  have hkept := h.kept.step (.of_step hstep)
  have haccepts := h.settled.accepts
  have harrived := h.settled.arrived
  cases Step.of_step hstep with
  | call c => cases ha
  | arrive _ hacc => omega
  | acceptDone harr _ => omega
  | acceptFail message hacc => omega
  | @io i b o s stack ho hc =>
      obtain ⟨k, rfl, hbuf, hle, hwinding⟩ := h.complete ho hc
      have hsettled : (n.onSess i fun _ => s).Settled := h.settled.onSess ho hwinding
      refine ⟨by simp only [host, h.kept.dead, Bool.and_false], hkept,
        hsettled.congr rfl rfl rfl, fun c hc => ?_⟩
      rw [calls_spawn] at hc
      rcases List.mem_append.mp hc with hc | hc
      · exact (h.calls c hc).onSess (f := fun _ => s) ho (by rw [hbuf])
      · exact ⟨i, k, false, _, List.mem_singleton.mp hc,
          onSess_getElem?_self n i (fun _ => s) ho, hle⟩
  | @run t prog next c rest new m hstack hen hexec =>
      have hmem := mem_calls hstack
      have htop := top_eq hstack
      have hcalls := calls_run new hstack (exec_threads hexec)
      rw [(h.kept.exec hstack hexec).sweep] at hcalls hkept ⊢
      have hold : ∀ d ∈ Server.calls { m with threads := m.threads.set t (new ++ rest) },
          d ∈ new ∨ d ∈ n.calls := fun d hd =>
        List.mem_append.mp (hcalls.mem_iff.mp (List.mem_cons_of_mem c hd))
      obtain ⟨i, k, locked, o, rfl, ho, hk⟩ := h.calls c hmem
      have htouch : (host cfg).touches n (.run t prog next) = false := by
        simp [host, htop, Call.usesServer, Call.worksOn, h.kept.dead]
      cases Exec.of_exec hexec with
      | doneLock =>
          refine ⟨htouch, hkept, h.settled.congr rfl rfl rfl, fun d hd => ?_⟩
          rcases hold d hd with hd | hd
          · exact ⟨i, k, true, o, List.mem_singleton.mp hd, ho, hk⟩
          · exact h.calls d hd
      | done =>
          obtain ⟨hreads, hwrites⟩ := h.settled.sessions i o ho
          have hdone := Session.writeDone_empty (h.kept i o ho).2.1 hk
          have hwinding : (o.sess.writeDone k).WindingUp := by
            rw [hdone]
            exact ⟨hreads, fun op hop => (hwrites op hop).imp fun _ hs => ⟨hs.1, Nat.zero_le _⟩⟩
          have hsettled : (n.onSess i fun s => s.writeDone k).Settled :=
            h.settled.onSess ho hwinding
          refine ⟨htouch, hkept, hsettled.congr rfl rfl rfl, fun d hd => ?_⟩
          refine (h.calls d ((hold d hd).resolve_left (by simp))).onSess
            (f := fun s => s.writeDone k) ho ?_
          rw [hdone]
          exact Nat.zero_le _

/-- **When a server may be destroyed** between handlers: when it is settled. -/
theorem noneOutlives_of_settled {acts : List ServerAct}
    (h : Run (Server.step cfg) Anything create acts n) (hq : n.Quiescent) (hs : n.Settled) :
    (host cfg).NoneOutlives n :=
  Host.noneOutlives_of_inert (h := host cfg) (I := Inert) (.of_settled (.of_run h) hq hs)
    fun _ _ _ hI ha hstep => hI.step ha hstep

/-! ### Steps to a report -/

/-- The calls that are running are those of the thread `t`. -/
structure Only (n : Server) (t : ℕ) (stack : List Call) : Prop where
  kept : n.Kept
  thread : n.threads[t]? = some stack
  calls : n.calls ~ stack

theorem Quiescent.only_spawn {stack : List Call} (hq : n.Quiescent) (hkept : (n.spawn stack).Kept) :
    (n.spawn stack).Only n.threads.length stack where
  kept := hkept
  thread := by simp [spawn]
  calls := by
    have hnil : n.calls = [] := hq
    rw [calls_spawn, hnil, List.nil_append]

section only
variable {t : ℕ} {c : Call} {rest new : List Call}

theorem Only.run (h : n.Only t (c :: rest))
    (hfree : c.wants = none ∨ rest = [])
    (hexec : n.exec cfg [] none c = some (m, new)) :
    ∃ n', n.step cfg (.run t [] none) = some n' ∧ n'.sessions = m.sessions ∧
      n'.Only t (new ++ rest) := by
  have hen : n.Enabled c := by
    intro l hl d hd
    rcases List.mem_cons.mp (h.calls.mem_iff.mp hd) with rfl | hd
    · simp [Call.holds_of_wants hl]
    · rcases hfree with hnone | rfl
      · rw [hnone] at hl
        cases hl
      · cases hd
  have hkept := h.kept.exec h.thread hexec
  have hcalls := calls_run new h.thread (exec_threads hexec)
  have hlt : t < m.threads.length := by
    rw [exec_threads hexec]
    exact (List.getElem?_eq_some_iff.mp h.thread).1
  rw [hkept.sweep] at hcalls
  refine ⟨({ m with threads := m.threads.set t (new ++ rest) } : Server), ?_, rfl, hkept, ?_, ?_⟩
  · simp only [step, h.thread, if_pos hen, hexec, Option.map_some, hkept.sweep]
  · exact List.getElem?_set_self hlt
  · have hperm : c :: Server.calls { m with threads := m.threads.set t (new ++ rest) } ~
        c :: (new ++ rest) := calc
      _ ~ new ++ n.calls := hcalls
      _ ~ new ++ c :: rest := h.calls.append_left new
      _ ~ c :: (new ++ rest) := List.perm_middle
    exact hperm.cons_inv

theorem Only.reaches_run (h : n.Only t (c :: rest))
    (hfree : c.wants = none ∨ rest = [])
    (hexec : n.exec cfg [] none c = some (m, new))
    (hnext : ∀ n' : Server, n'.sessions = m.sessions → n'.Only t (new ++ rest) →
      (host cfg).Reaches n') : (host cfg).Reaches n := by
  obtain ⟨n', hstep, hsess, h'⟩ := h.run hfree hexec
  exact .step (h := host cfg) (a := .run t [] none) rfl hstep (hnext n' hsess h')

theorem Only.reports (h : n.Only t (c :: rest)) (hc : c.usesServer = true)
    (hfree : c.wants = none ∨ rest = [])
    (hexec : n.exec cfg [] none c = some (m, new)) : (host cfg).Reaches n := by
  obtain ⟨n', hstep, -, -⟩ := h.run hfree hexec
  refine .access (h := host cfg) (a := .run t [] none) rfl hstep ?_
  simp only [host, top_eq h.thread, Option.any_some, hc, Bool.true_or]

theorem Only.reports_error {k : Option ℕ} {message : String}
    (h : n.Only t (.error k message :: rest)) : (host cfg).Reaches n :=
  h.reports rfl (Or.inl rfl) rfl

end only

section session
variable {o : Obj} {s : Session} {stack : List Call}

theorem reaches_of_complete {b : SessionIo} (hkept : n.Kept) (hq : n.Quiescent)
    (ho : n.sessions[i]? = some o) (hc : complete i o b = some (s, stack))
    (hnext : ∀ (n' : Server) t, n'.sessions[i]? = some { o with sess := s } → n'.Only t stack →
      (host cfg).Reaches n') : (host cfg).Reaches n := by
  have hstep : n.step cfg (.io i b) = some ((n.onSess i fun _ => s).spawn stack) := by
    simp only [step, ho, Option.bind_some, hc, Option.map_some]
  have hq' : (n.onSess i fun _ => s).Quiescent := hq
  exact .step (h := host cfg) (a := .io i b) rfl hstep
    (hnext _ _ (onSess_getElem?_self n i (fun _ => s) ho)
      (hq'.only_spawn (hkept.step (.of_step hstep))))

theorem Kept.errorCallback (hkept : n.Kept) (hq : n.Quiescent) (ho : n.sessions[i]? = some o)
    (message : String) : Server.errorCallback i o (.other message) =
      [.error (some i) message, .close o.addr] := by
  obtain ⟨-, -, hset | ⟨c, hc, -⟩⟩ := hkept i o ho
  · simp [Server.errorCallback, hset, ErrorCode.message]
  · have hnil : n.calls = [] := hq
    rw [hnil] at hc
    cases hc

theorem reaches_of_read (hkept : n.Kept) (hq : n.Quiescent) (ho : n.sessions[i]? = some o)
    {others : List ReadOp} (hr : o.sess.reads = none :: others) : (host cfg).Reaches n := by
  have hcallback := hkept.errorCallback hq ho "Operation canceled"
  refine reaches_of_complete (b := .recvFail (.other "Operation canceled")) hkept hq ho
    (by simp only [complete, hr, (hkept i o ho).2.1, hcallback]; rfl) fun n' t _ h => ?_
  exact h.reports_error

theorem reaches_of_write (hkept : n.Kept) (hq : n.Quiescent) (ho : n.sessions[i]? = some o)
    {data : List Byte} {others : List WriteOp} (hw : o.sess.writes = ⟨data, none⟩ :: others) :
    (host cfg).Reaches n := by
  have hcallback := hkept.errorCallback hq ho "Operation canceled"
  refine reaches_of_complete (b := .sendFail (.other "Operation canceled")) hkept hq ho
    (by simp only [complete, hw, (hkept i o ho).2.1, hcallback]; rfl) fun n' t _ h => ?_
  exact h.reports_error

theorem Only.quiescent {t : ℕ} (h : n.Only t []) : n.Quiescent := h.calls.eq_nil

theorem mem_readCallback {c : Call} {f : Frame} (h : c ∈ readCallback cfg i o f) :
    (∃ k message, c = .error k message) ∨ ∃ head length content, c = .message i head length content := by
  unfold readCallback at h
  split at h
  · obtain ⟨e, -, he⟩ := List.mem_flatMap.mp h
    cases e with
    | load _ _ => cases he
    | onError _ text => exact Or.inl ⟨_, _, List.mem_singleton.mp he⟩
    | onMessage _ head length content => exact Or.inr ⟨_, _, _, List.mem_singleton.mp he⟩
  · cases h

theorem Only.reaches_readLoop (hcfg : cfg.pakSize ≤ cfg.sizeT) {t : ℕ} (h : n.Only t [.readLoop i])
    (ho : n.sessions[i]? = some o) (hr : o.sess.reads = []) : (host cfg).Reaches n := by
  induction hsize : (Session.decoder cfg).size o.sess using Nat.strong_induction_on
    generalizing n o with
  | _ size ih =>
    subst hsize
    cases hturn : o.sess.turn cfg with
    | overread =>
        obtain ⟨-, hle, hlt⟩ := Session.turn_eq_overread hturn
        omega
    | brk =>
        have hexec : n.exec cfg [] none (.readLoop i) = some (n.onSess i Session.doRead, []) := by
          simp only [exec, ho, Option.bind_some, hturn]
        refine h.reaches_run (Or.inl rfl) hexec fun n' hsess h' => ?_
        have ho' := onSess_getElem?_self n i Session.doRead ho
        rw [← hsess] at ho'
        have hr' : o.sess.doRead.reads = [none] := by
          rw [Session.doRead_running (h.kept i o ho).2.1, hr, List.nil_append]
        exact reaches_of_read h'.kept h'.quiescent ho' hr'
    | head s =>
        have hexec : n.exec cfg [] none (.readLoop i) =
            some (n.onSess i fun _ => s, [.readLoop i]) := by
          simp only [exec, ho, Option.bind_some, hturn]
        have hsmaller : (Session.decoder cfg).size s < (Session.decoder cfg).size o.sess :=
          (Session.decoder cfg).turn_size (o := none) (by simp only [Session.decoder, hturn])
        refine h.reaches_run (Or.inl rfl) hexec fun n' hsess h' => ?_
        have ho' := onSess_getElem?_self n i (fun _ => s) ho
        rw [← hsess] at ho'
        obtain ⟨-, -, -, rfl⟩ := Session.turn_eq_head hturn
        exact ih _ hsmaller h' ho' hr rfl
    | body f s =>
        have hexec : n.exec cfg [] none (.readLoop i) =
            some (n.onSess i fun _ => s, readCallback cfg i o f ++ [.readConsume i]) := by
          simp only [exec, ho, Option.bind_some, hturn]
        have hsmaller : (Session.decoder cfg).size s.consumeBody <
            (Session.decoder cfg).size o.sess :=
          (Session.decoder cfg).turn_size (o := some f) (by simp only [Session.decoder, hturn])
        refine h.reaches_run (Or.inl rfl) hexec fun n' hsess h' => ?_
        have ho' := onSess_getElem?_self n i (fun _ => s) ho
        rw [← hsess] at ho'
        cases hcalls : readCallback cfg i o f with
        | nil =>
            rw [hcalls] at h'
            have hexec' : n'.exec cfg [] none (.readConsume i) =
                some (n'.onSess i Session.consumeBody, [.readLoop i]) := rfl
            refine h'.reaches_run (Or.inl rfl) hexec' fun k hsess' hk => ?_
            have hok := onSess_getElem?_self n' i Session.consumeBody ho'
            rw [← hsess'] at hok
            obtain ⟨-, -, -, -, rfl⟩ := Session.turn_eq_body hturn
            exact ih _ hsmaller hk hok hr rfl
        | cons c calls =>
            rw [hcalls] at h'
            have hmem : c ∈ readCallback cfg i o f := by rw [hcalls]; exact List.mem_cons_self
            rcases mem_readCallback hmem with ⟨_, _, rfl⟩ | ⟨_, _, _, rfl⟩
            · exact h'.reports_error
            · exact h'.reports rfl (Or.inl rfl) rfl

theorem Only.reaches_writeDone {t k : ℕ} (h : n.Only t [.writeDone i k false])
    (ho : n.sessions[i]? = some o) (hw : o.sess.writes = []) (hk : k < o.sess.sendBuf.length) :
    (host cfg).Reaches n := by
  have hlock : n.exec cfg [] none (.writeDone i k false) = some (n, [.writeDone i k true]) := rfl
  refine h.reaches_run (Or.inr rfl) hlock fun n₁ hsess₁ h₁ => ?_
  have hdone : n₁.exec cfg [] none (.writeDone i k true) =
      some (n₁.onSess i fun s => s.writeDone k, []) := rfl
  refine h₁.reaches_run (Or.inr rfl) hdone fun n₂ hsess₂ h₂ => ?_
  have ho₂ := onSess_getElem?_self n₁ i (fun s => s.writeDone k) (hsess₁ ▸ ho)
  rw [← hsess₂] at ho₂
  have hw₂ := Session.writeDone_running (h.kept i o ho).2.1 hk
  rw [hw, List.nil_append] at hw₂
  exact reaches_of_write h₂.kept h₂.quiescent ho₂ hw₂

end session

/-- The handler of the accept operation puts the session into the pool of the server. -/
theorem reaches_of_arrived (hkept : n.Kept) (hq : n.Quiescent) (harr : 0 < n.arrived) :
    (host cfg).Reaches n := by
  obtain ⟨a, ha⟩ := Infinite.exists_notMem_finset (n.sessions.map Obj.addr).toFinset
  have hfresh : n.Fresh a := fun o ho _ heq =>
    ha (List.mem_toFinset.mpr (List.mem_map.mpr ⟨o, ho, heq⟩))
  have hstep : n.step cfg (.acceptDone a) =
      some ((n.accept a).spawn [.accepted n.sessions.length .insert]) := if_pos ⟨harr, hfresh⟩
  have hq' : (n.accept a).Quiescent := hq
  have honly := hq'.only_spawn (hkept.step (.of_step hstep))
  have hnew : ((n.accept a).spawn [.accepted n.sessions.length .insert]).sessions[
      n.sessions.length]? = some (Obj.create a) := List.getElem?_concat_length
  have hexec : ((n.accept a).spawn [.accepted n.sessions.length .insert]).exec cfg [] none
      (.accepted n.sessions.length .insert) =
        some (((n.accept a).spawn [.accepted n.sessions.length .insert]).poolInsert a
          n.sessions.length, [.accepted n.sessions.length .setError]) := by
    simp only [exec, hnew, Option.map_some]
    rfl
  exact .step (h := host cfg) (a := .acceptDone a) rfl hstep
    (honly.reports rfl (Or.inr rfl) hexec)

/-- Where nothing reports to the server, it is settled. -/
theorem settled_of_not_reaches (hcfg : cfg.pakSize ≤ cfg.sizeT) (hkept : n.Kept) (hq : n.Quiescent)
    (hone : ∀ (i : ℕ) (o : Obj), n.sessions[i]? = some o →
      o.sess.reads.length ≤ 1 ∧ o.sess.writes.length ≤ 1)
    (hnone : ¬ (host cfg).Reaches n) : n.Settled := by
  refine ⟨?_, ?_, fun i o ho => ⟨?_, fun op hop => ?_⟩⟩
  · by_contra haccepts
    have hstep : n.step cfg (.acceptFail "Operation canceled") = some (n.acceptEnd.spawn
        [.error none ("accept failed: " ++ "Operation canceled")]) :=
      if_pos (Nat.pos_of_ne_zero haccepts)
    have hq' : n.acceptEnd.Quiescent := hq
    exact hnone (.step (h := host cfg) (a := .acceptFail "Operation canceled") rfl hstep
      (hq'.only_spawn (hkept.step (.of_step hstep))).reports_error)
  · by_contra harrived
    exact hnone (reaches_of_arrived hkept hq (Nat.pos_of_ne_zero harrived))
  · by_contra hne
    obtain ⟨op, hop⟩ := List.exists_mem_of_ne_nil _ hne
    have hr := Slots.eq_singleton_of_mem (hone i o ho).1 hop
    cases op with
    | none => exact hnone (reaches_of_read hkept hq ho hr)
    | some bytes =>
        refine hnone (reaches_of_complete (b := .recvDone) hkept hq ho
          (by simp only [complete, hr, (hkept i o ho).2.1]; rfl) fun n' t ho' h => ?_)
        exact h.reaches_readLoop hcfg ho' rfl
  · have hw := Slots.eq_singleton_of_mem (hone i o ho).2 hop
    obtain ⟨data, sent⟩ := op
    cases sent with
    | none => exact absurd (reaches_of_write hkept hq ho hw) hnone
    | some k =>
        refine ⟨k, rfl, Nat.le_of_not_lt fun hk => hnone ?_⟩
        refine reaches_of_complete (b := .sendDone) hkept hq ho
          (by simp only [complete, hw, (hkept i o ho).2.1]; rfl) fun n' t ho' h => ?_
        exact h.reaches_writeDone ho' rfl hk

/-- **Only then**, when the guard of the read loop covers a header. -/
theorem settled_of_noneOutlives (hcfg : cfg.pakSize ≤ cfg.sizeT) {acts : List ServerAct}
    (h : Run (Server.step cfg) Anything create acts n) (hq : n.Quiescent)
    (hnone : (host cfg).NoneOutlives n) : n.Settled := by
  have hkept := Kept.of_run h
  have hone : ∀ (i : ℕ) (o : Obj), n.sessions[i]? = some o →
      o.sess.reads.length ≤ 1 ∧ o.sess.writes.length ≤ 1 := by
    intro i o ho
    have hreads := (loops_of_run h).2 i
    have hwrites := WriteLoop.of_run h i
    have hle : (n.isWriting i).toNat ≤ 1 := Bool.toNat_le _
    rw [readers, reads_of_getElem? ho] at hreads
    simp only [writes, ho, Option.map_some, Option.getD_some] at hwrites
    split at hreads <;> omega
  have hreach : ¬ (host cfg).Reaches ((host cfg).destroy n) := fun hr => hr.not_noneOutlives hnone
  rw [hkept.destroy] at hreach
  obtain ⟨haccepts, harrived, hsessions⟩ := settled_of_not_reaches hcfg
    (n := { n with acceptorOpen := false, pool := [], ub := n.ub || !n.pool.isEmpty })
    hkept hq hone hreach
  exact ⟨haccepts, harrived, hsessions⟩

end Server

end AsioTcpFrame
