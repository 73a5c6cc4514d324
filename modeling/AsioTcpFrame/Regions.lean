import AsioTcpFrame.Deadlock
import AsioTcpFrame.ServerLifetime

/-! # One call at a time

What the threads of a server share falls into regions: `session_pool`, and of each session what its
receiving half works on (`is_reading_head`, `bodylen`, `recv_buf`) and what its sending half works on
(`is_writing`, `send_buf`).  A call of the library works on a region from when it has entered the code that
does so until it leaves it (`Call.region`).

Three things guard the regions: `sess_pool_mtx`, the `send_mtx` of each session, and, for the receiving
half, which has no mutex, that there is one chain of reads.  So at most one call works on a region at a time
(`OneWorker`); and as no step changes a region that its call does not work on or lock (`exec_same`), no step
changes a region while a call of another thread works on it (`one_call_at_a_time`).

This is about the calls of the library, and does not say that a server is free of data races.  The bytes of
`send_buf` are read by the thread that carries out an outstanding write, which holds no mutex, while
`prepare` for another write may move them (`MemorySender.undisturbed` says when it does not).
`error_callback` and `read_callback` are not among the regions: the accept handler sets them when the session
is in the pool already, and the handler of a write that fails may look at them meanwhile.  Nor is the
socket. -/

namespace AsioTcpFrame

open Transition
open scoped List

/-- The two halves of a session. -/
inductive Half where
  | receiving
  | sending
deriving DecidableEq, Repr

/-- What a half works on. -/
def Session.data (s : Session) : Half → Bool × ℕ × List Byte
  | .receiving => (s.isReadingHead, s.bodylen, s.recvBuf)
  | .sending => (s.isWriting, 0, s.sendBuf)

/-- What the calls of several threads work on. -/
inductive Region where
  | pool
  | session (i : ℕ) (half : Half)
deriving DecidableEq, Repr

/-- The region that a call works on.  The handler of an accepted connection is to start the read loop. -/
def Call.region : Call → Option Region
  | broadcasting _ _ | disconnect _ _ _ | erase _ _ _ | advance => some .pool
  | sessionWrite i _ .body | writeDone i _ true => some (.session i .sending)
  | accepted _ .rearm => none
  | accepted i _ | readLoop i | readConsume i => some (.session i .receiving)
  | _ => none

/-- The thread that takes the step, if it is one. -/
def ServerAct.thread : ServerAct → Option ℕ
  | run t _ _ => some t
  | _ => none

namespace Server

/-- The region is as it was. -/
def Same (n n' : Server) : Region → Prop
  | .pool => n'.pool = n.pool
  | .session i half => ∀ o, n.sessions[i]? = some o →
      ∃ o', n'.sessions[i]? = some o' ∧ o'.sess.data half = o.sess.data half

/-- When a step changes a region, no call of another thread is at work on it; and when a thread changes what
was received, no read is outstanding. -/
structure TakesTurns (n : Server) (a : ServerAct) (n' : Server) : Prop where
  threads : ∀ r, ¬ n.Same n' r → ∀ u stack, n.threads[u]? = some stack → a.thread ≠ some u →
    ∀ d ∈ stack, d.region ≠ some r
  socket : ∀ i o, n.sessions[i]? = some o → ¬ n.Same n' (.session i .receiving) →
    (∃ t, a.thread = some t) → o.sess.reads = []

variable {cfg : Config} {n n' m : Server} {a : ServerAct} {r : Region} {i j : ℕ}

/-! ### What a step changes -/

theorem Same.refl (n : Server) (r : Region) : n.Same n r := by
  cases r with
  | pool => rfl
  | session i half => exact fun o ho => ⟨o, ho, rfl⟩

theorem Same.trans {k : Server} (h : n.Same m r) (h' : m.Same k r) : n.Same k r := by
  cases r with
  | pool => exact h'.trans h
  | session i half =>
      intro o ho
      obtain ⟨o', ho', hdata⟩ := h o ho
      obtain ⟨o'', ho'', hdata'⟩ := h' o' ho'
      exact ⟨o'', ho'', hdata'.trans hdata⟩

theorem Same.of_eq (hpool : n'.pool = n.pool) (hsessions : n'.sessions = n.sessions) (r : Region) :
    n.Same n' r := by
  cases r with
  | pool => exact hpool
  | session i half => exact fun o ho => ⟨o, by rw [hsessions]; exact ho, rfl⟩

theorem same_modify {f : Obj → Obj} (h : ∀ o half, n.sessions[j]? = some o →
    r = .session j half → (f o).sess.data half = o.sess.data half) : n.Same (n.modify j f) r := by
  cases r with
  | pool => rfl
  | session i half =>
      intro o ho
      by_cases hij : i = j
      · subst hij
        exact ⟨f o, by simp [modify, ho], h o half ho rfl⟩
      · exact ⟨o, by simp [modify, Ne.symm hij, ho], rfl⟩

theorem same_sweep (n : Server) (r : Region) : n.Same n.sweep r := by
  cases r with
  | pool => rfl
  | session i half =>
      intro o ho
      have hstop : ∀ s : Session, s.stop.data half = s.data half := by
        intro s
        unfold Session.stop
        split
        · rfl
        · cases half <;> rfl
      refine ⟨_, by simp [sweep, ho]; rfl, ?_⟩
      split
      · exact hstop o.sess
      · rfl

theorem data_doRead (s : Session) (half : Half) : s.doRead.data half = s.data half := by
  unfold Session.doRead
  split
  · rfl
  · cases half <;> rfl

theorem data_input {s t : Session} (h : s.input = t.input) :
    s.data .receiving = t.data .receiving := by
  obtain ⟨hhead, hbodylen, hbuf, -⟩ := Session.Input.mk.inj h
  simp only [Session.data, hhead, hbodylen, hbuf]

/-- **What a step of a call changes**: the region that the call works on, or the one that it locks. -/
theorem exec_same {prog : List Api} {next : Option ℕ} {c : Call} {new : List Call}
    (hexec : n.exec cfg prog next c = some (m, new)) (hr : c.region ≠ some r)
    (hlock : r = .pool → c.wants ≠ some .pool) : n.Same m r := by
  have hother : ∀ {j : ℕ} {half half' : Half}, c.region = some (.session j half) →
      r = .session j half' → half' ≠ half := by
    rintro j half half' hc rfl rfl
    exact hr hc
  cases Exec.of_exec hexec with
  | erase a i all =>
      cases r with
      | pool => exact absurd rfl hr
      | session j half => exact fun o ho => ⟨o, ho, rfl⟩
  | insert ho =>
      cases r with
      | pool => exact absurd rfl (hlock rfl)
      | session j half => exact fun o ho => ⟨o, ho, rfl⟩
  | setError i => exact same_modify fun _ _ _ _ => rfl
  | setRead i => exact same_modify fun _ _ _ _ => rfl
  | start i => exact same_modify fun o half _ _ => data_doRead o.sess half
  | body i bytes =>
      refine same_modify fun o half _ hhalf => ?_
      cases half with
      | sending => exact absurd rfl (hother rfl hhalf)
      | receiving => exact data_input (by simp)
  | loopBreak ho hturn => exact same_modify fun o half _ _ => data_doRead o.sess half
  | @loopHead i o s ho hturn =>
      obtain ⟨-, -, -, rfl⟩ := Session.turn_eq_head hturn
      refine same_modify fun o' half ho' hhalf => ?_
      obtain rfl : o = o' := Option.some.inj (ho.symm.trans ho')
      cases half with
      | sending => rfl
      | receiving => exact absurd rfl (hother rfl hhalf)
  | @loopBody i o f s ho hturn =>
      obtain ⟨-, -, -, -, rfl⟩ := Session.turn_eq_body hturn
      refine same_modify fun o' half ho' hhalf => ?_
      obtain rfl : o = o' := Option.some.inj (ho.symm.trans ho')
      cases half with
      | sending => rfl
      | receiving => exact absurd rfl (hother rfl hhalf)
  | consume i =>
      refine same_modify fun o half _ hhalf => ?_
      cases half with
      | sending => rfl
      | receiving => exact absurd rfl (hother rfl hhalf)
  | done i len =>
      refine same_modify fun o half _ hhalf => ?_
      cases half with
      | sending => exact absurd rfl (hother rfl hhalf)
      | receiving =>
          refine data_input ?_
          show (Session.doWrite { o.sess with sendBuf := o.sess.sendBuf.drop len }).input = _
          rw [Session.doWrite_input]
          rfl
  | _ => exact Same.refl _ _

/-- An operation that gets bytes, or completes, changes what was received at most, and that only when a
read completes. -/
theorem complete_data {o : Obj} {act : SessionIo} {s : Session} {stack : List Call} (half : Half)
    (h : complete i o act = some (s, stack)) :
    s.data half = o.sess.data half ∨ (half = .receiving ∧ o.sess.reads ≠ []) := by
  cases act with
  | send k =>
      obtain ⟨⟨bytes, s'⟩, hsend, heq⟩ := Option.map_eq_some_iff.mp h
      obtain ⟨data, rest, -, -, -, -, rfl⟩ := Session.send_eq hsend
      cases heq
      exact Or.inl (by cases half <;> rfl)
  | sendDone =>
      simp only [complete] at h
      split at h
      · cases h; exact Or.inl (by cases half <;> rfl)
      · cases h
  | sendFail ec =>
      simp only [complete] at h
      split at h
      · cases h; exact Or.inl (by cases half <;> rfl)
      · cases h
  | recv bytes =>
      obtain ⟨s', hrecv, heq⟩ := Option.map_eq_some_iff.mp h
      obtain ⟨rest, -, -, -, rfl⟩ := Session.recv_eq hrecv
      cases heq
      exact Or.inl (by cases half <;> rfl)
  | recvDone =>
      simp only [complete] at h
      split at h
      · next bytes rest hr =>
        cases half with
        | receiving => exact Or.inr ⟨rfl, by rw [hr]; simp⟩
        | sending => split at h <;> cases h <;> exact Or.inl rfl
      · cases h
  | recvFail ec =>
      simp only [complete] at h
      split at h
      · cases h; exact Or.inl (by cases half <;> rfl)
      · cases h

/-! ### One worker for every region -/

/-- The calls that work on a region. -/
def workers (n : Server) (r : Region) : ℕ := n.calls.countP fun c => c.region = some r

theorem region_pool (c : Call) : c.region = some .pool ↔ c.holds = some .pool := by
  cases c with
  | accepted i pc => cases pc <;> simp [Call.region, Call.holds]
  | sessionWrite i bytes pc => cases pc <;> simp [Call.region, Call.holds]
  | writeDone i len locked => cases locked <;> simp [Call.region, Call.holds]
  | _ => simp [Call.region, Call.holds]

theorem region_sending (c : Call) (i : ℕ) :
    c.region = some (.session i .sending) ↔ c.holds = some (.send i) := by
  cases c with
  | accepted j pc => cases pc <;> simp [Call.region, Call.holds]
  | sessionWrite j bytes pc => cases pc <;> simp [Call.region, Call.holds]
  | writeDone j len locked => cases locked <;> simp [Call.region, Call.holds]
  | _ => simp [Call.region, Call.holds]

theorem region_receiving (c : Call) (i : ℕ) :
    c.region = some (.session i .receiving) ↔ c.reading i = true := by
  cases c with
  | accepted j pc => cases pc <;> simp [Call.region, Call.reading]
  | sessionWrite j bytes pc => cases pc <;> simp [Call.region, Call.reading]
  | writeDone j len locked => cases locked <;> simp [Call.region, Call.reading]
  | _ => simp [Call.region, Call.reading]

/-- Every region has one worker at most; and while what was received has one, no read is outstanding. -/
structure OneWorker (n : Server) : Prop where
  one : ∀ r, n.workers r ≤ 1
  reads : ∀ i o, n.sessions[i]? = some o →
    o.sess.reads.length + n.workers (.session i .receiving) ≤ 1

theorem oneWorker_of_run {acts : List ServerAct} (h : Run (Server.step cfg) Anything create acts n) :
    n.OneWorker := by
  have hreceiving : ∀ i, n.workers (.session i .receiving) = n.calls.countP (Call.reading i) := by
    intro i
    unfold workers
    exact List.countP_congr fun c _ => by simp [region_receiving]
  have hreaders : ∀ i, n.readers i ≤ 1 := by
    intro i
    have hloop := (loops_of_run h).2 i
    split at hloop <;> omega
  constructor
  · intro r
    cases r with
    | pool =>
        have hone := Exclusive.of_run h .pool
        unfold workers
        unfold Exclusive at hone
        simpa only [region_pool] using hone
    | session i half =>
        cases half with
        | sending =>
            have hone := Exclusive.of_run h (.send i)
            unfold workers
            unfold Exclusive at hone
            simpa only [region_sending] using hone
        | receiving =>
            have hle := hreaders i
            rw [hreceiving]
            unfold readers at hle
            omega
  · intro i o ho
    have hle := hreaders i
    rw [readers, reads_of_getElem? ho] at hle
    rw [hreceiving]
    exact hle

theorem mem_calls_of {u : ℕ} {stack : List Call} {d : Call} (hu : n.threads[u]? = some stack)
    (hd : d ∈ stack) : d ∈ n.calls :=
  List.mem_flatten.mpr ⟨stack, List.mem_of_getElem? hu, hd⟩

/-- Two threads do not work on one region. -/
theorem OneWorker.other (h : n.OneWorker) {t u : ℕ} {c d : Call} {stack stack' : List Call}
    (ht : n.threads[t]? = some stack) (hu : n.threads[u]? = some stack') (hne : t ≠ u)
    (hc : c ∈ stack) (hd : d ∈ stack') (hcr : c.region = some r) : d.region ≠ some r := by
  intro hdr
  have hone := h.one r
  have hperm := Slots.flatMap_set_perm id ht []
  have hcount := hperm.countP_eq fun c => decide (c.region = some r)
  have hother : stack' ∈ n.threads.set t [] := by
    have hget : (n.threads.set t [])[u]? = some stack' := by rw [List.getElem?_set_ne hne]; exact hu
    exact List.mem_of_getElem? hget
  have hpos : 0 < ((n.threads.set t []).flatMap id).countP fun c => decide (c.region = some r) :=
    List.countP_pos_iff.mpr ⟨d, List.mem_flatMap.mpr ⟨stack', hother, hd⟩, by simp [hdr]⟩
  have hpos' : 0 < stack.countP fun c => decide (c.region = some r) :=
    List.countP_pos_iff.mpr ⟨c, hc, by simp [hcr]⟩
  have hcalls : n.threads.flatMap id = n.calls := List.flatMap_id
  simp only [id_eq, List.nil_append, List.countP_append, hcalls] at hcount
  unfold workers at hone
  omega

/-! ### Whole runs -/

theorem TakesTurns.of_same (h : ∀ r, n.Same n' r) : n.TakesTurns a n' where
  threads r hr := absurd (h r) hr
  socket i _ _ hr := absurd (h (.session i .receiving)) hr

theorem OneWorker.run (h : n.OneWorker) {t : ℕ} {prog : List Api} {next : Option ℕ} {c : Call}
    {rest new : List Call} (hstack : n.threads[t]? = some (c :: rest)) (hen : n.Enabled c)
    (hexec : n.exec cfg prog next c = some (m, new)) :
    n.TakesTurns (.run t prog next) (sweep { m with threads := m.threads.set t (new ++ rest) }) := by
  have hchange : ∀ r, ¬ n.Same (sweep { m with threads := m.threads.set t (new ++ rest) }) r →
      c.region = some r ∨ (r = .pool ∧ c.wants = some .pool) := by
    intro r hr
    by_contra hnot
    obtain ⟨hregion, hlock⟩ := not_or.mp hnot
    have hsame : n.Same m r := exec_same hexec hregion fun hpool hwants => hlock ⟨hpool, hwants⟩
    exact hr ((hsame.trans (Same.of_eq rfl rfl r)).trans (same_sweep _ r))
  constructor
  · intro r hr u stack hu hne d hd
    rcases hchange r hr with hregion | ⟨rfl, hwants⟩
    · have htu : t ≠ u := by
        rintro rfl
        exact hne rfl
      exact h.other hstack hu htu List.mem_cons_self hd hregion
    · intro hdr
      exact hen .pool hwants d (mem_calls_of hu hd) ((region_pool d).mp hdr)
  · intro i o ho hr _
    rcases hchange _ hr with hregion | ⟨hpool, -⟩
    · have hreads := h.reads i o ho
      have hpos : 0 < n.workers (.session i .receiving) :=
        List.countP_pos_iff.mpr ⟨c, mem_calls hstack, by simp [hregion]⟩
      exact List.length_eq_zero_iff.mp (by omega)
    · cases hpool

theorem OneWorker.io (h : n.OneWorker) {act : SessionIo} {o : Obj} {s : Session} {stack : List Call}
    (ho : n.sessions[i]? = some o) (hcomplete : complete i o act = some (s, stack)) :
    n.TakesTurns (.io i act) ((n.onSess i fun _ => s).spawn stack) := by
  refine ⟨?_, fun _ _ _ _ ht => ?_⟩
  · intro r hr u stack' hu _ d hd hdr
    have hsame : n.Same ((n.onSess i fun _ => s).spawn stack) r := by
      have hdata : ∀ o' half, n.sessions[i]? = some o' → r = .session i half →
          s.data half = o'.sess.data half := by
        rintro o' half ho' rfl
        obtain rfl : o = o' := Option.some.inj (ho.symm.trans ho')
        rcases complete_data half hcomplete with hdata | ⟨rfl, hreads⟩
        · exact hdata
        · have hle := h.reads i o ho
          have hlen := List.length_pos_iff.mpr hreads
          have hpos : 0 < n.workers (.session i .receiving) :=
            List.countP_pos_iff.mpr ⟨d, mem_calls_of hu hd, by simp [hdr]⟩
          omega
      exact (same_modify hdata).trans (Same.of_eq rfl rfl r)
    exact hr hsame
  · obtain ⟨t, ht⟩ := ht
    cases ht

theorem OneWorker.step (h : n.OneWorker) (hstep : Step cfg n a n') : n.TakesTurns a n' := by
  cases hstep with
  | call c => exact .of_same fun r => Same.of_eq rfl rfl r
  | arrive hopen hpos => exact .of_same fun r => Same.of_eq rfl rfl r
  | @acceptDone a hpos hfresh =>
      refine .of_same fun r => ?_
      cases r with
      | pool => rfl
      | session i half =>
          intro o ho
          have hlt := (List.getElem?_eq_some_iff.mp ho).1
          refine ⟨o, ?_, rfl⟩
          show (n.sessions ++ [Obj.create a])[i]? = some o
          rw [List.getElem?_append_left hlt]
          exact ho
  | acceptFail message hpos => exact .of_same fun r => Same.of_eq rfl rfl r
  | io ho hcomplete => exact h.io ho hcomplete
  | run hstack hen hexec => exact h.run hstack hen hexec

/-- **One call at a time.**  In every state of every run, whatever the user calls from whichever thread: at
most one call of the library works on each region, and none on what a session has received while a read is
outstanding that would fill it; and a step changes a region only when no call of another thread works on
it. -/
theorem one_call_at_a_time {acts : List ServerAct}
    (h : Run (Server.step cfg) Anything create acts n) :
    n.OneWorker ∧ ∀ a n', n.step cfg a = some n' → n.TakesTurns a n' :=
  ⟨oneWorker_of_run h, fun _ _ hstep => (oneWorker_of_run h).step (.of_step hstep)⟩

/-- A broadcast holds the pool, while the handler of a packet is about to look at its frame. -/
def broadcastWhileReading : List ServerAct :=
  clientConnects ++ [.io 0 (.recv [1, 0, 0, 0, 0, 0, 0, 0, 5]), .io 0 .recvDone,
    .call (.broadcast [0] [9]), .run 3 [] none]

theorem isSome_broadcastWhileReading :
    (Transition.exec (Server.step .shipped) create broadcastWhileReading).isSome := by
  decide +kernel

/-- The turn of the loop changes what was received; the broadcast goes on with the pool. -/
theorem one_call_at_a_time_reading :
    ∃ n n', Run (Server.step .shipped) Anything create broadcastWhileReading n ∧
      n.step .shipped (.run 2 [] none) = some n' ∧
      n.calls.map Call.region = [some (.session 0 .receiving), some .pool] ∧
      n.OneWorker ∧ n.TakesTurns (.run 2 [] none) n' := by
  have h := Run.of_exec (Server.step .shipped) create broadcastWhileReading
    isSome_broadcastWhileReading
  have hturn : (((Transition.exec (Server.step .shipped) create broadcastWhileReading).get
      isSome_broadcastWhileReading).step .shipped (.run 2 [] none)).isSome := by decide +kernel
  obtain ⟨n', hstep⟩ := Option.isSome_iff_exists.mp hturn
  obtain ⟨hworker, hturns⟩ := one_call_at_a_time h
  exact ⟨_, n', h, hstep, by decide +kernel, hworker, hturns _ _ hstep⟩

end Server

end AsioTcpFrame
