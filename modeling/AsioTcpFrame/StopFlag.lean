import AsioTcpFrame.Lib.Slots
import AsioTcpFrame.Lib.Trace
import AsioTcpFrame.Lib.Transition

/-! # A mutex as a stop flag

`stop_mtx` is locked by the constructor, and unlocked by `stop`.  Whether a session is stopped
is tested with `try_lock`: when it succeeds the session is stopped, and the mutex is unlocked
again.  So a test takes the flag for a moment, and `stop` begins with a test too.

`StopFlag` is the mutex as a cell with the threads that use it; `try_lock` and `unlock` are one
step each.  The flag does what it should in every run in which no thread begins a test while
another is between its `try_lock` and its `unlock`, and no thread begins `stop` while another
is between the two in `stop` (`Undisturbed`).  The runs at the end show what goes wrong when
tests overlap, and when two calls of `stop` do. -/

namespace AsioTcpFrame

open Transition Trace

/-- Where a thread is: outside; after a `try_lock` that succeeded, about to unlock and return; in
`stop` after a `try_lock` that failed, about to unlock; in `stop`, about to shut down and close
the socket. -/
inductive StopPc where
  | idle
  | leaving
  | stopping
  | closing
deriving DecidableEq, Repr

/-- What happened: a test was answered; `stop` has unlocked the flag; the socket was shut down and
closed; a mutex that was not locked was unlocked. -/
inductive StopEvent where
  | answer (stopped : Bool)
  | stopUnlock
  | close
  | unlockFree
deriving DecidableEq, Repr

structure StopFlag where
  held : Bool
  threads : List StopPc
  trace : List StopEvent
deriving DecidableEq, Repr

/-- A thread begins the test of `write`, `doRead`, `doWrite` or a handler, or begins `stop`, or
takes its next step. -/
inductive StopAct where
  | test (t : ℕ)
  | stop (t : ℕ)
  | next (t : ℕ)
deriving DecidableEq, Repr

namespace StopFlag

/-- The flag of a session that was just made, with `threads` threads outside of it. -/
def create (threads : ℕ) : StopFlag := ⟨true, List.replicate threads .idle, []⟩

def goOn (n : StopFlag) (t : ℕ) (pc : StopPc) : StopFlag :=
  { n with threads := n.threads.set t pc }

def see (n : StopFlag) (e : StopEvent) : StopFlag := { n with trace := n.trace ++ [e] }

/-- `stop_mtx.unlock()`. -/
def unlock (n : StopFlag) : StopFlag :=
  if n.held then { n with held := false } else n.see .unlockFree

def step (n : StopFlag) : StopAct → Option StopFlag
  | .test t =>
      match n.threads[t]? with
      | some .idle =>
          if n.held then some (n.see (.answer false))
          else some (({ n with held := true }.see (.answer true)).goOn t .leaving)
      | _ => none
  | .stop t =>
      match n.threads[t]? with
      | some .idle =>
          if n.held then some (n.goOn t .stopping)
          else some ({ n with held := true }.goOn t .leaving)
      | _ => none
  | .next t =>
      match n.threads[t]? with
      | some .leaving => some (n.unlock.goOn t .idle)
      | some .stopping => some ((n.unlock.see .stopUnlock).goOn t .closing)
      | some .closing => some ((n.see .close).goOn t .idle)
      | _ => none

/-- Everything a step can do. -/
inductive Step (n : StopFlag) : StopAct → StopFlag → Prop
  | running {t : ℕ} : n.threads[t]? = some .idle → n.held = true →
      Step n (.test t) (n.see (.answer false))
  | stopped {t : ℕ} : n.threads[t]? = some .idle → n.held = false →
      Step n (.test t) (({ n with held := true }.see (.answer true)).goOn t .leaving)
  | stop {t : ℕ} : n.threads[t]? = some .idle → n.held = true →
      Step n (.stop t) (n.goOn t .stopping)
  | stopAgain {t : ℕ} : n.threads[t]? = some .idle → n.held = false →
      Step n (.stop t) ({ n with held := true }.goOn t .leaving)
  | leave {t : ℕ} : n.threads[t]? = some .leaving → Step n (.next t) (n.unlock.goOn t .idle)
  | unlock {t : ℕ} : n.threads[t]? = some .stopping →
      Step n (.next t) ((n.unlock.see .stopUnlock).goOn t .closing)
  | close {t : ℕ} : n.threads[t]? = some .closing →
      Step n (.next t) ((n.see .close).goOn t .idle)

variable {n n' : StopFlag} {a : StopAct}

theorem Step.of_step (h : n.step a = some n') : Step n a n' := by
  cases a with
  | test t =>
      simp only [StopFlag.step] at h
      split at h
      · next hpc =>
        split at h
        · next hheld => cases h; exact .running hpc hheld
        · next hheld => cases h; exact .stopped hpc (by simpa using hheld)
      · cases h
  | stop t =>
      simp only [StopFlag.step] at h
      split at h
      · next hpc =>
        split at h
        · next hheld => cases h; exact .stop hpc hheld
        · next hheld => cases h; exact .stopAgain hpc (by simpa using hheld)
      · cases h
  | next t =>
      simp only [StopFlag.step] at h
      split at h
      · next hpc => cases h; exact .leave hpc
      · next hpc => cases h; exact .unlock hpc
      · next hpc => cases h; exact .close hpc
      · cases h

/-- A `try_lock` is not made while another thread is about to undo a `try_lock`, and `stop` not
while another thread in `stop` is about to unlock. -/
def Undisturbed (n : StopFlag) : StopAct → Prop
  | .test _ => .leaving ∉ n.threads
  | .stop _ => .leaving ∉ n.threads ∧ .stopping ∉ n.threads
  | .next _ => True

instance (n : StopFlag) (a : StopAct) : Decidable (Undisturbed n a) := by
  cases a <;> unfold Undisturbed <;> infer_instance

/-- What the flag is for: after the unlock of a `stop` no test says "running", the socket is
closed at most once, and no unlocked mutex is unlocked. -/
structure Monotone (n : StopFlag) : Prop where
  stopped : NeverAfter (· = .stopUnlock) (· = .answer false) n.trace
  once : n.trace.count .close ≤ 1
  owned : .unlockFree ∉ n.trace

/-- What holds in every state of an undisturbed run: at most one `stop` unlocks, and it closes
the socket; the flag is held until it does, and after that only by the thread that tests it. -/
structure Inv (n : StopFlag) : Prop where
  order : NeverAfter (· = .stopUnlock) (· = .answer false) n.trace
  owned : .unlockFree ∉ n.trace
  one : n.trace.count .stopUnlock + n.threads.count .stopping ≤ 1
  close : n.trace.count .close + n.threads.count .closing = n.trace.count .stopUnlock
  testers : n.threads.count .leaving ≤ n.trace.count .stopUnlock
  held : n.held = true ↔ n.trace.count .stopUnlock = n.threads.count .leaving

theorem inv_create (threads : ℕ) : Inv (create threads) where
  order := neverAfter_nil
  owned := List.not_mem_nil
  one := by simp [create, List.count_replicate]
  close := by simp [create, List.count_replicate]
  testers := by simp [create, List.count_replicate]
  held := by simp [create, List.count_replicate]

/-- The threads that are at `x` when one of them goes from `pc` to `pc'`. -/
theorem count_set {ts : List StopPc} {t : ℕ} {pc : StopPc} (h : ts[t]? = some pc)
    (pc' x : StopPc) :
    (ts.set t pc').count x + (if pc = x then 1 else 0) =
      ts.count x + if pc' = x then 1 else 0 := by
  have hcount := Slots.countP_set_add (p := (· == x)) h pc'
  have hnat : ∀ y : StopPc, (y == x).toNat = if y = x then 1 else 0 := by
    intro y
    by_cases hy : y = x <;> simp [hy]
  rw [hnat, hnat] at hcount
  exact hcount

theorem counts_goOn {t : ℕ} {pc : StopPc} (h : n.threads[t]? = some pc) (pc' : StopPc) :
    (n.threads.set t pc').count .stopping + (if pc = .stopping then 1 else 0) =
        n.threads.count .stopping + (if pc' = .stopping then 1 else 0) ∧
      (n.threads.set t pc').count .closing + (if pc = .closing then 1 else 0) =
        n.threads.count .closing + (if pc' = .closing then 1 else 0) ∧
      (n.threads.set t pc').count .leaving + (if pc = .leaving then 1 else 0) =
        n.threads.count .leaving + (if pc' = .leaving then 1 else 0) :=
  ⟨count_set h pc' _, count_set h pc' _, count_set h pc' _⟩

theorem unlock_held (h : n.held = true) : n.unlock = { n with held := false } := if_pos h

theorem Inv.step (h : Inv n) (hG : Undisturbed n a) (hstep : Step n a n') : Inv n' := by
  obtain ⟨horder, howned, hone, hclose, htesters, hheld⟩ := h
  cases hstep with
  | running hpc hrun =>
      have hnone : n.threads.count .leaving = 0 := List.count_eq_zero.mpr hG
      have hzero : n.trace.count .stopUnlock = 0 := by rw [hheld.mp hrun, hnone]
      refine ⟨neverAfter_snoc.mpr ⟨horder, fun _ y hy hyu => ?_⟩, ?_, ?_, ?_, ?_, ?_⟩
      · exact List.count_eq_zero.mp hzero (hyu ▸ hy)
      · simpa [see] using howned
      · simpa [see] using hone
      · simpa [see] using hclose
      · simpa [see] using htesters
      · simpa [see] using hheld
  | stopped hpc hfree =>
      have hnone : n.threads.count .leaving = 0 := List.count_eq_zero.mpr hG
      have hsome : n.trace.count .stopUnlock ≠ 0 := fun h => by
        rw [hheld.mpr (h.trans hnone.symm)] at hfree; cases hfree
      obtain ⟨hs, hc, hl⟩ := counts_goOn hpc .leaving
      refine ⟨neverAfter_snoc.mpr ⟨horder, fun hx => by cases hx⟩, ?_, ?_, ?_, ?_, ?_⟩
      · simpa [see, goOn] using howned
      all_goals simp [see, goOn] at hs hc hl ⊢; omega
  | stop hpc hrun =>
      obtain ⟨hleaving, hstopping⟩ := hG
      have hnone : n.threads.count .leaving = 0 := List.count_eq_zero.mpr hleaving
      have hnostop : n.threads.count .stopping = 0 := List.count_eq_zero.mpr hstopping
      have hzero : n.trace.count .stopUnlock = 0 := by rw [hheld.mp hrun, hnone]
      obtain ⟨hs, hc, hl⟩ := counts_goOn hpc .stopping
      refine ⟨horder, howned, ?_, ?_, ?_, ?_⟩
      all_goals simp [goOn, hrun] at hs hc hl ⊢; omega
  | stopAgain hpc hfree =>
      have hnone : n.threads.count .leaving = 0 := List.count_eq_zero.mpr hG.1
      have hsome : n.trace.count .stopUnlock ≠ 0 := fun h => by
        rw [hheld.mpr (h.trans hnone.symm)] at hfree; cases hfree
      obtain ⟨hs, hc, hl⟩ := counts_goOn hpc .leaving
      refine ⟨horder, howned, ?_, ?_, ?_, ?_⟩
      all_goals simp [goOn] at hs hc hl ⊢; omega
  | leave hpc =>
      have hpos : 0 < n.threads.count .leaving := List.count_pos_iff.mpr (List.mem_of_getElem? hpc)
      obtain ⟨hs, hc, hl⟩ := counts_goOn hpc .idle
      rw [unlock_held (hheld.mpr (by omega))]
      refine ⟨horder, howned, ?_, ?_, ?_, ?_⟩
      all_goals simp [goOn] at hs hc hl ⊢; omega
  | unlock hpc =>
      have hpos : 0 < n.threads.count .stopping := List.count_pos_iff.mpr (List.mem_of_getElem? hpc)
      obtain ⟨hs, hc, hl⟩ := counts_goOn hpc .closing
      rw [unlock_held (hheld.mpr (by omega))]
      refine ⟨neverAfter_snoc.mpr ⟨horder, fun hx => by cases hx⟩, ?_, ?_, ?_, ?_, ?_⟩
      · simpa [see, goOn] using howned
      all_goals simp [see, goOn] at hs hc hl ⊢; omega
  | close hpc =>
      obtain ⟨hs, hc, hl⟩ := counts_goOn hpc .idle
      refine ⟨neverAfter_snoc.mpr ⟨horder, fun hx => by cases hx⟩, ?_, ?_, ?_, ?_,
        hheld.trans ?_⟩
      · simpa [see, goOn] using howned
      all_goals simp [see, goOn] at hs hc hl ⊢; omega

theorem Inv.of_run {threads : ℕ} {acts : List StopAct}
    (h : Run StopFlag.step Undisturbed (create threads) acts n) : Inv n := by
  apply h.invariant (inv_create threads)
  intro n a n' hI hG hstep
  exact hI.step hG (Step.of_step hstep)

/-- **The flag is a Boolean** in every undisturbed run: a test says whether `stop` has unlocked it.
This is `Session.stopped`. -/
theorem test_answer {threads t : ℕ} {acts : List StopAct}
    (h : Run StopFlag.step Undisturbed (create threads) acts n) (hG : Undisturbed n (.test t))
    (hstep : n.step (.test t) = some n') :
    n'.trace = n.trace ++ [.answer (decide (.stopUnlock ∈ n.trace))] := by
  have hheld := (Inv.of_run h).held
  have hnone : n.threads.count .leaving = 0 := List.count_eq_zero.mpr hG
  rw [hnone, List.count_eq_zero] at hheld
  cases Step.of_step hstep with
  | running hpc hrun => rw [decide_eq_false (hheld.mp hrun)]; rfl
  | stopped hpc hfree =>
      have hmem : .stopUnlock ∈ n.trace := by
        by_contra hout
        rw [hheld.mpr hout] at hfree
        cases hfree
      rw [decide_eq_true hmem]
      rfl

/-- **The flag is monotone** in every undisturbed run, of any number of threads. -/
theorem monotone {threads : ℕ} {acts : List StopAct}
    (h : Run StopFlag.step Undisturbed (create threads) acts n) : n.Monotone := by
  have hI := Inv.of_run h
  have hone := hI.one
  have hclose := hI.close
  exact ⟨hI.order, by omega, hI.owned⟩

/-- A test, a `stop`, and a test and a `stop` after it. -/
theorem monotone_stop :
    ∃ n, Run StopFlag.step Undisturbed (create 2)
        [.test 0, .stop 1, .test 0, .next 1, .test 0, .next 1, .next 0, .stop 0, .next 0] n ∧
      n.trace = [.answer false, .answer false, .stopUnlock, .answer true, .close] ∧
      n.Monotone := by
  have h := Run.of_execWhen StopFlag.step Undisturbed (create 2)
    [.test 0, .stop 1, .test 0, .next 1, .test 0, .next 1, .next 0, .stop 0, .next 0] (by decide)
  exact ⟨_, h, by decide, monotone h⟩

/-- Two tests that overlap: after `stop` the second one says "running".  Two calls of `stop` that
overlap: the socket is closed twice, and a mutex is unlocked that is not locked. -/
theorem not_monotone :
    (∃ n, Run StopFlag.step Anything (create 2)
        [.stop 0, .next 0, .next 0, .test 0, .test 1] n ∧
      ¬ NeverAfter (· = .stopUnlock) (· = .answer false) n.trace ∧ ¬ n.Monotone) ∧
    (∃ n, Run StopFlag.step Anything (create 2)
        [.stop 0, .stop 1, .next 0, .next 1, .next 0, .next 1] n ∧
      n.trace.count .close = 2 ∧ .unlockFree ∈ n.trace ∧ ¬ n.Monotone) := by
  constructor
  · have h := Run.of_exec StopFlag.step (create 2) [.stop 0, .next 0, .next 0, .test 0, .test 1]
      (by decide)
    have horder : ¬ NeverAfter (· = .stopUnlock) (· = .answer false)
        [StopEvent.stopUnlock, .close, .answer true, .answer false] := by
      unfold NeverAfter; decide
    exact ⟨_, h, horder, fun hm => horder hm.stopped⟩
  · have h := Run.of_exec StopFlag.step (create 2)
      [.stop 0, .stop 1, .next 0, .next 1, .next 0, .next 1] (by decide)
    exact ⟨_, h, by decide, by decide, fun hm => absurd hm.once (by decide)⟩

end StopFlag

end AsioTcpFrame
