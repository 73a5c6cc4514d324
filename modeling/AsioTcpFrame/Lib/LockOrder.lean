import Mathlib.Logic.Relation
import Mathlib.Order.Basic
import Mathlib.Tactic.Common

/-! # Locks taken in order

Threads hold locks and wait for locks.  When every thread waits only for locks that come, in
some order of the locks, strictly after all those it holds, no set of threads waits in a cycle
(`no_wait_cycle`); in particular no thread waits for a lock it holds itself, which is the cycle
of length one.  And from a thread that waits, following those it waits for leads to one that does not
(`exists_ready`), when no lock has more than `b` locks before it. -/

namespace LockOrder

variable {T L R : Type*} (wants holds : T → L → Prop)

/-- `t` waits for a lock that `u` holds. -/
def WaitsFor (t u : T) : Prop := ∃ l, wants t l ∧ holds u l

variable {wants holds} {t u : T}

section order
variable [Preorder R] (rank : L → R)

/-- Along a chain of waiting threads the locks that are waited for rise. -/
theorem rank_le_of_waits (h : ∀ t l l', wants t l → holds t l' → rank l' < rank l)
    (hw : Relation.TransGen (WaitsFor wants holds) t u) :
    ∃ l l', wants t l ∧ holds u l' ∧ rank l ≤ rank l' := by
  induction hw with
  | single hw =>
      obtain ⟨l, hl, hl'⟩ := hw
      exact ⟨l, l, hl, hl', le_refl _⟩
  | tail _ hw ih =>
      obtain ⟨l, l', hl, hl', hle⟩ := ih
      obtain ⟨m, hm, hm'⟩ := hw
      exact ⟨l, m, hl, hm', hle.trans (h _ _ _ hm hl').le⟩

/-- **No cycle**: threads that take locks in order never wait in a circle. -/
theorem no_wait_cycle (h : ∀ t l l', wants t l → holds t l' → rank l' < rank l) (t : T) :
    ¬ Relation.TransGen (WaitsFor wants holds) t t := by
  intro hw
  obtain ⟨l, l', hl, hl', hle⟩ := rank_le_of_waits rank h hw
  exact absurd (h t l l' hl hl') (not_lt_of_ge hle)

end order

/-- **Somebody can go on**: from every thread the threads that it waits for lead to one that waits for
nobody. -/
theorem exists_ready {rank : L → ℕ} {b : ℕ} (hb : ∀ l, rank l ≤ b)
    (h : ∀ t l l', wants t l → holds t l' → rank l' < rank l) (t : T) :
    ∃ u, Relation.ReflTransGen (WaitsFor wants holds) t u ∧ ∀ v, ¬ WaitsFor wants holds u v := by
  -- the locks that are waited for rise along the way, and they cannot rise for ever
  have hholder : ∀ k u l, holds u l → b - rank l = k → ∃ v,
      Relation.ReflTransGen (WaitsFor wants holds) u v ∧ ∀ w, ¬ WaitsFor wants holds v w := by
    intro k
    induction k using Nat.strongRecOn with
    | ind k ih =>
        intro u l hl hk
        by_cases hready : ∀ v, ¬ WaitsFor wants holds u v
        · exact ⟨u, .refl, hready⟩
        · push Not at hready
          obtain ⟨v, hv⟩ := hready
          obtain ⟨l', hw, hh⟩ := id hv
          have hlt := h u l' l hw hl
          have hle := hb l'
          obtain ⟨w, hvw, hw⟩ := ih (b - rank l') (by omega) v l' hh rfl
          exact ⟨w, .head hv hvw, hw⟩
  by_cases hready : ∀ v, ¬ WaitsFor wants holds t v
  · exact ⟨t, .refl, hready⟩
  · push Not at hready
    obtain ⟨u, hu⟩ := hready
    obtain ⟨l, -, hh⟩ := id hu
    obtain ⟨v, huv, hv⟩ := hholder _ u l hh rfl
    exact ⟨v, .head hu huv, hv⟩

end LockOrder
