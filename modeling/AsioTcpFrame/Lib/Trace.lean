import Mathlib.Data.List.Basic
import Mathlib.Data.List.Pairwise
import Mathlib.Tactic.Common

/-! # Orders of events in a trace

A trace grows at its end.  `NeverAfter P Q tr`: no `Q` comes after a `P`.  `Preceded P Q tr`:
before every `Q` there is a `P`.  The lemmas say when appending one event keeps them. -/

namespace Trace

variable {α : Type*} {P Q : α → Prop} {tr : List α} {x : α}

/-- No event with `Q` comes after one with `P`. -/
def NeverAfter (P Q : α → Prop) (tr : List α) : Prop := tr.Pairwise fun x y => P x → ¬ Q y

/-- Every event with `Q` comes after one with `P`. -/
def Preceded (P Q : α → Prop) (tr : List α) : Prop :=
  ∀ pre y post, tr = pre ++ y :: post → Q y → ∃ x ∈ pre, P x

theorem neverAfter_nil : NeverAfter P Q [] := List.Pairwise.nil

theorem neverAfter_snoc :
    NeverAfter P Q (tr ++ [x]) ↔ NeverAfter P Q tr ∧ (Q x → ∀ y ∈ tr, ¬ P y) := by
  simp only [NeverAfter, List.pairwise_append, List.pairwise_singleton, List.mem_singleton,
    forall_eq, true_and]
  exact and_congr_right fun _ => ⟨fun h hx y hy hP => h y hy hP hx, fun h y hy hP hx => h hx y hy hP⟩

theorem preceded_nil : Preceded P Q [] := by
  intro pre y post h
  simp at h

theorem preceded_snoc :
    Preceded P Q (tr ++ [x]) ↔ Preceded P Q tr ∧ (Q x → ∃ y ∈ tr, P y) := by
  constructor
  · intro h
    exact ⟨fun pre y post e => h pre y (post ++ [x]) (by rw [e]; simp), h tr x [] rfl⟩
  · rintro ⟨h, hx⟩ pre y post e
    rcases List.eq_nil_or_concat post with rfl | ⟨post', z, rfl⟩
    · obtain ⟨rfl, hxy⟩ := List.append_inj' e rfl
      cases hxy
      exact hx
    · rw [List.concat_eq_append, ← List.cons_append, ← List.append_assoc] at e
      obtain ⟨e, -⟩ := List.append_inj' e rfl
      exact h pre y post' e

end Trace
