import Mathlib.Data.List.Basic
import Mathlib.Data.List.Count
import Mathlib.Data.List.Perm.Basic
import Mathlib.Algebra.Order.BigOperators.Group.List
import Mathlib.Algebra.Ring.Nat
import Mathlib.Tactic.Common

/-! # Counting in a list whose slots change

A list of running things changes one slot at a time: a slot gets another content (`List.set`) or
goes away (`List.eraseIdx`); or, when the order does not matter, some things go and others come
(`r ++ l' ~ s ++ l`).  The lemmas follow the number of slots with a property. -/

namespace Slots

open scoped List

variable {α : Type*} {p : α → Bool} {l : List α} {i : ℕ} {x y : α}

theorem countP_set_add (h : l[i]? = some x) (y : α) :
    (l.set i y).countP p + (p x).toNat = l.countP p + (p y).toNat := by
  induction l generalizing i with
  | nil => simp at h
  | cons z l ih =>
      cases i with
      | zero =>
          obtain rfl : z = x := by simpa using h
          simp only [List.set_cons_zero, List.countP_cons]
          cases p z <;> cases p y <;> simp
      | succ i =>
          have := ih (i := i) (by simpa using h)
          simp only [List.set_cons_succ, List.countP_cons]
          omega

theorem countP_eraseIdx_add (h : l[i]? = some x) :
    (l.eraseIdx i).countP p + (p x).toNat = l.countP p := by
  obtain ⟨hi, rfl⟩ := List.getElem?_eq_some_iff.mp h
  rw [← (List.getElem_cons_eraseIdx_perm hi).countP_eq p, List.countP_cons]
  cases p l[i] <;> simp

/-- What the slots hold together, when one of them gets another content. -/
theorem flatMap_set_perm {β : Type*} (f : α → List β) (h : l[i]? = some x) (y : α) :
    f x ++ (l.set i y).flatMap f ~ f y ++ l.flatMap f := by
  obtain ⟨hi, rfl⟩ := List.getElem?_eq_some_iff.mp h
  have hset : (l.set i y).flatMap f ~ f y ++ (l.eraseIdx i).flatMap f :=
    (List.set_perm_cons_eraseIdx hi y).flatMap_right f
  have hold : f l[i] ++ (l.eraseIdx i).flatMap f ~ l.flatMap f :=
    (List.getElem_cons_eraseIdx_perm hi).flatMap_right f
  calc f l[i] ++ (l.set i y).flatMap f
      _ ~ f l[i] ++ (f y ++ (l.eraseIdx i).flatMap f) := hset.append_left _
      _ ~ f y ++ (f l[i] ++ (l.eraseIdx i).flatMap f) := List.perm_append_comm_assoc _ _ _
      _ ~ f y ++ l.flatMap f := hold.append_left _

theorem flatMap_eraseIdx_perm {β : Type*} (f : α → List β) (h : l[i]? = some x) :
    f x ++ (l.eraseIdx i).flatMap f ~ l.flatMap f := by
  obtain ⟨hi, rfl⟩ := List.getElem?_eq_some_iff.mp h
  exact (List.getElem_cons_eraseIdx_perm hi).flatMap_right f

/-- The things of `r` go and those of `s` come. -/
theorem countP_exchange {r s l l' : List α} (h : r ++ l' ~ s ++ l) (p : α → Bool) :
    r.countP p + l'.countP p = s.countP p + l.countP p := by
  rw [← List.countP_append, ← List.countP_append, h.countP_eq]

/-- The things with a property, when nothing with it goes. -/
theorem filter_exchange {s l l' : List α} (h : x :: l' ~ s ++ l) (hx : p x = false) :
    l'.filter p ~ s.filter p ++ l.filter p := by
  have hfilter := h.filter p
  rwa [List.filter_cons_of_neg (by simp [hx]), List.filter_append] at hfilter

theorem filter_exchange_of_eq {s l l' : List α} (h : x :: l' ~ s ++ l) (hl : l.filter p = [x]) :
    l'.filter p ~ s.filter p := by
  have hx : p x = true := List.of_mem_filter (hl ▸ List.mem_singleton_self x)
  have hfilter := h.filter p
  rw [List.filter_cons_of_pos hx, List.filter_append, hl] at hfilter
  exact (List.perm_cons x).mp (hfilter.trans (List.perm_append_singleton x _))

theorem eq_of_perm_of_length_le_one {l l' : List α} (h : l' ~ l) (hl : l.length ≤ 1) : l' = l := by
  match l, hl with
  | [], _ => exact List.perm_nil.mp h
  | [_], _ => exact List.perm_singleton.mp h

/-- What the slots weigh together, when `new` takes the place of `x`. -/
theorem sum_exchange {s l l' : List α} (h : x :: l' ~ s ++ l) (w : α → ℕ) :
    w x + (l'.map w).sum = (s.map w).sum + (l.map w).sum := by
  have hsum := (h.map w).sum_eq
  rwa [List.map_cons, List.sum_cons, List.map_append, List.sum_append] at hsum

theorem sum_modify (h : l[i]? = some x) (f : α → α) (w : α → ℕ) :
    ((l.modify i f).map w).sum + w x = (l.map w).sum + w (f x) := by
  induction l generalizing i with
  | nil => simp at h
  | cons z l ih =>
      cases i with
      | zero =>
          obtain rfl : z = x := by simpa using h
          simp only [List.modify_zero_cons, List.map_cons, List.sum_cons]
          omega
      | succ i =>
          have := ih (i := i) (by simpa using h)
          simp only [List.modify_succ_cons, List.map_cons, List.sum_cons]
          omega

theorem sum_modify_le (l : List α) (i : ℕ) (f : α → α) (w : α → ℕ) (hw : ∀ x, w (f x) ≤ w x) :
    ((l.modify i f).map w).sum ≤ (l.map w).sum := by
  cases hi : l[i]? with
  | none =>
      have hself : l.modify i f = l := List.modify_eq_self (List.getElem?_eq_none_iff.mp hi)
      simp only [hself, Nat.le_refl]
  | some x =>
      have hsum := sum_modify hi f w
      have := hw x
      omega

theorem mem_of_exchange {l l' : List α} (h : x :: l' ~ y :: l) (hne : x ≠ y) : x ∈ l :=
  (List.mem_cons.mp (h.mem_iff.mp (List.mem_cons_self ..))).resolve_left hne

theorem mem_eraseIdx_of_ne (hx : x ∈ l) (h : l[i]? = some y) (hne : x ≠ y) : x ∈ l.eraseIdx i := by
  obtain ⟨hi, rfl⟩ := List.getElem?_eq_some_iff.mp h
  have hmem := (List.getElem_cons_eraseIdx_perm hi).mem_iff.mpr hx
  exact (List.mem_cons.mp hmem).resolve_left hne

theorem mem_set_of_ne (hx : x ∈ l) (h : l[i]? = some y) (hne : x ≠ y) (z : α) : x ∈ l.set i z := by
  obtain ⟨hi, -⟩ := List.getElem?_eq_some_iff.mp h
  exact (List.set_perm_cons_eraseIdx hi z).mem_iff.mpr
    (List.mem_cons_of_mem _ (mem_eraseIdx_of_ne hx h hne))

theorem eq_of_countP_le_one (h : l.countP p ≤ 1) (hx : x ∈ l) (hy : y ∈ l) (hpx : p x = true)
    (hpy : p y = true) : x = y := by
  induction l with
  | nil => cases hx
  | cons a l ih =>
      rw [List.countP_cons] at h
      by_cases ha : p a = true
      · have hnone : ∀ z ∈ l, ¬ p z = true :=
          List.countP_eq_zero.mp (by simp [ha] at h; simpa using h)
        have hax : x = a := by
          rcases List.mem_cons.mp hx with rfl | hx
          · rfl
          · exact absurd hpx (hnone x hx)
        have hay : y = a := by
          rcases List.mem_cons.mp hy with rfl | hy
          · rfl
          · exact absurd hpy (hnone y hy)
        rw [hax, hay]
      · rcases List.mem_cons.mp hx with rfl | hx
        · exact absurd hpx ha
        · rcases List.mem_cons.mp hy with rfl | hy
          · exact absurd hpy ha
          · exact ih (by simpa [ha] using h) hx hy

theorem eq_singleton_of_mem (h : l.length ≤ 1) (hx : x ∈ l) : l = [x] := by
  obtain ⟨y, rfl⟩ := List.length_eq_one_iff.mp (Nat.le_antisymm h (List.length_pos_of_mem hx))
  rw [List.mem_singleton.mp hx]

end Slots
