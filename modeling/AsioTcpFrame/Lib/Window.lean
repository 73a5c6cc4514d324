import Mathlib.Data.List.Basic
import Mathlib.Tactic.Common

/-! # Windows of an array

`window l off n` are the `n` entries of `l` from `off` on, and `overwrite l off xs` is `l` with
`xs` written there, as `memcpy` and `memmove` do it.  The lemmas say what a window sees of a
write: all of it, or nothing when it ends before the write begins or begins where it ends. -/

namespace Window

variable {α : Type*} {l r xs : List α} {off n m k : ℕ}

/-- The `n` entries from `off` on. -/
def window (l : List α) (off n : ℕ) : List α := (l.drop off).take n

/-- `xs` written at `off`. -/
def overwrite (l : List α) (off : ℕ) (xs : List α) : List α :=
  l.take off ++ xs ++ l.drop (off + xs.length)

theorem length_window (h : off + n ≤ l.length) : (window l off n).length = n := by
  simp [window]; omega

theorem length_overwrite (h : off + xs.length ≤ l.length) :
    (overwrite l off xs).length = l.length := by
  simp [overwrite]; omega

theorem window_add (l : List α) (off m n : ℕ) :
    window l off (m + n) = window l off m ++ window l (off + m) n := by
  simp only [window, List.take_add, List.drop_drop]

theorem drop_window (l : List α) (off n k : ℕ) :
    (window l off n).drop k = window l (off + k) (n - k) := by
  simp only [window, List.drop_take, List.drop_drop]

theorem take_window (h : k ≤ n) : (window l off n).take k = window l off k := by
  rw [window, window, List.take_take, Nat.min_eq_left h]

theorem window_append (h : off + n ≤ l.length) : window (l ++ r) off n = window l off n := by
  have hoff : off ≤ l.length := by omega
  have hn : n ≤ (l.drop off).length := by simp; omega
  simp only [window, List.drop_append_of_le_length hoff, List.take_append_of_le_length hn]

/-- What was written is seen. -/
theorem window_overwrite (h : off ≤ l.length) : window (overwrite l off xs) off xs.length = xs := by
  have hlen : (l.take off).length = off := List.length_take_of_le h
  have hdrop : (overwrite l off xs).drop off = xs ++ l.drop (off + xs.length) := by
    rw [overwrite, List.append_assoc, List.drop_append_of_le_length (by omega),
      List.drop_of_length_le (by omega), List.nil_append]
  rw [window, hdrop, List.take_left']
  rfl

theorem overwrite_self (h : window l off xs.length = xs) : overwrite l off xs = l := by
  have hsplit := List.take_append_drop xs.length (l.drop off)
  rw [List.drop_drop] at hsplit
  unfold window at h
  rw [h] at hsplit
  rw [overwrite, List.append_assoc, hsplit, List.take_append_drop]

/-- A window that ends before the write does not see it. -/
theorem window_overwrite_of_le (h : k + n ≤ off) (hoff : off ≤ l.length) :
    window (overwrite l off xs) k n = window l k n := by
  have hlen : (l.take off).length = off := List.length_take_of_le hoff
  have hsplit : l.take off ++ l.drop off = l := List.take_append_drop off l
  rw [overwrite, List.append_assoc, window_append (by omega)]
  conv_rhs => rw [← hsplit]
  rw [window_append (by omega)]

theorem window_overwrite_of_ge (h : off + xs.length ≤ k) (hoff : off ≤ l.length) :
    window (overwrite l off xs) k n = window l k n := by
  have hlen : (l.take off).length = off := List.length_take_of_le hoff
  have hpre : (l.take off ++ xs).length = off + xs.length := by simp [hlen]
  have hk : off + xs.length + (k - (off + xs.length)) = k := by omega
  rw [window, overwrite, List.drop_append, hpre, List.drop_of_length_le (by omega),
    List.nil_append, List.drop_drop, hk, window]

/-- What a window sees when its entries, or others in their place, were written to the front: those
of them behind the beginning of the window, and then its own last ones. -/
theorem window_overwrite_front (hxs : xs.length = n) :
    window (overwrite l 0 xs) off n = xs.drop off ++ (window l off n).drop (n - off) := by
  have hfront : window (overwrite l 0 xs) 0 n = xs := by
    rw [← hxs]; exact window_overwrite (Nat.zero_le _)
  by_cases hoff : off ≤ n
  · have hsplit : n = (n - off) + off := by omega
    have hmid : off + (n - off) = n := by omega
    have hseen : window (overwrite l 0 xs) off (n - off) = xs.drop off := by
      have hdrop := drop_window (overwrite l 0 xs) 0 n off
      rw [hfront, Nat.zero_add] at hdrop
      exact hdrop.symm
    have hrest : window (overwrite l 0 xs) n off = window l n off :=
      window_overwrite_of_ge (by omega) (Nat.zero_le _)
    have hown : (window l off n).drop (n - off) = window l n off := by
      rw [drop_window, hmid, Nat.sub_sub_self hoff]
    conv_lhs => rw [hsplit]
    rw [window_add, hmid, hseen, hrest, hown]
  · have hnil : xs.drop off = [] := List.drop_of_length_le (by omega)
    have hzero : n - off = 0 := by omega
    rw [hnil, hzero, List.drop_zero, List.nil_append,
      window_overwrite_of_ge (by omega) (Nat.zero_le _)]

end Window
