import Mathlib.Data.List.Flatten
import Mathlib.Tactic.Common

/-! # Decoders that are fed in pieces

A decoder holds the input it has not used.  It takes turns as long as that input is enough
for one (`turn`), and is then given more (`push`).  When a turn that can be taken is still the
same turn after more input has come (`turn_push`), the way the input was cut cannot be seen:
`feed_eq_drain` says that feeding the pieces one after the other is the same as feeding their
concatenation at once.  The loop that takes turns until none is left (`drain`) ends because
every turn makes `size` smaller. -/

namespace Incremental

/-- A decoder with states `σ`, input symbols `α` and outputs `ω`. -/
structure Decoder (σ α ω : Type*) where
  /-- One turn: what it puts out, and the state after it; `none` when more input is needed. -/
  turn : σ → Option (Option ω × σ)
  push : σ → List α → σ
  size : σ → ℕ
  push_nil : ∀ s, push s [] = s
  push_append : ∀ s b c, push s (b ++ c) = push (push s b) c
  turn_size : ∀ {s o s'}, turn s = some (o, s') → size s' < size s
  turn_push : ∀ {s o s'} (c : List α), turn s = some (o, s') → turn (push s c) = some (o, push s' c)

namespace Decoder

variable {σ α ω : Type*} (d : Decoder σ α ω)

/-- Take turns until none is left. -/
def drain (s : σ) : List ω × σ :=
  match _h : d.turn s with
  | none => ([], s)
  | some (o, s') => (o.toList ++ (drain s').1, (drain s').2)
termination_by d.size s
decreasing_by all_goals exact d.turn_size _h

variable {d} {s s' : σ} {o : Option ω}

theorem drain_none (h : d.turn s = none) : d.drain s = ([], s) := by
  rw [drain]; split <;> simp_all

theorem drain_some (h : d.turn s = some (o, s')) :
    d.drain s = (o.toList ++ (d.drain s').1, (d.drain s').2) := by
  rw [drain]; split <;> simp_all

/-- What turns keep, the loop keeps; `I out s` is about the outputs so far and the state. -/
theorem drain_induction {I : List ω → σ → Prop} {out : List ω} {s : σ} (h₀ : I out s)
    (hturn : ∀ out s o s', I out s → d.turn s = some (o, s') → I (out ++ o.toList) s') :
    I (out ++ (d.drain s).1) (d.drain s).2 := by
  cases h : d.turn s with
  | none => rw [drain_none h]; simpa using h₀
  | some r =>
      obtain ⟨o, s'⟩ := r
      have := drain_induction (hturn out s o s' h₀ h) hturn
      rw [drain_some h, ← List.append_assoc]
      exact this
termination_by d.size s
decreasing_by exact d.turn_size h

theorem turn_drain (s : σ) : d.turn (d.drain s).2 = none := by
  cases h : d.turn s with
  | none => rw [drain_none h]; exact h
  | some r =>
      obtain ⟨o, s'⟩ := r
      rw [drain_some h]
      exact turn_drain s'
termination_by d.size s
decreasing_by exact d.turn_size h

/-- Input that comes before the loop may as well come after it, with one more loop. -/
theorem drain_push (s : σ) (c : List α) :
    d.drain (d.push s c) =
      ((d.drain s).1 ++ (d.drain (d.push (d.drain s).2 c)).1,
        (d.drain (d.push (d.drain s).2 c)).2) := by
  cases h : d.turn s with
  | none => rw [drain_none h]; simp
  | some r =>
      obtain ⟨o, s'⟩ := r
      rw [drain_some (d.turn_push c h), drain_some h, drain_push s' c]
      simp
termination_by d.size s
decreasing_by exact d.turn_size h

variable (d)

/-- Give the decoder the pieces one after the other, with the loop run after each. -/
def feed (s : σ) : List (List α) → List ω × σ
  | [] => ([], s)
  | c :: cs => ((d.drain (d.push s c)).1 ++ (feed (d.drain (d.push s c)).2 cs).1,
      (feed (d.drain (d.push s c)).2 cs).2)

variable {d}

/-- **Cuts cannot be seen**: feeding pieces is feeding what they make up. -/
theorem feed_eq_drain (h : d.turn s = none) (cs : List (List α)) :
    d.feed s cs = d.drain (d.push s cs.flatten) := by
  induction cs generalizing s with
  | nil => rw [List.flatten_nil, d.push_nil, drain_none h]; rfl
  | cons c cs ih =>
      rw [List.flatten_cons, d.push_append, drain_push, feed, ih (turn_drain _)]

end Decoder

end Incremental
