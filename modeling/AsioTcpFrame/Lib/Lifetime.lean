import AsioTcpFrame.Lib.Transition

/-! # What goes on after an object is destroyed

An object that starts operations may be destroyed while some are outstanding, and their handlers run
later.  `Host` is a transition system with such an object in it: what the steps are, which of them are
calls of the object's interface (nobody makes them any more), which steps access something that is
destroyed with the object, and what destroying it does to the rest.

`NoneOutlives n`: when the object is destroyed in the state `n`, no step afterwards accesses it.
`noneOutlives_of_inert` is the invariant rule for it, and `Reaches.not_noneOutlives` says that one run to
an access is enough for the contrary. -/

namespace Lifetime

open Transition

/-- Steps, and what they have to do with the object. -/
structure Host (σ α : Type*) where
  step : σ → α → Option σ
  /-- A call of the interface. -/
  isCall : α → Bool
  /-- An access to what is destroyed with the object. -/
  touches : σ → α → Bool
  destroy : σ → σ

namespace Host

variable {σ α : Type*} (h : Host σ α)

/-- A step after the object was destroyed, and whether anything was accessed so far. -/
def after (s : σ × Bool) (a : α) : Option (σ × Bool) :=
  if h.isCall a then none else (h.step s.1 a).map fun t => (t, s.2 || h.touches s.1 a)

/-- Nothing that runs after the object was destroyed in the state `n` accesses it. -/
def NoneOutlives (n : σ) : Prop :=
  ∀ acts s, Run h.after Anything (h.destroy n, false) acts s → s.2 = false

/-- Steps that are no calls lead from a state to an access. -/
inductive Reaches : σ → Prop
  | access {s s' : σ} {a : α} : h.isCall a = false → h.step s a = some s' → h.touches s a = true →
      Reaches s
  | step {s s' : σ} {a : α} : h.isCall a = false → h.step s a = some s' → Reaches s' → Reaches s

variable {h} {n : σ}

/-- **The invariant rule**: from inert states no step accesses the object, and each leads to an inert
state. -/
theorem noneOutlives_of_inert {I : σ → Prop} (h₀ : I (h.destroy n))
    (hstep : ∀ s a s', I s → h.isCall a = false → h.step s a = some s' →
      h.touches s a = false ∧ I s') : h.NoneOutlives n := by
  intro acts s hrun
  have hI : I s.1 ∧ s.2 = false := by
    refine hrun.invariant (I := fun s => I s.1 ∧ s.2 = false) ⟨h₀, rfl⟩ fun s a s' hI _ hs => ?_
    simp only [after] at hs
    split at hs
    · cases hs
    · next hcall =>
      obtain ⟨t, ht, rfl⟩ := Option.map_eq_some_iff.mp hs
      obtain ⟨htouch, hI'⟩ := hstep _ _ _ hI.1 (by simpa using hcall) ht
      exact ⟨hI', by simp [hI.2, htouch]⟩
  exact hI.2

theorem after_eq {s s' : σ} {a : α} (ha : h.isCall a = false) (hs : h.step s a = some s')
    (accessed : Bool) : h.after (s, accessed) a = some (s', accessed || h.touches s a) := by
  simp only [after, ha, hs, Bool.false_eq_true, if_false, Option.map_some]

theorem Reaches.exists_run {s : σ} (hr : h.Reaches s) (accessed : Bool) :
    ∃ acts s', Run h.after Anything (s, accessed) acts s' ∧ s'.2 = true := by
  induction hr generalizing accessed with
  | access ha hs ht =>
      refine ⟨_, _, .single trivial (after_eq ha hs accessed), ?_⟩
      simp only [ht, Bool.or_true]
  | @step s s' a ha hs _ ih =>
      obtain ⟨acts, s₁, hrun, hlast⟩ := ih (accessed || h.touches s a)
      exact ⟨_, s₁, (Run.single trivial (after_eq ha hs accessed)).trans hrun, hlast⟩

/-- One run to an access. -/
theorem Reaches.not_noneOutlives (hr : h.Reaches (h.destroy n)) : ¬ h.NoneOutlives n := by
  intro hnone
  obtain ⟨acts, s, hrun, hlast⟩ := hr.exists_run false
  rw [hnone acts s hrun] at hlast
  cases hlast

end Host

end Lifetime
