import Mathlib.Logic.Relation
import Mathlib.Tactic.Common

/-! # Runs of a partial step function

A transition system is a partial step function `step : σ → α → Option σ`: in the state `s`
the action `a` is disabled when `step s a = none`, and otherwise leads to one state.  What is
nondeterministic (the scheduler, the network, the user's code) is in the action.

* `Run step G s as s'`: the actions `as` lead from `s` to `s'`, and each of them meets the
  condition `G` in the state in which it is taken.  `Anything` is the condition that every
  action meets.
* `Run.invariant`: what holds at the start and is kept by every step holds at the end.
  `Run.history` is the same for what speaks about the actions taken as well.
* `Run.simulate`: a step-wise simulation carries a whole run over.
* `follow`: what is noted on the way, in a state `γ` of its own that no step looks at; `Run.follow` is
  the invariant rule for the notes together with the state.
* `Ends`: however it goes on, a run ends, and in a state with a property; `Ends.of_measure` is the rule
  for it, from what one step does to a measure.
* `execWhen`: the executable form, for runs on concrete actions. -/

namespace Transition

variable {σ α : Type*}

/-- The condition on steps that every step meets. -/
def Anything : σ → α → Prop := fun _ _ => True

/-- `Run step G s as s'`: the actions `as`, each taken in a state where it meets `G`, lead from
`s` to `s'`. -/
inductive Run (step : σ → α → Option σ) (G : σ → α → Prop) (s : σ) : List α → σ → Prop
  | refl : Run step G s [] s
  | tail {as : List α} {a : α} {s₁ s₂ : σ} :
      Run step G s as s₁ → G s₁ a → step s₁ a = some s₂ → Run step G s (as ++ [a]) s₂

variable {step : σ → α → Option σ} {G : σ → α → Prop} {s s₁ s₂ : σ} {as bs : List α}

/-- **The invariant rule**: what a step keeps, a run keeps. -/
theorem Run.invariant {I : σ → Prop} (h : Run step G s as s₁) (h₀ : I s)
    (hstep : ∀ s a s', I s → G s a → step s a = some s' → I s') : I s₁ := by
  induction h with
  | refl => exact h₀
  | tail _ hG hs ih => exact hstep _ _ _ ih hG hs

/-- The invariant rule for what speaks about the actions taken so far as well. -/
theorem Run.history {I : List α → σ → Prop} (h : Run step G s as s₁) (h₀ : I [] s)
    (hstep : ∀ as s a s', I as s → G s a → step s a = some s' → I (as ++ [a]) s') : I as s₁ := by
  induction h with
  | refl => exact h₀
  | tail _ hG hs ih => exact hstep _ _ _ _ ih hG hs

theorem Run.single {a : α} (hG : G s a) (hs : step s a = some s₁) : Run step G s [a] s₁ :=
  .tail .refl hG hs

theorem Run.trans (h : Run step G s as s₁) (h' : Run step G s₁ bs s₂) :
    Run step G s (as ++ bs) s₂ := by
  induction h' with
  | refl => simpa using h
  | tail _ hG hs ih => rw [← List.append_assoc]; exact .tail ih hG hs

theorem Run.imp {H : σ → α → Prop} (h : Run step G s as s₁) (hGH : ∀ s a, G s a → H s a) :
    Run step H s as s₁ := by
  induction h with
  | refl => exact .refl
  | tail _ hG hs ih => exact .tail ih (hGH _ _ hG) hs

/-- **The simulation rule**: when every step of the first system is matched by a run of the
second that keeps the relation `R`, every run of the first is matched by one of the second. -/
theorem Run.simulate {τ β : Type*} {step' : τ → β → Option τ} {H : τ → β → Prop}
    {R : σ → τ → Prop} {t : τ} (h : Run step G s as s₁) (h₀ : R s t)
    (hstep : ∀ s a s' t, R s t → G s a → step s a = some s' →
      ∃ bs t', Run step' H t bs t' ∧ R s' t') :
    ∃ bs t₁, Run step' H t bs t₁ ∧ R s₁ t₁ := by
  induction h with
  | refl => exact ⟨[], t, .refl, h₀⟩
  | tail _ hG hs ih =>
      obtain ⟨bs, t₁, hr, hR⟩ := ih
      obtain ⟨cs, t₂, hr', hR'⟩ := hstep _ _ _ _ hR hG hs
      exact ⟨bs ++ cs, t₂, hr.trans hr', hR'⟩

section follow
variable {γ : Type*}

/-- What is noted on the way: `note s g a` is what becomes of the notes `g` when the action `a` is
taken in the state `s`. -/
def follow (step : σ → α → Option σ) (note : σ → γ → α → γ) : σ → γ → List α → γ
  | _, g, [] => g
  | s, g, a :: as =>
      match step s a with
      | none => g
      | some s' => follow step note s' (note s g a) as

variable {note : σ → γ → α → γ} {g : γ}

theorem Run.follow_append (h : Run step G s as s₁) (bs : List α) :
    follow step note s g (as ++ bs) = follow step note s₁ (follow step note s g as) bs := by
  induction h generalizing bs with
  | refl => rfl
  | @tail as a s₁ s₂ _ _ hs ih =>
      have hlast := ih [a]
      rw [follow, hs] at hlast
      rw [List.append_assoc, List.singleton_append, ih (a :: bs), follow, hs, hlast]
      rfl

/-- The invariant rule for a state and the notes. -/
theorem Run.follow {I : γ → σ → Prop} (h : Run step G s as s₁) (h₀ : I g s)
    (hstep : ∀ g s a s', I g s → G s a → step s a = some s' → I (note s g a) s') :
    I (follow step note s g as) s₁ := by
  induction h with
  | refl => exact h₀
  | @tail as a s₁ s₂ hrun hG hs ih =>
      rw [hrun.follow_append [a], Transition.follow, hs]
      exact hstep _ _ _ _ ih hG hs

end follow

section ends
variable {I D : σ → Prop} {b : ℕ}

/-- However the run goes on from `s`, it takes at most `b` steps, and where no step is left `D`
holds. -/
structure Ends (step : σ → α → Option σ) (G : σ → α → Prop) (D : σ → Prop) (s : σ) (b : ℕ) : Prop where
  short : ∀ as s', Run step G s as s' → as.length ≤ b
  done : ∀ as s', Run step G s as s' → (∀ a, G s' a → step s' a = none) → D s'

/-- **The rule for runs that end**: every step keeps `I` and makes `μ` smaller, and where no step is left
`D` holds. -/
theorem Ends.of_measure (μ : σ → ℕ) (h₀ : I s)
    (hstep : ∀ s a s', I s → G s a → step s a = some s' → I s' ∧ μ s' < μ s)
    (hdone : ∀ s, I s → (∀ a, G s a → step s a = none) → D s) : Ends step G D s (μ s) := by
  have hrun : ∀ as s', Run step G s as s' → I s' ∧ as.length + μ s' ≤ μ s := by
    intro as s' h
    induction h with
    | refl => exact ⟨h₀, by simp⟩
    | tail _ hG hs ih =>
        obtain ⟨hI, hle⟩ := ih
        obtain ⟨hI', hlt⟩ := hstep _ _ _ hI hG hs
        refine ⟨hI', ?_⟩
        rw [List.length_append, List.length_singleton]
        omega
  refine ⟨fun as s' h => ?_, fun as s' h => hdone s' (hrun as s' h).1⟩
  have := (hrun as s' h).2
  omega

end ends

section exec
variable (step) (G) [∀ s a, Decidable (G s a)] (s) (as)

/-- Take the actions in order; `none` when one is disabled or does not meet `G`. -/
def execWhen (s : σ) : List α → Option σ
  | [] => some s
  | a :: as => if G s a then (step s a).bind fun s' => execWhen s' as else none

theorem Run.of_execWhen (h : (execWhen step G s as).isSome) :
    Run step G s as ((execWhen step G s as).get h) := by
  have hrun : ∀ as s s₁, execWhen step G s as = some s₁ → Run step G s as s₁ := by
    intro as
    induction as with
    | nil => intro s s₁ h; cases h; exact .refl
    | cons a as ih =>
        intro s s₁ h
        rw [execWhen] at h
        split at h
        · next hG =>
          obtain ⟨s', hs, h⟩ := Option.bind_eq_some_iff.mp h
          exact (Run.single hG hs).trans (ih s' s₁ h)
        · cases h
  exact hrun as s _ (Option.eq_some_of_isSome h)

end exec

instance : ∀ (s : σ) (a : α), Decidable (Anything s a) := fun _ _ => isTrue trivial

/-- Take the actions in order, whatever they are. -/
def exec (step : σ → α → Option σ) : σ → List α → Option σ := execWhen step Anything

theorem Run.of_exec (step : σ → α → Option σ) (s : σ) (as : List α) (h : (exec step s as).isSome) :
    Run step Anything s as ((exec step s as).get h) :=
  Run.of_execWhen step Anything s as h

end Transition
