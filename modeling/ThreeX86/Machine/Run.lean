import Mathlib.Tactic.Common

/-!
Runs of labelled transition systems, and the induction that carries an invariant along them.
-/

namespace Transition

variable {σ α : Type}

/-- A sequence of steps with the list of their labels. -/
inductive Run (step : σ → α → σ → Prop) : σ → List α → σ → Prop
  | nil (s : σ) : Run step s [] s
  | snoc {s s' s'' : σ} {labels : List α} {a : α} (run : Run step s labels s') (last : step s' a s'') :
      Run step s (labels ++ [a]) s''

def Reachable (start : σ → Prop) (step : σ → α → σ → Prop) (s : σ) : Prop :=
  ∃ s₀ labels, start s₀ ∧ Run step s₀ labels s

section

variable {step : σ → α → σ → Prop} {start : σ → Prop} {s s' s'' : σ} {labels labels' : List α}

theorem Run.eq_of_nil (run : Run step s [] s') : s' = s := by
  generalize none : ([] : List α) = labels at run
  cases run with
  | nil => rfl
  | snoc run last => simp at none

/-- What holds at first and survives every step whose label the run uses holds at the end. -/
theorem Run.invariant (run : Run step s labels s') (inv : σ → Prop) (base : inv s)
    (preserved : ∀ s a s', a ∈ labels → inv s → step s a s' → inv s') : inv s' := by
  induction run with
  | nil => exact base
  | snoc run last ih =>
    have before := ih fun s a s' member => preserved s a s' (List.mem_append_left _ member)
    exact preserved _ _ _ (by simp) before last

theorem Reachable.invariant (reachable : Reachable start step s) (inv : σ → Prop) (base : ∀ s, start s → inv s)
    (preserved : ∀ s a s', inv s → step s a s' → inv s') : inv s := by
  obtain ⟨s₀, labels, first, run⟩ := reachable
  exact run.invariant inv (base s₀ first) fun s a s' _ => preserved s a s'

/-- A relation that every step carries over is carried over by every run. -/
theorem Run.simulate {τ : Type} {step' : τ → α → τ → Prop} (R : σ → τ → Prop) {t : τ}
    (one : ∀ s t a s', R s t → step s a s' → ∃ t', step' t a t' ∧ R s' t') (run : Run step s labels s') (related : R s t) :
    ∃ t', Run step' t labels t' ∧ R s' t' := by
  induction run with
  | nil => exact ⟨t, .nil t, related⟩
  | snoc run last ih =>
    obtain ⟨t', before, middle⟩ := ih
    obtain ⟨t'', next, after⟩ := one _ _ _ _ middle last
    exact ⟨t'', before.snoc next, after⟩

theorem Reachable.base (first : start s) : Reachable start step s := ⟨s, [], first, .nil s⟩

theorem Reachable.next {a : α} (reachable : Reachable start step s) (last : step s a s') :
    Reachable start step s' := by
  obtain ⟨s₀, labels, first, run⟩ := reachable
  exact ⟨s₀, labels ++ [a], first, run.snoc last⟩

end

end Transition
