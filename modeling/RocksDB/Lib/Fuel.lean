import Mathlib

/-!
# Loops run with fuel

A `while` loop of the source is modelled as a function `run : Nat → σ → Option ρ`
of its fuel, which answers `none` when the fuel runs out before the loop ends.
A loop never ends from a state when every pass from such a state leads, without
ending the loop, to another such state: then `run` answers `none` for every fuel.
-/

namespace Fuel

variable {σ ρ : Type}

/-- The rule for loops that never end: an invariant `inv` that one more pass of
the loop always restores, from states where the loop does not end. -/
theorem run_eq_none_of_step (run : Nat → σ → Option ρ) (inv : σ → Prop)
    (zero : ∀ s, run 0 s = none)
    (step : ∀ s, inv s → ∃ t, inv t ∧ ∀ fuel, run (fuel + 1) s = run fuel t) :
    ∀ fuel s, inv s → run fuel s = none := by
  intro fuel
  induction fuel with
  | zero => exact fun s _ => zero s
  | succ fuel ih =>
    intro s hs
    obtain ⟨t, ht, hrun⟩ := step s hs
    rw [hrun fuel]
    exact ih t ht

end Fuel
