import Mathlib

/-!
# Growing an interval until it stops growing

An operator `F` on intervals `[x, y)` of `[0, n)` that only grows a non-empty
interval, keeps inclusion and stays within `[0, n)` (`Growth`) reaches a fixed
point by iteration: `grow F` applies `F` while the interval it gives is longer
than the last one. From a non-empty seed it ends, given fuel for the `n`
possible lengths, on the least interval that holds the seed and that `F` maps to
itself (`grow_spec`).
-/

namespace IntervalClosure

/-- An operator on intervals `[x, y)` of `[0, n)` that grows every non-empty
interval, keeps inclusion and stays within `[0, n)`. -/
structure Growth (n : Nat) (F : Nat × Nat → Nat × Nat) : Prop where
  fst_le : ∀ x y, x < y → y ≤ n → (F (x, y)).1 ≤ x
  le_snd : ∀ x y, x < y → y ≤ n → y ≤ (F (x, y)).2
  snd_le : ∀ x y, x < y → y ≤ n → (F (x, y)).2 ≤ n
  mono : ∀ x y u v, u ≤ x → x < y → y ≤ v → v ≤ n →
    (F (u, v)).1 ≤ (F (x, y)).1 ∧ (F (x, y)).2 ≤ (F (u, v)).2

/-- `do { I := F I } while (I grew)`, for at most `fuel` rounds. -/
def grow (F : Nat × Nat → Nat × Nat) : Nat → Nat × Nat → Nat × Nat
  | 0, I => I
  | fuel + 1, I =>
    let I' := F I
    if I'.2 - I'.1 > I.2 - I.1 then grow F fuel I' else I'

variable {n : Nat} {F : Nat × Nat → Nat × Nat}

/-- An interval that holds `[x, y)` and that `F` maps to itself holds its image. -/
theorem Growth.le_of_closed (hF : Growth n F) {x y u v : Nat} (hux : u ≤ x) (hxy : x < y)
    (hyv : y ≤ v) (hv : v ≤ n) (hclosed : F (u, v) = (u, v)) :
    u ≤ (F (x, y)).1 ∧ (F (x, y)).2 ≤ v := by
  have h := hF.mono x y u v hux hxy hyv hv
  rw [hclosed] at h
  exact h

/-- From a non-empty seed, with fuel for every length the interval can reach,
the iteration ends on an interval that holds the seed, that `F` maps to itself,
and that every interval holding the seed and mapped to itself holds. -/
theorem grow_spec (hF : Growth n F) :
    ∀ fuel x y, x < y → y ≤ n → n - (y - x) < fuel →
      (grow F fuel (x, y)).1 ≤ x ∧ y ≤ (grow F fuel (x, y)).2 ∧ (grow F fuel (x, y)).2 ≤ n ∧
        F (grow F fuel (x, y)) = grow F fuel (x, y) ∧
        ∀ u v, u ≤ x → y ≤ v → v ≤ n → F (u, v) = (u, v) →
          u ≤ (grow F fuel (x, y)).1 ∧ (grow F fuel (x, y)).2 ≤ v := by
  intro fuel
  induction fuel with
  | zero => intro x y hxy hy hfuel; omega
  | succ fuel ih =>
    intro x y hxy hy hfuel
    have h₁ := hF.fst_le x y hxy hy
    have h₂ := hF.le_snd x y hxy hy
    have h₃ := hF.snd_le x y hxy hy
    rw [grow]
    dsimp only
    split_ifs with hgrew
    · -- the interval grew: the rest of the run starts from its image
      have hstep := ih (F (x, y)).1 (F (x, y)).2 (by omega) h₃ (by omega)
      rw [Prod.mk.eta] at hstep
      obtain ⟨hR₁, hR₂, hR₃, hfix, hleast⟩ := hstep
      refine ⟨by omega, by omega, hR₃, hfix, fun u v hux hyv hv hclosed => ?_⟩
      obtain ⟨hu, hv'⟩ := hF.le_of_closed hux hxy hyv hv hclosed
      exact hleast u v hu hv' hv hclosed
    · -- the interval did not grow, so its image is itself
      have hfx : F (x, y) = (x, y) :=
        Prod.ext (show (F (x, y)).1 = x by omega) (show (F (x, y)).2 = y by omega)
      rw [hfx]
      exact ⟨le_rfl, le_rfl, hy, hfx, fun u v hux hyv _ _ => ⟨hux, hyv⟩⟩

end IntervalClosure
