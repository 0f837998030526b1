import Mathlib

/-!
# The order a three-way comparator defines

A comparator `cmp : α → α → Ordering` that is `Std.TransCmp` orders `α` by
`a ≤ b ↔ cmp a b ≠ .gt`: reflexive, transitive and total. It is antisymmetric,
so a linear order, exactly when `.eq` means equality, which a comparator of
encoded values only has on the values it decodes; so antisymmetry is a
hypothesis here, asked on the type the order is stated on.
-/

namespace CmpOrder

variable {α : Type} (cmp : α → α → Ordering)

/-- `a` does not compare above `b`. -/
def Le (a b : α) : Prop := cmp a b ≠ .gt

variable {cmp}

theorem le_total [Std.OrientedCmp cmp] (a b : α) : Le cmp a b ∨ Le cmp b a := by
  by_cases h : cmp a b = .gt
  · right
    rw [Le, Std.OrientedCmp.gt_iff_lt.mp h]
    decide
  · exact Or.inl h

theorem eq_of_le_of_le [Std.OrientedCmp cmp] {a b : α} (hab : Le cmp a b) (hba : Le cmp b a) :
    cmp a b = .eq := by
  cases h : cmp a b with
  | lt => exact absurd (Std.OrientedCmp.gt_iff_lt.mpr h) hba
  | eq => rfl
  | gt => exact absurd h hab

/-- A transitive comparator whose `.eq` is equality is a linear order. -/
theorem isLinearOrder [Std.TransCmp cmp] (hanti : ∀ a b, cmp a b = .eq → a = b) :
    IsLinearOrder α (Le cmp) where
  refl a := by rw [Le, @Std.ReflCmp.compare_self _ cmp _ a]; decide
  trans _ _ _ hab hbc := Std.TransCmp.le_trans hab hbc
  antisymm a b hab hba := hanti a b (eq_of_le_of_le hab hba)
  total := le_total

/-- What compares above `c` stays above it when it moves up. -/
theorem gt_of_le_of_gt [Std.TransCmp cmp] {a b c : α} (hab : Le cmp a b) (hac : cmp a c = .gt) :
    cmp b c = .gt :=
  Std.OrientedCmp.gt_iff_lt.mpr (Std.TransCmp.lt_of_lt_of_le (Std.OrientedCmp.gt_iff_lt.mp hac) hab)

/-- A sequence whose neighbours are in order is in order. -/
theorem le_of_le_succ [Std.TransCmp cmp] {f : Nat → α} {n : Nat}
    (h : ∀ k, k < n → Le cmp (f k) (f (k + 1))) {i j : Nat} (hij : i ≤ j) (hj : j ≤ n) :
    Le cmp (f i) (f j) := by
  induction j, hij using Nat.le_induction with
  | base => rw [Le, @Std.ReflCmp.compare_self _ cmp _ (f i)]; decide
  | succ j hij ih => exact Std.TransCmp.le_trans (ih (by omega)) (h j (by omega))

end CmpOrder
