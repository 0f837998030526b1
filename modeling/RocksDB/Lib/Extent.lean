import Mathlib

/-!
# Ranges of addresses and the allocators that hand them out

A range of `size` bytes from address `addr` is an `Extent`. Its bytes are a set,
so two ranges are apart when their sets are `Disjoint`; a range lies inside
another (`Within`) when its ends do, which also places an empty range.

An allocator in the sense of `operator new[]` is a `FreshAllocator`: asked for
`n` bytes while some ranges are in use, it answers an address aligned to its
alignment whose `n` bytes are apart from every range in use. `FreshAllocator.bump`
is one, handing out memory past everything in use.

## Main results

* `Extent.disjoint_iff`: two ranges are apart exactly when the first to end ends
  at or before the other starts.
* `Extent.Within.disjoint`: ranges inside ranges that are apart are apart.
-/

/-- The `size` bytes from address `addr`. -/
structure Extent where
  addr : Nat
  size : Nat
  deriving DecidableEq, Repr

namespace Extent

/-- The bytes of `e`. -/
def toSet (e : Extent) : Set Nat := Set.Ico e.addr (e.addr + e.size)

/-- `e` lies inside `f`: it starts at or after `f` starts and ends at or before
`f` ends. -/
def Within (e f : Extent) : Prop := f.addr ≤ e.addr ∧ e.addr + e.size ≤ f.addr + f.size

instance (e f : Extent) : Decidable (e.Within f) := inferInstanceAs (Decidable (_ ∧ _))

theorem Within.refl (e : Extent) : e.Within e := ⟨le_rfl, le_rfl⟩

theorem Within.trans {e f g : Extent} (h₁ : e.Within f) (h₂ : f.Within g) : e.Within g := by
  unfold Within at *
  omega

theorem Within.subset {e f : Extent} (h : e.Within f) : e.toSet ⊆ f.toSet :=
  Set.Ico_subset_Ico h.1 h.2

theorem disjoint_iff {e f : Extent} :
    Disjoint e.toSet f.toSet ↔ min (e.addr + e.size) (f.addr + f.size) ≤ max e.addr f.addr :=
  Set.Ico_disjoint_Ico

/-- A range that ends where another starts is apart from it. -/
theorem disjoint_of_le {e f : Extent} (h : e.addr + e.size ≤ f.addr) :
    Disjoint e.toSet f.toSet :=
  disjoint_iff.mpr (by omega)

/-- Ranges inside two ranges that are apart are apart. -/
theorem Within.disjoint {e e' f f' : Extent} (he : e.Within e') (hf : f.Within f')
    (h : Disjoint e'.toSet f'.toSet) : Disjoint e.toSet f.toSet :=
  h.mono he.subset hf.subset

end Extent

/-- An allocator of fresh memory aligned to `align`: asked for `n` bytes while the
ranges `used` are in use, `alloc used n` is an address aligned to `align` whose `n`
bytes are apart from every range of `used`. -/
structure FreshAllocator (align : Nat) where
  alloc : List Extent → Nat → Nat
  aligned : ∀ used n, alloc used n % align = 0
  fresh : ∀ used n, ∀ e ∈ used, Disjoint (Extent.toSet ⟨alloc used n, n⟩) e.toSet

namespace FreshAllocator

/-- The allocator that hands out memory at the first multiple of `align` past the
sum of the ends of the ranges in use. -/
def bump (align : Nat) (halign : 0 < align) : FreshAllocator align where
  alloc used _ := align * (used.map fun e => e.addr + e.size).sum
  aligned used _ := Nat.mul_mod_right align _
  fresh used n e he := by
    -- every range in use ends at or before the sum of the ends
    have hend : e.addr + e.size ≤ (used.map fun e => e.addr + e.size).sum :=
      List.le_sum_of_mem (List.mem_map_of_mem he)
    have : (used.map fun e => e.addr + e.size).sum ≤ align * (used.map fun e => e.addr + e.size).sum :=
      Nat.le_mul_of_pos_left _ halign
    exact (Extent.disjoint_of_le (by simp only; omega)).symm

end FreshAllocator
