import Mathlib
import RocksDB.Lib.Heap

/-!
# Sums of 64-bit words

A `uint64_t` counter that adds up sizes holds their sum modulo `2^64`. These lemmas read
such a sum as the sum of natural numbers, which it is while that sum stays below `2^64`, and
bound the sum over some of a heap's records by the heap's total.
-/

namespace UInt64

theorem toNat_list_sum (l : List UInt64) : l.sum.toNat = (l.map toNat).sum % 2 ^ 64 := by
  induction l with
  | nil => rfl
  | cons a l ih =>
    rw [List.sum_cons, UInt64.toNat_add, ih, List.map_cons, List.sum_cons, Nat.add_mod_mod]

theorem toNat_finset_sum {ι : Type} (s : Finset ι) (f : ι → UInt64) :
    (∑ i ∈ s, f i).toNat = (∑ i ∈ s, (f i).toNat) % 2 ^ 64 := by
  classical
  induction s using Finset.induction_on with
  | empty => rfl
  | insert a s ha ih =>
    rw [Finset.sum_insert ha, Finset.sum_insert ha, UInt64.toNat_add, ih, Nat.add_mod_mod]

/-- A sum of words below `2^64` is the sum of their values. -/
theorem toNat_list_sum_of_lt {l : List UInt64} (h : (l.map toNat).sum < 2 ^ 64) :
    l.sum.toNat = (l.map toNat).sum := by
  rw [toNat_list_sum, Nat.mod_eq_of_lt h]

end UInt64

namespace Heap

variable {α : Type}

theorem total_toNat (H : Heap α) (f : α → UInt64) :
    (H.total f).toNat = H.total (fun a => (f a).toNat) % 2 ^ 64 := by
  unfold total
  rw [UInt64.toNat_finset_sum]
  congr 1
  refine Finset.sum_congr rfl fun i _ => ?_
  cases H.cells i <;> rfl

/-- The sum of `f` over distinct live addresses is at most the total. -/
theorem sum_le_total {H : Heap α} (hH : H.WF) (f : α → Nat) {l : List Nat} (hl : l.Nodup)
    (hlive : ∀ i ∈ l, (H.cells i).isSome) :
    (l.map fun i => ((H.cells i).map f).getD 0).sum ≤ H.total f := by
  unfold total
  rw [← List.sum_toFinset _ hl]
  refine Finset.sum_le_sum_of_subset fun i hi => Finset.mem_range.mpr ?_
  obtain ⟨a, ha⟩ := Option.isSome_iff_exists.mp (hlive i (List.mem_toFinset.mp hi))
  exact hH.lt_next ha

end Heap
