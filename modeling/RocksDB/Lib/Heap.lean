import Mathlib

/-!
# A heap of records addressed by number

Memory for code that allocates records, changes them in place and frees them:
the cells by address, the next address to hand out, and the log of the addresses
freed so far, in order. `WF` says that the log and the cells agree: an address
below `next` has been freed exactly when its cell is empty, and no address is
freed twice. `total f` adds `f` over the live records.
-/

/-- Cells by address, the next fresh address, and the log of frees. -/
structure Heap (α : Type) where
  cells : Nat → Option α
  next : Nat
  freed : List Nat

namespace Heap

variable {α : Type}

/-- The heap before the first allocation. -/
def empty : Heap α := ⟨fun _ => none, 0, []⟩

/-- Store `a` at the next fresh address, and answer that address. -/
def alloc (H : Heap α) (a : α) : Heap α × Nat :=
  ({ H with cells := Function.update H.cells H.next (some a), next := H.next + 1 }, H.next)

/-- Empty the cell at `i` and log the free. -/
def free (H : Heap α) (i : Nat) : Heap α :=
  { H with cells := Function.update H.cells i none, freed := H.freed ++ [i] }

/-- Free the addresses of `is`, first to last. -/
def freeAll (H : Heap α) (is : List Nat) : Heap α := is.foldl free H

/-- Change the record at `i` in place. -/
def modify (H : Heap α) (i : Nat) (f : α → α) : Heap α :=
  { H with cells := Function.update H.cells i ((H.cells i).map f) }

@[simp] theorem cells_empty (i : Nat) : (empty : Heap α).cells i = none := rfl
@[simp] theorem next_empty : (empty : Heap α).next = 0 := rfl
@[simp] theorem freed_empty : (empty : Heap α).freed = [] := rfl

@[simp] theorem cells_alloc (H : Heap α) (a : α) (i : Nat) :
    (H.alloc a).1.cells i = if i = H.next then some a else H.cells i := by
  simp [alloc, Function.update_apply]

@[simp] theorem next_alloc (H : Heap α) (a : α) : (H.alloc a).1.next = H.next + 1 := rfl
@[simp] theorem freed_alloc (H : Heap α) (a : α) : (H.alloc a).1.freed = H.freed := rfl
@[simp] theorem alloc_snd (H : Heap α) (a : α) : (H.alloc a).2 = H.next := rfl

@[simp] theorem cells_free (H : Heap α) (i j : Nat) :
    (H.free i).cells j = if j = i then none else H.cells j := by
  simp [free, Function.update_apply]

@[simp] theorem next_free (H : Heap α) (i : Nat) : (H.free i).next = H.next := rfl
@[simp] theorem freed_free (H : Heap α) (i : Nat) : (H.free i).freed = H.freed ++ [i] := rfl

@[simp] theorem freeAll_nil (H : Heap α) : H.freeAll [] = H := rfl
@[simp] theorem freeAll_cons (H : Heap α) (i : Nat) (is : List Nat) :
    H.freeAll (i :: is) = (H.free i).freeAll is := rfl

theorem cells_freeAll (H : Heap α) (is : List Nat) (i : Nat) :
    (H.freeAll is).cells i = if i ∈ is then none else H.cells i := by
  induction is generalizing H with
  | nil => simp
  | cons j is ih =>
    rw [freeAll_cons, ih]
    by_cases hi : i ∈ is <;> by_cases hj : i = j <;> simp [hi, hj]

@[simp] theorem next_freeAll (H : Heap α) (is : List Nat) : (H.freeAll is).next = H.next := by
  induction is generalizing H with
  | nil => rfl
  | cons j is ih => rw [freeAll_cons, ih, next_free]

@[simp] theorem cells_modify (H : Heap α) (i : Nat) (f : α → α) (j : Nat) :
    (H.modify i f).cells j = if j = i then (H.cells i).map f else H.cells j := by
  simp [modify, Function.update_apply]

@[simp] theorem next_modify (H : Heap α) (i : Nat) (f : α → α) : (H.modify i f).next = H.next := rfl
@[simp] theorem freed_modify (H : Heap α) (i : Nat) (f : α → α) :
    (H.modify i f).freed = H.freed := rfl

theorem modify_modify (H : Heap α) (i : Nat) (f g : α → α) :
    (H.modify i f).modify i g = H.modify i (g ∘ f) := by
  simp only [modify, Function.update_self, Function.update_idem, Option.map_map]

/-- The log agrees with the cells: fresh addresses are empty, the log has no repeats,
and an address below `next` is in the log exactly when its cell is empty. -/
structure WF (H : Heap α) : Prop where
  fresh : ∀ i, H.next ≤ i → H.cells i = none
  freed_nodup : H.freed.Nodup
  mem_freed : ∀ i, i ∈ H.freed ↔ i < H.next ∧ H.cells i = none

theorem wf_empty : (empty : Heap α).WF :=
  ⟨fun _ _ => rfl, List.nodup_nil, fun i => by simp⟩

theorem WF.lt_next {H : Heap α} (hH : H.WF) {i : Nat} {a : α} (hi : H.cells i = some a) :
    i < H.next := by
  by_contra hge
  simp [hH.fresh i (Nat.le_of_not_lt hge)] at hi

theorem WF.alloc {H : Heap α} (hH : H.WF) (a : α) : (H.alloc a).1.WF := by
  refine ⟨fun i hi => ?_, hH.freed_nodup, fun i => ?_⟩
  · simp only [next_alloc] at hi
    simp [show i ≠ H.next by omega, hH.fresh i (by omega)]
  · by_cases hi : i = H.next
    · subst hi
      simp [hH.mem_freed]
    · simp only [freed_alloc, hH.mem_freed, next_alloc, cells_alloc, if_neg hi]
      constructor <;> rintro ⟨hlt, hnone⟩ <;> exact ⟨by omega, hnone⟩

/-- Freeing a live record keeps the log right: it was not freed before. -/
theorem WF.free {H : Heap α} (hH : H.WF) {i : Nat} {a : α} (hi : H.cells i = some a) :
    (H.free i).WF := by
  have hnot : i ∉ H.freed := fun hmem => by simp [(hH.mem_freed i).mp hmem |>.2] at hi
  refine ⟨fun j hj => ?_, hH.freed_nodup.append (List.nodup_singleton i) (by simpa using hnot),
    fun j => ?_⟩
  · simp only [cells_free]
    split_ifs <;> simp [hH.fresh j hj]
  · by_cases hj : j = i
    · subst hj
      simp [hH.lt_next hi]
    · simp [hj, hH.mem_freed]

theorem WF.modify {H : Heap α} (hH : H.WF) (i : Nat) (f : α → α) : (H.modify i f).WF := by
  refine ⟨fun j hj => ?_, hH.freed_nodup, fun j => ?_⟩
  · simp only [cells_modify]
    split_ifs with h
    · subst h; simp [hH.fresh j hj]
    · exact hH.fresh j hj
  · simp only [freed_modify, hH.mem_freed, next_modify, cells_modify]
    split_ifs with h
    · subst h; simp
    · rfl

section Total

variable {M : Type} [AddCommMonoid M]

/-- The sum of `f` over the live records. -/
def total (H : Heap α) (f : α → M) : M :=
  ∑ i ∈ Finset.range H.next, ((H.cells i).map f).getD 0

theorem total_alloc (H : Heap α) (a : α) (f : α → M) :
    (H.alloc a).1.total f = H.total f + f a := by
  have hsame : ∀ i ∈ Finset.range H.next,
      (((H.alloc a).1.cells i).map f).getD 0 = ((H.cells i).map f).getD 0 := by
    intro i hi
    simp [show i ≠ H.next from (Finset.mem_range.mp hi).ne]
  simp only [total, next_alloc, Finset.sum_range_succ, Finset.sum_congr rfl hsame]
  simp

theorem total_free {H : Heap α} (i : Nat) (hi : i < H.next) (f : α → M) :
    (H.free i).total f + ((H.cells i).map f).getD 0 = H.total f := by
  have hmem : i ∈ Finset.range H.next := Finset.mem_range.mpr hi
  have hcells : (fun j => (((H.free i).cells j).map f).getD 0) =
      Function.update (fun j => ((H.cells j).map f).getD 0) i 0 := by
    funext j
    by_cases hj : j = i <;> simp [hj]
  simp only [total, next_free, hcells, Finset.sum_update_of_mem hmem, zero_add]
  rw [← Finset.sum_erase_add _ _ hmem, Finset.sdiff_singleton_eq_erase]

/-- A change that keeps `f` of the record keeps the total. -/
theorem total_modify (H : Heap α) (i : Nat) (g : α → α) (f : α → M)
    (hg : ∀ a, H.cells i = some a → f (g a) = f a) : (H.modify i g).total f = H.total f := by
  refine Finset.sum_congr rfl fun j _ => ?_
  by_cases hj : j = i
  · subst hj
    cases hc : H.cells j with
    | none => simp [hc]
    | some a => simp [hc, hg a hc]
  · simp [hj]

end Total

end Heap
