import Mathlib

/-!
# Sorted lists under a three-way comparator

A skip list keeps its keys strictly increasing under a comparator; the list of
its keys, in order, is the model of it here. `seek` is the position
`FindGreaterOrEqual` stops at, and `insert` is `Insert` with its duplicate
check: the key found at that position must compare above the new one, or the
insertion is refused.

The lemmas ask for `Std.TransCmp` only. Comparators of encoded keys compare
less than the bytes they are given, so they are rarely lawful for equality.
-/

namespace SortedList

variable {α : Type} (cmp : α → α → Ordering)

/-- Strictly increasing under `cmp`. -/
def Sorted (l : List α) : Prop := l.Pairwise fun a b => cmp a b = .lt

/-- The position of the first element that is not below `x`. -/
def seek (l : List α) (x : α) : Nat := l.findIdx fun a => cmp a x ≠ .lt

/-- Insert `x` at `seek`, between the last element below it and the first one
not below it, unless that one is not above `x`. -/
def insert (l : List α) (x : α) : Option (List α) :=
  let i := seek cmp l x
  match l[i]? with
  | some next => if cmp x next ≠ .lt then none else some (l.take i ++ x :: l.drop i)
  | none => some (l.take i ++ x :: l.drop i)

/-- Comparing by a key: the comparators of entries compare the fields they
decode. -/
def byKey {β : Type} (c : β → β → Ordering) (f : α → β) (a b : α) : Ordering := c (f a) (f b)

instance {β : Type} (c : β → β → Ordering) [Std.TransCmp c] (f : α → β) :
    Std.TransCmp (byKey c f) where
  eq_swap {a b} := @Std.OrientedCmp.eq_swap _ c _ (f a) (f b)
  isLE_trans {a b d} := @Std.TransCmp.isLE_trans _ c _ (f a) (f b) (f d)

variable {cmp}

@[simp] theorem sorted_nil : Sorted cmp ([] : List α) := List.Pairwise.nil

theorem sorted_cons {a : α} {l : List α} :
    Sorted cmp (a :: l) ↔ (∀ b ∈ l, cmp a b = .lt) ∧ Sorted cmp l :=
  List.pairwise_cons

theorem Sorted.filter {l : List α} (hs : Sorted cmp l) (p : α → Bool) :
    Sorted cmp (l.filter p) :=
  List.Pairwise.filter p hs

@[simp] theorem seek_nil (x : α) : seek cmp [] x = 0 := rfl

theorem seek_cons (a : α) (l : List α) (x : α) :
    seek cmp (a :: l) x = if cmp a x = .lt then seek cmp l x + 1 else 0 := by
  by_cases h : cmp a x = .lt <;> simp [seek, List.findIdx_cons, h]

theorem seek_le_length (l : List α) (x : α) : seek cmp l x ≤ l.length :=
  List.findIdx_le_length

theorem perm_split (l : List α) (x : α) :
    ((l.filter fun a => cmp a x = .lt) ++ x :: l.filter fun a => cmp a x ≠ .lt).Perm (x :: l) := by
  have h := List.filter_append_perm (fun a => cmp a x = .lt) l
  exact List.perm_middle.trans (List.Perm.cons x (by simpa using h))

/-- `seek` through a map that carries one comparator to the other. -/
theorem seek_map {β : Type} {cmp' : β → β → Ordering} (f : β → α) (l : List β) (x : α) (y : β)
    (h : ∀ b ∈ l, cmp (f b) x = cmp' b y) : seek cmp (l.map f) x = seek cmp' l y := by
  induction l with
  | nil => rfl
  | cons b l ih =>
    rw [List.map_cons, seek_cons, seek_cons, h b List.mem_cons_self,
      ih fun b' hb' => h b' (List.mem_cons_of_mem b hb')]

/-- `insert` through such a map. -/
theorem insert_map {β : Type} {cmp' : β → β → Ordering} (f : β → α) (l : List β) (y : β)
    (hl : ∀ b ∈ l, cmp (f b) (f y) = cmp' b y) (hr : ∀ b ∈ l, cmp (f y) (f b) = cmp' y b) :
    insert cmp (l.map f) (f y) = (insert cmp' l y).map (List.map f) := by
  have hseek := seek_map f l (f y) y hl
  simp only [insert, hseek, List.getElem?_map]
  cases hget : l[seek cmp' l y]? with
  | none => simp [List.map_take, List.map_drop]
  | some next =>
    simp only [Option.map_some, hr next (List.mem_of_getElem? hget)]
    split_ifs <;> simp [List.map_take, List.map_drop]

section Trans

variable [Std.TransCmp cmp]

/-- In a sorted list, what follows an element not below `x` is not below `x`
either. -/
theorem not_lt_of_sorted_cons {a x : α} {l : List α} (hs : Sorted cmp (a :: l))
    (ha : cmp a x ≠ .lt) : ∀ b ∈ l, cmp b x ≠ .lt := by
  intro b hb hbx
  exact ha (Std.TransCmp.lt_trans ((sorted_cons.mp hs).1 b hb) hbx)

/-- `seek` splits a sorted list into what is below `x` and what is not. -/
theorem take_seek {l : List α} (hs : Sorted cmp l) (x : α) :
    l.take (seek cmp l x) = l.filter fun a => cmp a x = .lt := by
  induction l with
  | nil => simp
  | cons a l ih =>
    rw [seek_cons]
    by_cases h : cmp a x = .lt
    · simp [h, ih (sorted_cons.mp hs).2]
    · have hrest := not_lt_of_sorted_cons hs h
      rw [if_neg h, List.filter_cons_of_neg (by simpa using h)]
      symm
      simpa [List.filter_eq_nil_iff] using hrest

theorem drop_seek {l : List α} (hs : Sorted cmp l) (x : α) :
    l.drop (seek cmp l x) = l.filter fun a => cmp a x ≠ .lt := by
  induction l with
  | nil => simp
  | cons a l ih =>
    rw [seek_cons]
    by_cases h : cmp a x = .lt
    · simp [h, ih (sorted_cons.mp hs).2]
    · have hrest := not_lt_of_sorted_cons hs h
      rw [if_neg h, List.filter_cons_of_pos (by simpa using h), List.drop_zero]
      congr 1
      symm
      simpa [List.filter_eq_self] using hrest

/-- The first element not below `x` is the least of them. -/
theorem getElem?_seek {l : List α} (hs : Sorted cmp l) (x : α) :
    l[seek cmp l x]? = (l.filter fun a => cmp a x ≠ .lt).head? := by
  rw [← drop_seek hs x, List.head?_drop]

/-- `insert` refuses `x` exactly when an element compares equal to it. -/
theorem insert_eq_none_iff {l : List α} (hs : Sorted cmp l) (x : α) :
    insert cmp l x = none ↔ ∃ a ∈ l, cmp x a = .eq := by
  have hnext := getElem?_seek hs x
  simp only [insert]
  constructor
  · intro h
    split at h
    · rename_i next hget
      have hnl : cmp x next ≠ .lt := by simpa using h
      have hmem : next ∈ l.filter fun a => cmp a x ≠ .lt :=
        List.mem_of_mem_head? (by rw [← hnext, hget]; rfl)
      obtain ⟨hl, hnx⟩ := List.mem_filter.mp hmem
      -- `next` is not below `x`, nor above it
      have hnx : cmp next x ≠ .lt := by simpa using hnx
      refine ⟨next, hl, ?_⟩
      cases hc : cmp x next
      · exact absurd hc hnl
      · rfl
      · exact absurd (Std.OrientedCmp.gt_iff_lt.mp hc) hnx
    · simp at h
  · rintro ⟨a, ha, hxa⟩
    -- `a` is not below `x`, so the filtered tail starts with an element at most `a`
    have hmem : a ∈ l.filter fun b => cmp b x ≠ .lt := by
      refine List.mem_filter.mpr ⟨ha, ?_⟩
      simp [Std.OrientedCmp.eq_symm hxa]
    obtain ⟨next, rest, hsplit⟩ := List.exists_cons_of_ne_nil (List.ne_nil_of_mem hmem)
    have hsorted : Sorted cmp (next :: rest) := hsplit ▸ hs.filter _
    have hxn : cmp x next ≠ .lt := by
      rw [hsplit] at hmem
      rcases List.mem_cons.mp hmem with rfl | hrest
      · simp [hxa]
      · intro hlt
        have hna := (sorted_cons.mp hsorted).1 a hrest
        exact absurd (hxa.symm.trans (Std.TransCmp.lt_trans hlt hna)) (by decide)
    rw [hsplit] at hnext
    simp [hnext, hxn]

/-- Where nothing compares equal to `x`, `insert` puts it between the elements
below it and the others. -/
theorem insert_eq_some {l : List α} (hs : Sorted cmp l) {x : α}
    (hx : ∀ a ∈ l, cmp x a ≠ .eq) :
    insert cmp l x =
      some ((l.filter fun a => cmp a x = .lt) ++ x :: l.filter fun a => cmp a x ≠ .lt) := by
  have hnone : insert cmp l x ≠ none := by
    rw [Ne, insert_eq_none_iff hs]
    rintro ⟨a, ha, hxa⟩
    exact hx a ha hxa
  rw [← take_seek hs, ← drop_seek hs]
  simp only [insert] at hnone ⊢
  split
  · split_ifs with h
    · simp_all
    · rfl
  · rfl

/-- The list `insert` builds is sorted. -/
theorem sorted_split {l : List α} (hs : Sorted cmp l) {x : α} (hx : ∀ a ∈ l, cmp x a ≠ .eq) :
    Sorted cmp ((l.filter fun a => cmp a x = .lt) ++ x :: l.filter fun a => cmp a x ≠ .lt) := by
  -- every element left of `x` is below it, every element right of it above it
  have habove : ∀ b ∈ l.filter (fun a => cmp a x ≠ .lt), cmp x b = .lt := by
    intro b hb
    obtain ⟨hbl, hbx⟩ := List.mem_filter.mp hb
    have hbx : cmp b x ≠ .lt := by simpa using hbx
    cases hc : cmp x b
    · rfl
    · exact absurd hc (hx b hbl)
    · exact absurd (Std.OrientedCmp.gt_iff_lt.mp hc) hbx
  refine List.pairwise_append.mpr ⟨hs.filter _, sorted_cons.mpr ⟨habove, hs.filter _⟩, ?_⟩
  intro a ha b hb
  have hax : cmp a x = .lt := by simpa using (List.mem_filter.mp ha).2
  rcases List.mem_cons.mp hb with rfl | hb
  · exact hax
  · exact Std.TransCmp.lt_trans hax (habove b hb)

/-- Below `seek` every element is below `x`; from it on none is. -/
theorem lt_iff_lt_seek {l : List α} (hs : Sorted cmp l) (x : α) {i : Nat} (hi : i < l.length) :
    cmp l[i] x = .lt ↔ i < seek cmp l x := by
  constructor
  · intro hlt
    by_contra hle
    have hlen : seek cmp l x < l.length := by omega
    have hnot : cmp l[seek cmp l x] x ≠ .lt := by
      simpa [seek] using List.findIdx_getElem (w := hlen)
    rcases Nat.lt_or_eq_of_le (Nat.not_lt.mp hle) with hlt' | heq
    · -- the element at `seek` is below the one at `i`, so below `x` as well
      exact hnot (Std.TransCmp.lt_trans (List.pairwise_iff_getElem.mp hs _ _ hlen hi hlt') hlt)
    · simp only [heq] at hnot
      exact hnot hlt
  · intro hlt
    simpa using List.not_of_lt_findIdx hlt

/-- An element equal to `x` sits at `seek`. -/
theorem seek_eq_of_eq {l : List α} (hs : Sorted cmp l) {x : α} {i : Nat} (hi : i < l.length)
    (h : cmp l[i] x = .eq) : seek cmp l x = i := by
  have hge : ¬i < seek cmp l x := fun hlt => by
    rw [(lt_iff_lt_seek hs x hi).mpr hlt] at h
    cases h
  rcases Nat.lt_or_eq_of_le (Nat.not_lt.mp hge) with hlt | heq
  · -- an element before `i` is below `l[i]`, so below `x`: it cannot be at `seek`
    have hlen : seek cmp l x < l.length := by omega
    have hbelow := Std.TransCmp.lt_of_lt_of_eq
      (List.pairwise_iff_getElem.mp hs _ _ hlen hi hlt) h
    exact absurd ((lt_iff_lt_seek hs x hlen).mp hbelow) (Nat.lt_irrefl _)
  · exact heq

/-- The elements not above `x`: those below it, then the one at `seek` if it
equals `x`. -/
theorem filter_not_gt {l : List α} (hs : Sorted cmp l) (x : α) :
    l.filter (fun a => cmp a x ≠ .gt) =
      l.take (seek cmp l x) ++ (l[seek cmp l x]?.filter fun a => cmp a x = .eq).toList := by
  conv_lhs => rw [← List.take_append_drop (seek cmp l x) l]
  rw [List.filter_append, take_seek hs x, List.filter_filter]
  congr 1
  · -- below `x` is not above it
    apply List.filter_congr
    intro a _
    by_cases h : cmp a x = .lt <;> simp [h]
  · rw [drop_seek hs x, ← List.head?_drop, drop_seek hs x]
    cases hd : l.filter (fun a => cmp a x ≠ .lt) with
    | nil => simp
    | cons a rest =>
      have hsorted : Sorted cmp (a :: rest) := hd ▸ hs.filter _
      have ha : cmp a x ≠ .lt := by
        have := List.mem_filter.mp (hd ▸ List.mem_cons_self : a ∈ l.filter fun a => cmp a x ≠ .lt)
        simpa using this.2
      -- what follows `a` is above `a`, which is not below `x`: so above `x`
      have hrest : ∀ b ∈ rest, cmp b x = .gt := by
        intro b hb
        have hab := (sorted_cons.mp hsorted).1 b hb
        have hxa : cmp x a ≠ .gt := fun hgt => ha (Std.OrientedCmp.gt_iff_lt.mp hgt)
        exact Std.OrientedCmp.gt_iff_lt.mpr (Std.TransCmp.lt_of_le_of_lt hxa hab)
      rw [List.filter_cons, List.filter_eq_nil_iff.mpr (by simp_all)]
      cases hc : cmp a x <;> simp_all [Option.filter]

/-- `x` has an equal in the list exactly when the element at `seek` is one. -/
theorem exists_eq_iff_seek {l : List α} (hs : Sorted cmp l) (x : α) :
    (∃ a ∈ l, cmp x a = .eq) ↔ ∃ a, l[seek cmp l x]? = some a ∧ cmp x a = .eq := by
  constructor
  · rintro ⟨a, ha, hxa⟩
    obtain ⟨i, hi, rfl⟩ := List.getElem_of_mem ha
    exact ⟨l[i], by rw [seek_eq_of_eq hs hi (Std.OrientedCmp.eq_symm hxa)]; simp, hxa⟩
  · rintro ⟨a, ha, hxa⟩
    exact ⟨a, List.mem_of_getElem? ha, hxa⟩

end Trans

/-! ## A cursor over the list

An iterator over sorted entries behaves, on well-formed input, as a cursor over
their keys: a position in the list, where the length stands for "not valid".
`cursorStep` says where each operation leaves it. `Next` and `Prev` may only be
asked of a valid cursor, and `cursorStep` has no answer otherwise.
-/

/-- The positioning operations of an iterator. -/
inductive CursorOp (α : Type) where
  | seekToFirst
  | seekToLast
  | seek (target : α)
  | seekForPrev (target : α)
  | next
  | prev
  deriving DecidableEq, Repr

section Cursor

variable (cmp : α → α → Ordering)

/-- The position of the last element not above `x`, or the length when there is
none. -/
def seekForPrev (l : List α) (x : α) : Nat :=
  let n := (l.takeWhile fun a => cmp a x ≠ .gt).length
  if n = 0 then l.length else n - 1

/-- Where an operation leaves a cursor at position `i`. -/
def cursorStep (l : List α) : CursorOp α → Nat → Option Nat
  | .seekToFirst, _ => some 0
  | .seekToLast, _ => some (l.length - 1)
  | .seek x, _ => some (seek cmp l x)
  | .seekForPrev x, _ => some (seekForPrev cmp l x)
  | .next, i => if i < l.length then some (i + 1) else none
  | .prev, i => if i < l.length then some (if i = 0 then l.length else i - 1) else none

/-- Where a sequence of operations leaves a cursor at position `i`. -/
def cursorRun (l : List α) : List (CursorOp α) → Nat → Option Nat
  | [], i => some i
  | op :: ops, i => (cursorStep cmp l op i).bind (cursorRun l ops)

variable {cmp} [Std.TransCmp cmp]

/-- In a sorted list the elements not above `x` are a prefix. -/
theorem takeWhile_not_gt {l : List α} (hs : Sorted cmp l) (x : α) :
    l.takeWhile (fun a => cmp a x ≠ .gt) = l.filter fun a => cmp a x ≠ .gt := by
  induction l with
  | nil => rfl
  | cons a l ih =>
    by_cases h : cmp a x = .gt
    · -- everything after `a` is above `a`, so above `x`
      have hrest : ∀ b ∈ l, cmp b x = .gt := fun b hb =>
        Std.OrientedCmp.gt_iff_lt.mpr (Std.TransCmp.lt_trans (Std.OrientedCmp.gt_iff_lt.mp h)
          ((sorted_cons.mp hs).1 b hb))
      rw [List.takeWhile_cons_of_neg (by simpa using h),
        List.filter_cons_of_neg (by simpa using h)]
      exact (List.filter_eq_nil_iff.mpr fun b hb => by simpa using hrest b hb).symm
    · rw [List.takeWhile_cons_of_pos (by simpa using h),
        List.filter_cons_of_pos (by simpa using h), ih (sorted_cons.mp hs).2]

/-- `seekForPrev` from `seek`: the element at `seek` when it equals `x`, else
the one before it, or none when `seek` is the first position. -/
theorem seekForPrev_eq {l : List α} (hs : Sorted cmp l) (x : α) :
    seekForPrev cmp l x =
      if ∃ a, l[seek cmp l x]? = some a ∧ cmp a x = .eq then seek cmp l x
      else if seek cmp l x = 0 then l.length else seek cmp l x - 1 := by
  have hlen : (l.takeWhile fun a => cmp a x ≠ .gt).length =
      seek cmp l x + if ∃ a, l[seek cmp l x]? = some a ∧ cmp a x = .eq then 1 else 0 := by
    rw [takeWhile_not_gt hs, filter_not_gt hs, List.length_append,
      List.length_take_of_le (seek_le_length l x)]
    congr 1
    cases l[seek cmp l x]? with
    | none => simp
    | some a => by_cases h : cmp a x = .eq <;> simp [Option.filter, h]
  unfold seekForPrev
  dsimp only
  rw [hlen]
  by_cases hP : ∃ a, l[seek cmp l x]? = some a ∧ cmp a x = .eq <;> simp [hP]

end Cursor

end SortedList
