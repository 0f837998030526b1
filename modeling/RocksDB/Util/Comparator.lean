import Mathlib
import RocksDB.Db.DbFormat

/-!
# `util/comparator.cc`: the bytewise comparators

A `Comparator` orders user keys and shortens index keys: `FindShortestSeparator`
moves `start` towards `limit` and `FindShortSuccessor` moves a key up, both to a
shorter string. The bytewise implementation works on the first byte where
`start` and `limit` differ: it bumps that byte when the result stays below
`limit`, and otherwise skips it and bumps the first later byte of `start` that is
not `0xff`. `ReverseBytewiseComparator` reverses `Compare` and keeps both
shortening functions of the bytewise one.

The separator is shown to lie in `[start, limit)` and to be no longer than
`start`, and to be `start` itself when `start` is not below `limit`
(`bytewiseFindShortestSeparator_spec`). Its cases reduce to the first differing
byte through `bytewiseFindShortestSeparator_cons`.
-/

namespace RocksDB

/-- A user comparator: `Compare`, `FindShortestSeparator` and `FindShortSuccessor`,
the last two returning the string they update in place. -/
structure Comparator where
  compare : List UInt8 → List UInt8 → Ordering
  findShortestSeparator : List UInt8 → List UInt8 → List UInt8
  findShortSuccessor : List UInt8 → List UInt8

/-- The length of the common prefix of `start` and `limit`: where the first loop
of `FindShortestSeparator` stops. -/
def diffIndex : List UInt8 → List UInt8 → Nat
  | a :: as, b :: bs => if a = b then diffIndex as bs + 1 else 0
  | _, _ => 0

/-- The loop that increments the first byte that is not `0xff` and resizes the
string to end just after it; `none` when every byte is `0xff`. -/
def bumpFirstBelowMax : List UInt8 → Option (List UInt8)
  | [] => none
  | b :: rest => if b < 0xff then some [b + 1] else (bumpFirstBelowMax rest).map (b :: ·)

/-- `BytewiseComparatorImpl::FindShortestSeparator`. -/
def bytewiseFindShortestSeparator (start limit : List UInt8) : List UInt8 :=
  let diffIndex := diffIndex start limit
  if diffIndex ≥ min start.length limit.length then
    -- one string is a prefix of the other
    start
  else
    let startByte := start.getD diffIndex 0
    let limitByte := limit.getD diffIndex 0
    if startByte ≥ limitByte then start
    else if diffIndex < limit.length - 1 ∨ startByte.toNat + 1 < limitByte.toNat then
      start.take diffIndex ++ [startByte + 1]
    else
      -- bumping this byte would reach `limit`: bump a later one of `start`
      match bumpFirstBelowMax (start.drop (diffIndex + 1)) with
      | some tail => start.take (diffIndex + 1) ++ tail
      | none => start

/-- `BytewiseComparatorImpl::FindShortSuccessor`. -/
def bytewiseFindShortSuccessor (key : List UInt8) : List UInt8 :=
  (bumpFirstBelowMax key).getD key

/-- `BytewiseComparator()`. -/
def bytewiseComparator : Comparator :=
  ⟨bytewiseCompare, bytewiseFindShortestSeparator, bytewiseFindShortSuccessor⟩

/-- `ReverseBytewiseComparator()`: `-a.compare(b)`, with the bytewise shortening
functions it inherits. -/
def reverseBytewiseComparator : Comparator :=
  ⟨fun a b => (bytewiseCompare a b).swap, bytewiseFindShortestSeparator,
    bytewiseFindShortSuccessor⟩

@[simp] theorem bytewiseComparator_compare : bytewiseComparator.compare = bytewiseCompare := rfl

@[simp] theorem bytewiseComparator_findShortestSeparator :
    bytewiseComparator.findShortestSeparator = bytewiseFindShortestSeparator := rfl

@[simp] theorem bytewiseComparator_findShortSuccessor :
    bytewiseComparator.findShortSuccessor = bytewiseFindShortSuccessor := rfl

@[simp] theorem reverseBytewiseComparator_compare (a b : List UInt8) :
    reverseBytewiseComparator.compare a b = (bytewiseCompare a b).swap := rfl

@[simp] theorem reverseBytewiseComparator_findShortestSeparator :
    reverseBytewiseComparator.findShortestSeparator = bytewiseFindShortestSeparator := rfl

@[simp] theorem reverseBytewiseComparator_findShortSuccessor :
    reverseBytewiseComparator.findShortSuccessor = bytewiseFindShortSuccessor := rfl

instance : Std.TransCmp bytewiseComparator.compare := inferInstanceAs (Std.TransCmp bytewiseCompare)

instance : Std.LawfulEqCmp bytewiseComparator.compare :=
  inferInstanceAs (Std.LawfulEqCmp bytewiseCompare)

/-! ## The bytewise order on the first bytes -/

theorem bytewiseCompare_cons (x y : UInt8) (s l : List UInt8) :
    bytewiseCompare (x :: s) (y :: l) = (compare x.toNat y.toNat).then (bytewiseCompare s l) := by
  simp [bytewiseCompare, List.compare_cons_cons]

@[simp] theorem bytewiseCompare_cons_self (x : UInt8) (s l : List UInt8) :
    bytewiseCompare (x :: s) (x :: l) = bytewiseCompare s l := by
  simp [bytewiseCompare_cons]

@[simp] theorem bytewiseCompare_nil_cons (y : UInt8) (l : List UInt8) :
    bytewiseCompare [] (y :: l) = .lt := by
  simp [bytewiseCompare, List.compare_nil_cons]

@[simp] theorem bytewiseCompare_cons_nil (x : UInt8) (s : List UInt8) :
    bytewiseCompare (x :: s) [] = .gt := by
  simp [bytewiseCompare, List.compare_cons_nil]

theorem bytewiseCompare_cons_of_lt {x y : UInt8} (h : x.toNat < y.toNat) (s l : List UInt8) :
    bytewiseCompare (x :: s) (y :: l) = .lt := by
  rw [bytewiseCompare_cons, Nat.compare_eq_lt.mpr h]
  rfl

theorem bytewiseCompare_cons_of_gt {x y : UInt8} (h : y.toNat < x.toNat) (s l : List UInt8) :
    bytewiseCompare (x :: s) (y :: l) = .gt := by
  rw [bytewiseCompare_cons, Nat.compare_eq_gt.mpr h]
  rfl

theorem toNat_add_one_of_lt {b c : UInt8} (h : b.toNat < c.toNat) : (b + 1).toNat = b.toNat + 1 := by
  have := c.toNat_lt
  rw [UInt8.toNat_add, show (1 : UInt8).toNat = 1 from rfl]
  omega

/-! ## The bump loop -/

/-- A bumped string is larger and no longer. -/
theorem bumpFirstBelowMax_some {s t : List UInt8} (h : bumpFirstBelowMax s = some t) :
    bytewiseCompare s t = .lt ∧ t.length ≤ s.length := by
  induction s generalizing t with
  | nil => cases h
  | cons b rest ih =>
    simp only [bumpFirstBelowMax] at h
    split_ifs at h with hb
    · -- the byte itself is bumped
      cases h
      have hb' : b.toNat < (0xff : UInt8).toNat := UInt8.lt_iff_toNat_lt.mp hb
      refine ⟨bytewiseCompare_cons_of_lt ?_ _ _, by simp⟩
      rw [toNat_add_one_of_lt hb']
      omega
    · obtain ⟨t', ht', rfl⟩ := Option.map_eq_some_iff.mp h
      obtain ⟨hlt, hlen⟩ := ih ht'
      exact ⟨by simpa using hlt, by simpa using hlen⟩

/-! ## The separator -/

/-- Equal first bytes are kept and the search goes on behind them. -/
theorem bytewiseFindShortestSeparator_cons (a : UInt8) (s l : List UInt8) :
    bytewiseFindShortestSeparator (a :: s) (a :: l) = a :: bytewiseFindShortestSeparator s l := by
  have hd : diffIndex (a :: s) (a :: l) = diffIndex s l + 1 := by simp [diffIndex]
  -- every test reads one position further into the same strings
  simp only [bytewiseFindShortestSeparator, hd, List.length_cons, List.getD_cons_succ,
    List.take_succ_cons, List.drop_succ_cons, Nat.add_sub_cancel, Nat.succ_min_succ,
    ge_iff_le, Nat.succ_le_succ_iff, Nat.lt_sub_iff_add_lt]
  split_ifs
  · rfl
  · rfl
  · rfl
  · split <;> rfl

/-- At the first differing byte the separator is decided by the two bytes. -/
theorem bytewiseFindShortestSeparator_head {x y : UInt8} (hxy : x ≠ y) (s l : List UInt8) :
    bytewiseFindShortestSeparator (x :: s) (y :: l) =
      if y ≤ x then x :: s
      else if 0 < l.length ∨ x.toNat + 1 < y.toNat then [x + 1]
      else match bumpFirstBelowMax s with
        | some tail => x :: tail
        | none => x :: s := by
  simp only [bytewiseFindShortestSeparator, diffIndex, hxy, if_false, List.length_cons,
    List.getD_cons_zero, List.take_zero, List.nil_append, Nat.add_sub_cancel, ge_iff_le,
    Nat.le_zero, Nat.min_eq_zero_iff, Nat.add_one_ne_zero, or_self, List.drop_succ_cons,
    List.drop_zero, List.take_succ_cons]
  split_ifs <;> rfl

section Separator

/-- The separator when the strings first differ at the head. -/
theorem bytewiseFindShortestSeparator_head_spec {x y : UInt8} (hxy : x ≠ y) (s l : List UInt8) :
    (bytewiseCompare (x :: s) (y :: l) = .lt →
      bytewiseCompare (x :: s) (bytewiseFindShortestSeparator (x :: s) (y :: l)) ≠ .gt ∧
      bytewiseCompare (bytewiseFindShortestSeparator (x :: s) (y :: l)) (y :: l) = .lt ∧
      (bytewiseFindShortestSeparator (x :: s) (y :: l)).length ≤ (x :: s).length) ∧
    (bytewiseCompare (x :: s) (y :: l) ≠ .lt →
      bytewiseFindShortestSeparator (x :: s) (y :: l) = x :: s) := by
  have hne : x.toNat ≠ y.toNat := fun h => hxy (UInt8.toNat_inj.mp h)
  rw [bytewiseFindShortestSeparator_head hxy]
  by_cases hyx : y ≤ x
  · -- `start` is above `limit`: nothing moves
    have hgt : y.toNat < x.toNat := by have := UInt8.le_iff_toNat_le.mp hyx; omega
    rw [if_pos hyx, bytewiseCompare_cons_of_gt hgt]
    exact ⟨fun h => absurd h (by decide), fun _ => rfl⟩
  have hlt : x.toNat < y.toNat := by have := UInt8.le_iff_toNat_le.not.mp hyx; omega
  have hsucc := toNat_add_one_of_lt hlt
  rw [if_neg hyx, bytewiseCompare_cons_of_lt hlt]
  refine ⟨fun _ => ?_, fun h => absurd rfl h⟩
  split_ifs with hroom
  · -- the differing byte is bumped and the rest cut off
    refine ⟨by rw [bytewiseCompare_cons_of_lt (by omega)]; decide, ?_, by simp⟩
    rcases Nat.lt_or_ge (x.toNat + 1) y.toNat with hgap | hgap
    · exact bytewiseCompare_cons_of_lt (by omega) _ _
    · -- the bumped byte is `limit`'s, and `limit` goes on after it
      have hy : x + 1 = y := UInt8.toNat_inj.mp (by omega)
      obtain ⟨z, l', rfl⟩ := List.exists_cons_of_ne_nil
        (List.ne_nil_of_length_pos (hroom.resolve_right (by omega)))
      rw [hy, bytewiseCompare_cons_self, bytewiseCompare_nil_cons]
  · split
    · rename_i tail htail
      obtain ⟨hst, hlen⟩ := bumpFirstBelowMax_some htail
      exact ⟨by rw [bytewiseCompare_cons_self, hst]; decide,
        bytewiseCompare_cons_of_lt hlt _ _, by simpa using hlen⟩
    · exact ⟨by rw [bytewiseCompare_self]; decide, bytewiseCompare_cons_of_lt hlt _ _, le_refl _⟩

/-- `FindShortestSeparator` gives a string in `[start, limit)` no longer than
`start` when `start < limit`, and leaves `start` alone otherwise. -/
theorem bytewiseFindShortestSeparator_spec (start limit : List UInt8) :
    (bytewiseCompare start limit = .lt →
      bytewiseCompare start (bytewiseFindShortestSeparator start limit) ≠ .gt ∧
      bytewiseCompare (bytewiseFindShortestSeparator start limit) limit = .lt ∧
      (bytewiseFindShortestSeparator start limit).length ≤ start.length) ∧
    (bytewiseCompare start limit ≠ .lt → bytewiseFindShortestSeparator start limit = start) := by
  -- induction along the common prefix
  induction start generalizing limit with
  | nil =>
    have hsep : bytewiseFindShortestSeparator [] limit = [] := by
      simp [bytewiseFindShortestSeparator, diffIndex]
    rw [hsep]
    exact ⟨fun h => ⟨by simp, h, le_refl _⟩, fun _ => rfl⟩
  | cons x s ih =>
    cases limit with
    | nil =>
      have hsep : bytewiseFindShortestSeparator (x :: s) [] = x :: s := by
        simp [bytewiseFindShortestSeparator, diffIndex]
      rw [hsep, bytewiseCompare_cons_nil]
      exact ⟨fun h => absurd h (by decide), fun _ => rfl⟩
    | cons y l =>
      by_cases hxy : x = y
      · subst hxy
        obtain ⟨ihlt, ihge⟩ := ih l
        rw [bytewiseFindShortestSeparator_cons, bytewiseCompare_cons_self,
          bytewiseCompare_cons_self, bytewiseCompare_cons_self]
        exact ⟨fun h => ⟨(ihlt h).1, (ihlt h).2.1, by simpa using (ihlt h).2.2⟩,
          fun h => by rw [ihge h]⟩
      · exact bytewiseFindShortestSeparator_head_spec hxy s l

theorem bytewiseFindShortestSeparator_spec_sample :
    bytewiseCompare [1, 2, 3] [1, 5] = .lt ∧
      bytewiseFindShortestSeparator [1, 2, 3] [1, 5] = [1, 3] ∧
      bytewiseCompare [1, 2, 3] (bytewiseFindShortestSeparator [1, 2, 3] [1, 5]) ≠ .gt ∧
      bytewiseCompare (bytewiseFindShortestSeparator [1, 2, 3] [1, 5]) [1, 5] = .lt ∧
      (bytewiseFindShortestSeparator [1, 2, 3] [1, 5]).length ≤ [(1 : UInt8), 2, 3].length :=
  ⟨by decide, by decide, (bytewiseFindShortestSeparator_spec [1, 2, 3] [1, 5]).1 (by decide)⟩

end Separator

/-- `FindShortSuccessor` moves a key up, to a string no longer than it; a run of
`0xff`s stays as it is. -/
theorem bytewiseFindShortSuccessor_spec (key : List UInt8) :
    bytewiseCompare key (bytewiseFindShortSuccessor key) ≠ .gt ∧
      (bytewiseFindShortSuccessor key).length ≤ key.length := by
  unfold bytewiseFindShortSuccessor
  cases h : bumpFirstBelowMax key with
  | none => exact ⟨by rw [Option.getD_none, bytewiseCompare_self]; decide, le_refl _⟩
  | some t =>
    obtain ⟨hlt, hlen⟩ := bumpFirstBelowMax_some h
    exact ⟨by rw [Option.getD_some, hlt]; decide, hlen⟩

end RocksDB
