import Mathlib
import RocksDB.Util.Comparator
import RocksDB.Lib.SortedList
import RocksDB.Lib.CmpOrder

/-!
# `InternalKeyComparator`

The comparator of internal keys over a user comparator. On encoded keys it
compares the user keys, then the packed fixed64 footers as numbers, larger first;
on parsed keys it compares the user keys, then sequence numbers and types
separately, larger first. The footer packs the sequence number above the type
byte, so the two agree on every key whose sequence number fits in 56 bits
(`compare_appendInternalKey`).

On encoded keys the comparator is the lexicographic combination of the user
comparator on `ExtractUserKey` and the reversed order of the footers
(`compare_eq_compareLex`), so it inherits transitivity from the user comparator,
and it is a linear order on the keys `ParseInternalKey` accepts.

`FindShortestSeparator` and `FindShortSuccessor` shorten the user key with the
user comparator's functions and keep the result only when it is no longer and
compares above the old user key, with the footer of the earliest entry of that
user key. With the reverse bytewise comparator the inherited bytewise functions
only ever move a key up in the bytewise order, which is down in the reversed one,
so that guard never passes and keys are left as they are.
-/

namespace RocksDB

namespace InternalKeyComparator

open SortedList

variable (c : Comparator)

/-- `InternalKeyComparator::Compare(const Slice&, const Slice&)`. -/
def compare (akey bkey : List UInt8) : Ordering :=
  match c.compare (extractUserKey akey) (extractUserKey bkey) with
  | .eq =>
    let anum := decodeFixed64 (akey.drop (akey.length - 8))
    let bnum := decodeFixed64 (bkey.drop (bkey.length - 8))
    if anum > bnum then .lt else if anum < bnum then .gt else .eq
  | r => r

/-- `InternalKeyComparator::Compare(const ParsedInternalKey&, ...)`. -/
def compareParsed (a b : ParsedInternalKey (List UInt8)) : Ordering :=
  match c.compare a.userKey b.userKey with
  | .eq =>
    if a.sequence > b.sequence then .lt
    else if a.sequence < b.sequence then .gt
    else if a.type > b.type then .lt
    else if a.type < b.type then .gt
    else .eq
  | r => r

/-- `InternalKeyComparator::FindShortestSeparator`. -/
def findShortestSeparator (start limit : List UInt8) : List UInt8 :=
  let userStart := extractUserKey start
  let userLimit := extractUserKey limit
  let tmp := c.findShortestSeparator userStart userLimit
  if tmp.length ≤ userStart.length ∧ c.compare userStart tmp = .lt then
    -- shorter physically but larger logically: the earliest entry of the new user key
    putFixed64 tmp (packSequenceAndType kMaxSequenceNumber kValueTypeForSeek)
  else start

/-- `InternalKeyComparator::FindShortSuccessor`. -/
def findShortSuccessor (key : List UInt8) : List UInt8 :=
  let userKey := extractUserKey key
  let tmp := c.findShortSuccessor userKey
  if tmp.length ≤ userKey.length ∧ c.compare userKey tmp = .lt then
    putFixed64 tmp (packSequenceAndType kMaxSequenceNumber kValueTypeForSeek)
  else key

/-- The footer of an internal key read as a number. -/
def footer (ikey : List UInt8) : Nat := (decodeFixed64 (ikey.drop (ikey.length - 8))).toNat

/-! ## The comparator as a lexicographic combination -/

theorem compare_eq_then (a b : List UInt8) :
    compare c a b =
      (c.compare (extractUserKey a) (extractUserKey b)).then (Ord.compare (footer b) (footer a)) := by
  unfold compare footer
  cases c.compare (extractUserKey a) (extractUserKey b) with
  | lt => rfl
  | gt => rfl
  | eq =>
    simp only [Ordering.eq_then, gt_iff_lt, UInt64.lt_iff_toNat_lt]
    split_ifs with h₁ h₂
    · exact (Nat.compare_eq_lt.mpr h₁).symm
    · exact (Nat.compare_eq_gt.mpr h₂).symm
    · exact (Nat.compare_eq_eq.mpr (by omega)).symm

theorem compare_eq_compareLex :
    compare c = compareLex (byKey c.compare extractUserKey)
      (byKey (fun x y : Nat => Ord.compare y x) footer) := by
  funext a b
  rw [compare_eq_then]
  rfl

instance [Std.TransCmp c.compare] : Std.TransCmp (compare c) := by
  rw [compare_eq_compareLex]
  infer_instance

variable {c}

theorem compare_self (hrefl : ∀ u, c.compare u u = .eq) (k : List UInt8) :
    compare c k k = .eq := by
  rw [compare_eq_then, hrefl, Ordering.eq_then, Nat.compare_eq_eq.mpr rfl]

theorem compare_of_userKey (a b : List UInt8)
    (h : c.compare (extractUserKey a) (extractUserKey b) ≠ .eq) :
    compare c a b = c.compare (extractUserKey a) (extractUserKey b) := by
  rw [compare_eq_then]
  cases hc : c.compare (extractUserKey a) (extractUserKey b) with
  | lt => rfl
  | eq => exact absurd hc h
  | gt => rfl

/-- Keys in order have their user keys in order. -/
theorem userKey_ne_gt_of_ne_gt {a b : List UInt8} (h : compare c a b ≠ .gt) :
    c.compare (extractUserKey a) (extractUserKey b) ≠ .gt := by
  rw [compare_eq_then] at h
  intro hgt
  rw [hgt] at h
  exact h rfl

theorem footer_appendInternalKey_eq (a : ParsedInternalKey (List UInt8))
    (ha : a.sequence ≤ kMaxSequenceNumber) :
    footer (appendInternalKey [] a) = a.sequence * 256 + a.type.toUInt8.toNat :=
  footer_appendInternalKey a ha

/-! ## Encoded and parsed keys compare alike -/

theorem valueType_lt_iff {s t : ValueType} : s < t ↔ s.toUInt8.toNat < t.toUInt8.toNat :=
  UInt8.lt_iff_toNat_lt

/-- The packed footers compare as the sequence numbers, then the types: the
sequence number sits above the type byte. -/
theorem compare_appendInternalKey (a b : ParsedInternalKey (List UInt8))
    (ha : a.sequence ≤ kMaxSequenceNumber) (hb : b.sequence ≤ kMaxSequenceNumber) :
    compare c (appendInternalKey [] a) (appendInternalKey [] b) = compareParsed c a b := by
  have hta := a.type.toUInt8.toNat_lt
  have htb := b.type.toUInt8.toNat_lt
  rw [compare_eq_then, extractUserKey_appendInternalKey, extractUserKey_appendInternalKey,
    footer_appendInternalKey_eq a ha, footer_appendInternalKey_eq b hb]
  unfold compareParsed
  cases c.compare a.userKey b.userKey with
  | lt => rfl
  | gt => rfl
  | eq =>
    simp only [Ordering.eq_then, gt_iff_lt, valueType_lt_iff]
    split_ifs with h₁ h₂ h₃ h₄
    · exact Nat.compare_eq_lt.mpr (by omega)
    · exact Nat.compare_eq_gt.mpr (by omega)
    · exact Nat.compare_eq_lt.mpr (by omega)
    · exact Nat.compare_eq_gt.mpr (by omega)
    · exact Nat.compare_eq_eq.mpr (by omega)

/-! ## A linear order on the keys `ParseInternalKey` accepts -/

theorem length_of_parseInternalKey {k : List UInt8} (h : (parseInternalKey k).isSome) :
    8 ≤ k.length := by
  by_contra hlt
  simp [parseInternalKey, show k.length < 8 by omega] at h

/-- Keys of at least eight bytes that compare equal are equal, once the user
comparator's `.eq` is equality. -/
theorem eq_of_compare_eq [Std.LawfulEqCmp c.compare] {a b : List UInt8} (ha : 8 ≤ a.length)
    (hb : 8 ≤ b.length) (h : compare c a b = .eq) : a = b := by
  rw [compare_eq_then, Ordering.then_eq_eq] at h
  obtain ⟨huser, hfoot⟩ := h
  have huk : extractUserKey a = extractUserKey b := Std.LawfulEqCmp.eq_of_compare huser
  have hnum : decodeFixed64 (a.drop (a.length - 8)) = decodeFixed64 (b.drop (b.length - 8)) :=
    UInt64.toNat_inj.mp (Nat.compare_eq_eq.mp hfoot).symm
  -- the footers are the eight bytes their words encode
  have hdrop : a.drop (a.length - 8) = b.drop (b.length - 8) := by
    have hea := @encodeFixed64_decodeFixed64 (a.drop (a.length - 8)) (by simp; omega)
    have heb := @encodeFixed64_decodeFixed64 (b.drop (b.length - 8)) (by simp; omega)
    rw [List.take_of_length_le (by simp; omega)] at hea heb
    rw [← hea, ← heb, hnum]
  rw [← List.take_append_drop (a.length - 8) a, ← List.take_append_drop (b.length - 8) b]
  exact congrArg₂ (· ++ ·) huk hdrop

variable (c)

/-- The two comparators of internal keys agree on every key whose sequence number
fits in 56 bits, and over a user comparator that is a total order the comparator
of encoded keys is a linear order on the strings `ParseInternalKey` accepts:
reflexive, antisymmetric, transitive and total. -/
theorem internalKeyComparator_compare_agrees_and_orders [Std.TransCmp c.compare]
    [Std.LawfulEqCmp c.compare] :
    (∀ a b : ParsedInternalKey (List UInt8), a.sequence ≤ kMaxSequenceNumber →
      b.sequence ≤ kMaxSequenceNumber →
      compare c (appendInternalKey [] a) (appendInternalKey [] b) = compareParsed c a b) ∧
    IsLinearOrder {k : List UInt8 // (parseInternalKey k).isSome}
      (fun a b => compare c a.1 b.1 ≠ .gt) :=
  ⟨fun a b ha hb => compare_appendInternalKey a b ha hb,
    @CmpOrder.isLinearOrder _ (byKey (compare c) Subtype.val) _ fun a b h =>
      Subtype.ext (eq_of_compare_eq (length_of_parseInternalKey a.2)
        (length_of_parseInternalKey b.2) h)⟩

theorem internalKeyComparator_compare_agrees_and_orders_bytewise :
    compare bytewiseComparator (appendInternalKey [] ⟨[1], 5, .value⟩)
        (appendInternalKey [] ⟨[1], 3, .merge⟩) =
      compareParsed bytewiseComparator ⟨[1], 5, .value⟩ ⟨[1], 3, .merge⟩ ∧
    compareParsed bytewiseComparator ⟨[1], 5, .value⟩ ⟨[1], 3, .merge⟩ = .lt ∧
    IsLinearOrder {k : List UInt8 // (parseInternalKey k).isSome}
      (fun a b => compare bytewiseComparator a.1 b.1 ≠ .gt) :=
  ⟨(internalKeyComparator_compare_agrees_and_orders bytewiseComparator).1 _ _ (by decide)
    (by decide), by decide, (internalKeyComparator_compare_agrees_and_orders bytewiseComparator).2⟩

/-! ## Shortening keys -/

section Shortening

theorem extractUserKey_putFixed64 (tmp : List UInt8) (v : UInt64) :
    extractUserKey (putFixed64 tmp v) = tmp := by
  simp [extractUserKey, putFixed64]

theorem bytewise_compare_self (u : List UInt8) : bytewiseComparator.compare u u = .eq :=
  bytewiseCompare_self u

theorem reverseBytewise_compare_self (u : List UInt8) :
    reverseBytewiseComparator.compare u u = .eq := by
  simp [reverseBytewiseComparator]

/-- With the bytewise user comparator a separator of `start < limit` lies in
`[start, limit)`: a user key that moved moved strictly up and stayed below
`limit`'s. -/
theorem bytewise_findShortestSeparator {start limit : List UInt8}
    (h : compare bytewiseComparator start limit = .lt) :
    compare bytewiseComparator start (findShortestSeparator bytewiseComparator start limit) ≠ .gt ∧
      compare bytewiseComparator (findShortestSeparator bytewiseComparator start limit) limit =
        .lt := by
  have hspec := bytewiseFindShortestSeparator_spec (extractUserKey start) (extractUserKey limit)
  simp only [findShortestSeparator]
  split_ifs with hguard
  · obtain ⟨-, hup⟩ := hguard
    simp only [bytewiseComparator_compare, bytewiseComparator_findShortestSeparator] at hup ⊢
    -- the user key moved, so `start`'s was below `limit`'s
    have huser : bytewiseCompare (extractUserKey start) (extractUserKey limit) = .lt := by
      by_contra hne
      rw [hspec.2 hne, bytewiseCompare_self] at hup
      cases hup
    have hdown := (hspec.1 huser).2.1
    have hlo : compare bytewiseComparator start (putFixed64
        (bytewiseFindShortestSeparator (extractUserKey start) (extractUserKey limit))
        (packSequenceAndType kMaxSequenceNumber kValueTypeForSeek)) = .lt := by
      rw [compare_of_userKey] <;> simp [extractUserKey_putFixed64, hup]
    have hhi : compare bytewiseComparator (putFixed64
        (bytewiseFindShortestSeparator (extractUserKey start) (extractUserKey limit))
        (packSequenceAndType kMaxSequenceNumber kValueTypeForSeek)) limit = .lt := by
      rw [compare_of_userKey] <;> simp [extractUserKey_putFixed64, hdown]
    exact ⟨by rw [hlo]; decide, hhi⟩
  · exact ⟨by rw [compare_self bytewise_compare_self]; decide, h⟩

/-- The inherited bytewise separator never moves a key down bytewise, which is
what the reversed guard asks, so the key stays. -/
theorem reverseBytewise_findShortestSeparator (start limit : List UInt8) :
    findShortestSeparator reverseBytewiseComparator start limit = start := by
  have hspec := bytewiseFindShortestSeparator_spec (extractUserKey start) (extractUserKey limit)
  have hnot : bytewiseCompare (extractUserKey start)
      (bytewiseFindShortestSeparator (extractUserKey start) (extractUserKey limit)) ≠ .gt := by
    by_cases huser : bytewiseCompare (extractUserKey start) (extractUserKey limit) = .lt
    · exact (hspec.1 huser).1
    · rw [hspec.2 huser, bytewiseCompare_self]
      decide
  simp only [findShortestSeparator]
  rw [if_neg]
  rintro ⟨-, hguard⟩
  rw [reverseBytewiseComparator_compare, reverseBytewiseComparator_findShortestSeparator] at hguard
  exact hnot (Ordering.swap_eq_lt.mp hguard)

theorem bytewise_findShortSuccessor (key : List UInt8) :
    compare bytewiseComparator key (findShortSuccessor bytewiseComparator key) ≠ .gt := by
  simp only [findShortSuccessor]
  split_ifs with hguard
  · obtain ⟨-, hup⟩ := hguard
    have hlo : compare bytewiseComparator key (putFixed64
        (bytewiseComparator.findShortSuccessor (extractUserKey key))
        (packSequenceAndType kMaxSequenceNumber kValueTypeForSeek)) = .lt := by
      rw [compare_of_userKey] <;> simp_all [extractUserKey_putFixed64]
    rw [hlo]
    decide
  · rw [compare_self bytewise_compare_self]
    decide

theorem reverseBytewise_findShortSuccessor (key : List UInt8) :
    findShortSuccessor reverseBytewiseComparator key = key := by
  have hnot := (bytewiseFindShortSuccessor_spec (extractUserKey key)).1
  simp only [findShortSuccessor]
  rw [if_neg]
  rintro ⟨-, hguard⟩
  rw [reverseBytewiseComparator_compare, reverseBytewiseComparator_findShortSuccessor] at hguard
  exact hnot (Ordering.swap_eq_lt.mp hguard)

/-- For the bytewise and the reverse bytewise user comparators, the separator of
two internal keys `start < limit` lies in `[start, limit)` and the short
successor of a key is not below it. -/
theorem internalKeyComparator_shortening_keeps_order :
    ∀ c ∈ [bytewiseComparator, reverseBytewiseComparator],
      (∀ start limit : List UInt8, compare c start limit = .lt →
        compare c start (findShortestSeparator c start limit) ≠ .gt ∧
          compare c (findShortestSeparator c start limit) limit = .lt) ∧
      ∀ key : List UInt8, compare c key (findShortSuccessor c key) ≠ .gt := by
  intro c hc
  simp only [List.mem_cons, List.not_mem_nil, or_false] at hc
  rcases hc with rfl | rfl
  · exact ⟨fun _ _ h => bytewise_findShortestSeparator h, bytewise_findShortSuccessor⟩
  · refine ⟨fun start limit h => ?_, fun key => ?_⟩
    · rw [reverseBytewise_findShortestSeparator]
      exact ⟨by rw [compare_self reverseBytewise_compare_self]; decide, h⟩
    · rw [reverseBytewise_findShortSuccessor, compare_self reverseBytewise_compare_self]
      decide

theorem internalKeyComparator_shortening_keeps_order_sample :
    compare bytewiseComparator (appendInternalKey [] ⟨[1, 2, 3], 7, .value⟩)
        (appendInternalKey [] ⟨[1, 5], 2, .value⟩) = .lt ∧
      compare bytewiseComparator (appendInternalKey [] ⟨[1, 2, 3], 7, .value⟩)
        (findShortestSeparator bytewiseComparator (appendInternalKey [] ⟨[1, 2, 3], 7, .value⟩)
          (appendInternalKey [] ⟨[1, 5], 2, .value⟩)) ≠ .gt ∧
      compare bytewiseComparator
        (findShortestSeparator bytewiseComparator (appendInternalKey [] ⟨[1, 2, 3], 7, .value⟩)
          (appendInternalKey [] ⟨[1, 5], 2, .value⟩))
        (appendInternalKey [] ⟨[1, 5], 2, .value⟩) = .lt :=
  ⟨by decide, (internalKeyComparator_shortening_keeps_order bytewiseComparator (by simp)).1 _ _
    (by decide)⟩

end Shortening

end InternalKeyComparator

/-- `internalKeyCompare` is the comparator of encoded keys over the bytewise
comparator, so it is transitive. -/
theorem internalKeyCompare_eq_compare :
    internalKeyCompare = InternalKeyComparator.compare bytewiseComparator := by
  funext a b
  unfold internalKeyCompare InternalKeyComparator.compare
  rw [bytewiseComparator_compare]
  cases bytewiseCompare (extractUserKey a) (extractUserKey b) with
  | eq => simp only [gt_iff_lt, UInt64.lt_iff_toNat_lt]
  | lt => rfl
  | gt => rfl

instance : Std.TransCmp internalKeyCompare := by
  rw [internalKeyCompare_eq_compare]
  infer_instance

end RocksDB
