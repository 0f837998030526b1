import Mathlib
import RocksDB.Util.Coding

/-!
# `db/dbformat.h`: value types, internal keys and statuses

An internal key is a user key followed by an eight-byte footer packing the
sequence number (56 bits) and the value type (8 bits). Parsed internal keys are
generic in the user-key type `K`: modules that hold for any user comparator take
any linear order, and the byte-level encoding below instantiates `K` with byte
strings.

`InternalKeyComparator::Compare` on parsed keys is `internalCompare`: user key
ascending, then sequence number descending, then type descending.

The `Status` codes the modelled functions return live here too.
-/

namespace RocksDB

/-- `Status::SubCode`. -/
inductive SubCode where
  | none
  | mutexTimeout
  | lockTimeout
  | lockLimit
  | noSpace
  | deadlock
  | staleFile
  | memoryLimit
  deriving DecidableEq, Repr

/-- The codes of `rocksdb::Status` the modelled functions produce; messages are
the source's texts. -/
inductive Status where
  | ok
  | notFound
  | corruption (msg : String)
  | notSupported (msg : String)
  | invalidArgument (msg : String)
  | incomplete (msg : String)
  | mergeInProgress
  | tryAgain
  | memoryLimit
  | busy (subcode : SubCode)
  | timedOut (subcode : SubCode)
  deriving DecidableEq, Repr

/-- `ValueType`, the tag byte of internal keys and write-batch records. -/
inductive ValueType where
  | deletion
  | value
  | merge
  | logData
  | columnFamilyDeletion
  | columnFamilyValue
  | columnFamilyMerge
  | singleDeletion
  | columnFamilySingleDeletion
  | beginPrepareXID
  | endPrepareXID
  | commitXID
  | rollbackXID
  | noop
  | columnFamilyRangeDeletion
  | rangeDeletion
  | columnFamilyBlobIndex
  | blobIndex
  | beginPersistedPrepareXID
  deriving DecidableEq, Repr

namespace ValueType

/-- The on-disk byte of each value type. -/
def toUInt8 : ValueType → UInt8
  | deletion => 0x0
  | value => 0x1
  | merge => 0x2
  | logData => 0x3
  | columnFamilyDeletion => 0x4
  | columnFamilyValue => 0x5
  | columnFamilyMerge => 0x6
  | singleDeletion => 0x7
  | columnFamilySingleDeletion => 0x8
  | beginPrepareXID => 0x9
  | endPrepareXID => 0xA
  | commitXID => 0xB
  | rollbackXID => 0xC
  | noop => 0xD
  | columnFamilyRangeDeletion => 0xE
  | rangeDeletion => 0xF
  | columnFamilyBlobIndex => 0x10
  | blobIndex => 0x11
  | beginPersistedPrepareXID => 0x12

/-- The value type a byte names, if any; the `switch` statements of the decoders
fall into their `default` case on `none`. -/
def ofUInt8? (b : UInt8) : Option ValueType :=
  match b.toNat with
  | 0x0 => some deletion
  | 0x1 => some value
  | 0x2 => some merge
  | 0x3 => some logData
  | 0x4 => some columnFamilyDeletion
  | 0x5 => some columnFamilyValue
  | 0x6 => some columnFamilyMerge
  | 0x7 => some singleDeletion
  | 0x8 => some columnFamilySingleDeletion
  | 0x9 => some beginPrepareXID
  | 0xA => some endPrepareXID
  | 0xB => some commitXID
  | 0xC => some rollbackXID
  | 0xD => some noop
  | 0xE => some columnFamilyRangeDeletion
  | 0xF => some rangeDeletion
  | 0x10 => some columnFamilyBlobIndex
  | 0x11 => some blobIndex
  | 0x12 => some beginPersistedPrepareXID
  | _ => none

@[simp] theorem ofUInt8?_toUInt8 (t : ValueType) : ofUInt8? t.toUInt8 = some t := by
  cases t <;> rfl

/-- The byte a decoded type came from is its own byte. -/
theorem toUInt8_of_ofUInt8? {b : UInt8} {t : ValueType} (h : ofUInt8? b = some t) :
    t.toUInt8 = b := by
  unfold ofUInt8? at h
  apply UInt8.toNat_inj.mp
  split at h <;> simp only [Option.some.injEq, reduceCtorEq] at h <;> subst h <;>
    simp_all [toUInt8]

theorem toUInt8_injective : Function.Injective toUInt8 := by
  intro a b h
  have := congrArg ofUInt8? h
  simpa using this

instance : LT ValueType := ⟨fun a b => a.toUInt8 < b.toUInt8⟩

instance (a b : ValueType) : Decidable (a < b) :=
  inferInstanceAs (Decidable (a.toUInt8 < b.toUInt8))

/-- `IsValueType`: the types stored inline in memtables and data blocks. -/
def IsValueType (t : ValueType) : Bool :=
  t.toUInt8 ≤ merge.toUInt8 || t == singleDeletion || t == blobIndex

/-- `IsExtendedValueType`: a value type or a range deletion. -/
def IsExtendedValueType (t : ValueType) : Bool :=
  IsValueType t || t == rangeDeletion

end ValueType

/-- `kMaxSequenceNumber`: sequence numbers leave the low byte of the footer to the
type. -/
def kMaxSequenceNumber : Nat := 2 ^ 56 - 1

/-- `kValueTypeForSeek`: the largest type, so a seek key sorts before every entry
of its user key and sequence number. -/
def kValueTypeForSeek : ValueType := .blobIndex

/-- `kValueTypeForSeekForPrev`: the smallest type. -/
def kValueTypeForSeekForPrev : ValueType := .deletion

/-- `ParsedInternalKey`, over any user-key type. -/
structure ParsedInternalKey (K : Type) where
  userKey : K
  sequence : Nat
  type : ValueType
  deriving DecidableEq, Repr

section Compare

variable {K : Type} [LinearOrder K]

/-- `InternalKeyComparator::Compare(const ParsedInternalKey&, ...)`: increasing
user key, decreasing sequence number, decreasing type. -/
def internalCompare (a b : ParsedInternalKey K) : Ordering :=
  match compare a.userKey b.userKey with
  | .eq =>
    if a.sequence > b.sequence then .lt
    else if a.sequence < b.sequence then .gt
    else if b.type < a.type then .lt
    else if a.type < b.type then .gt
    else .eq
  | r => r

theorem internalCompare_of_lt {a b : ParsedInternalKey K} (h : a.userKey < b.userKey) :
    internalCompare a b = .lt := by
  simp [internalCompare, compare_lt_iff_lt.mpr h]

theorem internalCompare_of_gt {a b : ParsedInternalKey K} (h : b.userKey < a.userKey) :
    internalCompare a b = .gt := by
  simp [internalCompare, compare_gt_iff_gt.mpr h]

theorem internalCompare_of_userKey_eq {a b : ParsedInternalKey K} (h : a.userKey = b.userKey) :
    internalCompare a b =
      if a.sequence > b.sequence then .lt
      else if a.sequence < b.sequence then .gt
      else if b.type < a.type then .lt
      else if a.type < b.type then .gt
      else .eq := by
  simp [internalCompare, h]

end Compare

/-! ## The byte encoding of internal keys -/

/-- `PackSequenceAndType`: `(seq << 8) | t` in a `uint64_t`. -/
def packSequenceAndType (seq : Nat) (t : ValueType) : UInt64 :=
  UInt64.ofNat ((seq * 256 + t.toUInt8.toNat) % 2 ^ 64)

/-- `AppendInternalKey`: the user key, then the packed footer. -/
def appendInternalKey (result : List UInt8) (key : ParsedInternalKey (List UInt8)) :
    List UInt8 :=
  putFixed64 (result ++ key.userKey) (packSequenceAndType key.sequence key.type)

/-- `ParseInternalKey`: at least eight bytes, and a footer whose low byte is an
extended value type. -/
def parseInternalKey (ikey : List UInt8) : Option (ParsedInternalKey (List UInt8)) :=
  let n := ikey.length
  if n < 8 then none
  else
    let num := (decodeFixed64 (ikey.drop (n - 8))).toNat
    match ValueType.ofUInt8? (UInt8.ofNat (num % 256)) with
    | some t =>
      if ValueType.IsExtendedValueType t then
        some { userKey := ikey.take (n - 8), sequence := num / 256, type := t }
      else none
    | none => none

/-- `ExtractUserKey`: everything but the footer. -/
def extractUserKey (ikey : List UInt8) : List UInt8 := ikey.take (ikey.length - 8)

/-- `BytewiseComparator`: `Slice::compare`, which is `memcmp` on the common
prefix and then the shorter slice first, that is the lexicographic order of the
unsigned bytes. -/
def bytewiseCompare (a b : List UInt8) : Ordering :=
  compare (a.map UInt8.toNat) (b.map UInt8.toNat)

theorem bytewiseCompare_swap (a b : List UInt8) :
    bytewiseCompare b a = (bytewiseCompare a b).swap :=
  Std.OrientedOrd.eq_swap

@[simp] theorem bytewiseCompare_self (a : List UInt8) : bytewiseCompare a a = .eq :=
  Std.compare_self

theorem bytewiseCompare_trans {a b c : List UInt8} (hab : bytewiseCompare a b = .lt)
    (hbc : bytewiseCompare b c = .lt) : bytewiseCompare a c = .lt := by
  unfold bytewiseCompare at *
  exact Std.TransCmp.lt_trans hab hbc

theorem appendInternalKey_nil (key : ParsedInternalKey (List UInt8)) :
    appendInternalKey [] key =
      key.userKey ++ encodeFixed64 (packSequenceAndType key.sequence key.type) := by
  simp [appendInternalKey, putFixed64]

theorem packSequenceAndType_toNat (seq : Nat) (t : ValueType) (hseq : seq ≤ kMaxSequenceNumber) :
    (packSequenceAndType seq t).toNat = seq * 256 + t.toUInt8.toNat := by
  have hb : t.toUInt8.toNat < 256 := t.toUInt8.toNat_lt
  unfold kMaxSequenceNumber at hseq
  rw [packSequenceAndType, Nat.mod_eq_of_lt (by omega)]
  exact UInt64.toNat_ofNat_of_lt' (by rw [UInt64.size]; omega)

@[simp] theorem extractUserKey_appendInternalKey (key : ParsedInternalKey (List UInt8)) :
    extractUserKey (appendInternalKey [] key) = key.userKey := by
  simp [extractUserKey, appendInternalKey_nil]

/-- The last eight bytes of an encoded internal key read back as the packed
sequence number and type. -/
theorem footer_appendInternalKey (key : ParsedInternalKey (List UInt8))
    (hseq : key.sequence ≤ kMaxSequenceNumber) :
    (decodeFixed64 ((appendInternalKey [] key).drop
      ((appendInternalKey [] key).length - 8))).toNat =
      key.sequence * 256 + key.type.toUInt8.toNat := by
  have hdec := decodeFixed64_encode (packSequenceAndType key.sequence key.type) []
  rw [List.append_nil] at hdec
  simp [appendInternalKey_nil, List.drop_left', hdec,
    packSequenceAndType_toNat key.sequence key.type hseq]

instance : Std.TransCmp bytewiseCompare where
  eq_swap := bytewiseCompare_swap _ _
  isLE_trans := fun hab hbc => by
    unfold bytewiseCompare at *
    exact Std.TransCmp.isLE_trans hab hbc

instance : Std.LawfulEqCmp bytewiseCompare where
  compare_self := bytewiseCompare_self _
  eq_of_compare := fun h => by
    unfold bytewiseCompare at h
    exact List.map_injective_iff.mpr (fun _ _ => UInt8.toNat_inj.mp)
      (Std.LawfulEqCmp.eq_of_compare h)

/-- An internal key parses back into its parts when the sequence number fits in
56 bits and the type is one an internal key may carry. -/
theorem parseInternalKey_appendInternalKey (u : List UInt8) (seq : Nat) (t : ValueType)
    (hseq : seq ≤ kMaxSequenceNumber) (ht : ValueType.IsExtendedValueType t = true) :
    parseInternalKey (appendInternalKey [] ⟨u, seq, t⟩) = some ⟨u, seq, t⟩ := by
  have hb : t.toUInt8.toNat < 256 := t.toUInt8.toNat_lt
  have hfooter := footer_appendInternalKey ⟨u, seq, t⟩ hseq
  have hlen : 8 ≤ (appendInternalKey [] ⟨u, seq, t⟩).length := by
    simp [appendInternalKey_nil]
  -- the footer's low byte is the type, the rest the sequence number
  have hlow : (seq * 256 + t.toUInt8.toNat) % 256 = t.toUInt8.toNat := by omega
  have hhigh : (seq * 256 + t.toUInt8.toNat) / 256 = seq := by omega
  have hkey : (appendInternalKey [] ⟨u, seq, t⟩).take
      ((appendInternalKey [] ⟨u, seq, t⟩).length - 8) = u := by
    simpa [extractUserKey] using extractUserKey_appendInternalKey ⟨u, seq, t⟩
  rw [parseInternalKey, if_neg (by omega)]
  simp only at hfooter
  simp [hfooter, hlow, hhigh, ht, hkey]

/-- A key `ParseInternalKey` accepts is the encoding of what it parses to: the
footer's low byte is the type's own byte and the rest is the sequence number. -/
theorem appendInternalKey_parseInternalKey {k : List UInt8} {p : ParsedInternalKey (List UInt8)}
    (h : parseInternalKey k = some p) : appendInternalKey [] p = k := by
  simp only [parseInternalKey] at h
  split_ifs at h with hlen
  set num := (decodeFixed64 (k.drop (k.length - 8))).toNat with hnum
  split at h
  · rename_i t ht
    split_ifs at h
    cases h
    have hbyte := ValueType.toUInt8_of_ofUInt8? ht
    have hlt : num < 2 ^ 64 := UInt64.toNat_lt _
    -- the packed footer is the word that was read
    have hpack : packSequenceAndType (num / 256) t = decodeFixed64 (k.drop (k.length - 8)) := by
      apply UInt64.toNat_inj.mp
      rw [packSequenceAndType, hbyte, UInt8.toNat_ofNat', ← hnum,
        UInt64.toNat_ofNat_of_lt' (by rw [UInt64.size]; omega)]
      omega
    have hfooter : encodeFixed64 (decodeFixed64 (k.drop (k.length - 8))) = k.drop (k.length - 8) := by
      rw [encodeFixed64_decodeFixed64 (by simp; omega), List.take_of_length_le (by simp; omega)]
    rw [appendInternalKey_nil, hpack, hfooter, List.take_append_drop]
  · cases h

/-- Internal keys round-trip through their encoding: a user key, a sequence number
that fits in 56 bits and an extended value type parse back from
`AppendInternalKey`, and every string `ParseInternalKey` accepts is the encoding
of what it parses to. -/
theorem internalKey_roundTrip :
    (∀ (u : List UInt8) (s : Nat) (t : ValueType), s ≤ kMaxSequenceNumber →
        ValueType.IsExtendedValueType t = true →
        parseInternalKey (appendInternalKey [] ⟨u, s, t⟩) = some ⟨u, s, t⟩) ∧
    ∀ (k : List UInt8) (p : ParsedInternalKey (List UInt8)),
        parseInternalKey k = some p → appendInternalKey [] p = k :=
  ⟨fun u s t hs ht => parseInternalKey_appendInternalKey u s t hs ht,
    fun _ _ h => appendInternalKey_parseInternalKey h⟩

theorem internalKey_roundTrip_sample :
    parseInternalKey (appendInternalKey [] ⟨[7], 5, .merge⟩) = some ⟨[7], 5, .merge⟩ ∧
      appendInternalKey [] ⟨[7], 5, .merge⟩ = [7, 0x02, 5, 0, 0, 0, 0, 0, 0] :=
  ⟨internalKey_roundTrip.1 [7] 5 .merge (by decide) (by decide),
    internalKey_roundTrip.2 [7, 0x02, 5, 0, 0, 0, 0, 0, 0] ⟨[7], 5, .merge⟩ (by decide)⟩

/-- `InternalKeyComparator::Compare` on encoded keys with the bytewise user
comparator: user key ascending, then the packed footer descending. -/
def internalKeyCompare (akey bkey : List UInt8) : Ordering :=
  match bytewiseCompare (extractUserKey akey) (extractUserKey bkey) with
  | .eq =>
    let anum := (decodeFixed64 (akey.drop (akey.length - 8))).toNat
    let bnum := (decodeFixed64 (bkey.drop (bkey.length - 8))).toNat
    if anum > bnum then .lt else if anum < bnum then .gt else .eq
  | r => r

@[simp] theorem internalKeyCompare_self (k : List UInt8) : internalKeyCompare k k = .eq := by
  simp [internalKeyCompare]

theorem internalKeyCompare_swap (a b : List UInt8) :
    internalKeyCompare b a = (internalKeyCompare a b).swap := by
  unfold internalKeyCompare
  rw [bytewiseCompare_swap (extractUserKey a) (extractUserKey b)]
  cases bytewiseCompare (extractUserKey a) (extractUserKey b) with
  | lt => rfl
  | gt => rfl
  | eq =>
    simp only [Ordering.swap]
    split_ifs <;> first | rfl | omega

/-- Internal keys in order have their user keys in order. -/
theorem bytewiseCompare_userKey_ne_gt {a b : List UInt8} (h : internalKeyCompare a b ≠ .gt) :
    bytewiseCompare (extractUserKey a) (extractUserKey b) ≠ .gt := by
  unfold internalKeyCompare at h
  cases hb : bytewiseCompare (extractUserKey a) (extractUserKey b) <;> simp_all

/-- Two encoded internal keys of one user key: the larger sequence number first. -/
theorem internalKeyCompare_appendInternalKey_of_sequence_gt (u : List UInt8) {s₁ s₂ : Nat}
    (t₁ t₂ : ValueType) (hlt : s₂ < s₁) (hmax : s₁ ≤ kMaxSequenceNumber) :
    internalKeyCompare (appendInternalKey [] ⟨u, s₁, t₁⟩) (appendInternalKey [] ⟨u, s₂, t₂⟩) =
      .lt := by
  have h₁ := footer_appendInternalKey ⟨u, s₁, t₁⟩ hmax
  have h₂ := footer_appendInternalKey ⟨u, s₂, t₂⟩ (show s₂ ≤ kMaxSequenceNumber by omega)
  have hb : t₂.toUInt8.toNat < 256 := t₂.toUInt8.toNat_lt
  simp only at h₁ h₂
  have hgt : s₂ * 256 + t₂.toUInt8.toNat < s₁ * 256 + t₁.toUInt8.toNat := by omega
  simp [internalKeyCompare, h₁, h₂, hgt]

/-- `InternalKeyComparator::CompareKeySeq`: user key ascending under the user
comparator, then the sequence number descending; the type byte is shifted out. -/
def compareKeySeq (ucmp : List UInt8 → List UInt8 → Ordering) (akey bkey : List UInt8) :
    Ordering :=
  match ucmp (extractUserKey akey) (extractUserKey bkey) with
  | .eq =>
    let anum := decodeFixed64 (akey.drop (akey.length - 8)) >>> 8
    let bnum := decodeFixed64 (bkey.drop (bkey.length - 8)) >>> 8
    if anum > bnum then .lt else if anum < bnum then .gt else .eq
  | r => r

/-- The sequence number an encoded internal key's footer carries. -/
theorem footer_shiftRight_appendInternalKey (key : ParsedInternalKey (List UInt8))
    (hseq : key.sequence ≤ kMaxSequenceNumber) :
    (decodeFixed64 ((appendInternalKey [] key).drop
      ((appendInternalKey [] key).length - 8)) >>> 8).toNat = key.sequence := by
  have hb : key.type.toUInt8.toNat < 256 := key.type.toUInt8.toNat_lt
  rw [UInt64.toNat_shiftRight, footer_appendInternalKey key hseq, Nat.shiftRight_eq_div_pow]
  simp only [UInt64.toNat_ofNat, Nat.reducePow, Nat.reduceMod]
  omega

/-- On encoded internal keys `CompareKeySeq` is the user comparator, then the
sequence numbers the other way round. -/
theorem compareKeySeq_appendInternalKey (ucmp : List UInt8 → List UInt8 → Ordering)
    (a b : ParsedInternalKey (List UInt8)) (ha : a.sequence ≤ kMaxSequenceNumber)
    (hb : b.sequence ≤ kMaxSequenceNumber) :
    compareKeySeq ucmp (appendInternalKey [] a) (appendInternalKey [] b) =
      (ucmp a.userKey b.userKey).then (compare b.sequence a.sequence) := by
  have hna := footer_shiftRight_appendInternalKey a ha
  have hnb := footer_shiftRight_appendInternalKey b hb
  simp only [compareKeySeq, extractUserKey_appendInternalKey]
  cases ucmp a.userKey b.userKey with
  | lt => rfl
  | gt => rfl
  | eq =>
    simp only [gt_iff_lt, UInt64.lt_iff_toNat_lt, hna, hnb]
    rcases Nat.lt_trichotomy a.sequence b.sequence with h | h | h
    · simp [h, Nat.not_lt.mpr h.le, Nat.compare_eq_gt.mpr h]
    · simp [h]
    · simp [h, Nat.compare_eq_lt.mpr h]

end RocksDB
