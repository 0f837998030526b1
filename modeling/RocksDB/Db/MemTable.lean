import Mathlib
import RocksDB.Lib.SortedList
import RocksDB.Db.MergeOperator

/-!
# `MemTable`: insertion, bookkeeping and point lookup

`MemTable::Add` encodes an entry (the varint32 size of the internal key, the
user key, the packed footer, the varint32 size of the value, the value),
inserts it into the skip list of `table_` (of `range_del_table_` for a range
deletion) and updates the counters and the sequence numbers: in place on the
sequential path, and through a `MemTablePostProcessInfo` and two
compare-exchange loops on the concurrent one. `MemTable::Get` seeks the skip
list to the `LookupKey` and hands the entries to `SaveValue` until it stops.

## Design notes

* A skip list is the list of its entries in `KeyComparator` order
  (`SortedList`). `InsertKey` and `InsertKeyConcurrently` are both
  `SortedList.insert`, which is what they do when one thread inserts.
* The compare-exchange loops run on one thread: an exchange fails only when the
  location differs from the expected value, and the failure reloads it.
* Counters and sequence numbers are `Nat`; `encoded_len` keeps its `uint32_t`.
* Not modelled: the prefix bloom filter, insert hints, the flush state, the
  oldest key time and in-place updates. `Get` runs with no range tombstones,
  no read callback, a merge operator and `is_blob_index` null; `ShouldMerge`
  is the default, which answers `false`.
-/

namespace RocksDB

/-- `MemTablePostProcessInfo`: what a concurrent `Add` leaves for
`BatchPostProcess`. -/
structure MemTablePostProcessInfo where
  dataSize : Nat
  numEntries : Nat
  numDeletes : Nat
  deriving DecidableEq, Repr

/-- A fresh `MemTablePostProcessInfo`. -/
def MemTablePostProcessInfo.empty : MemTablePostProcessInfo := ⟨0, 0, 0⟩

/-- `MemTable`: the two skip lists and what `Add` keeps count of. -/
structure MemTable where
  table : List (List UInt8)
  rangeDelTable : List (List UInt8)
  isRangeDelTableEmpty : Bool
  dataSize : Nat
  numEntries : Nat
  numDeletes : Nat
  firstSeqno : Nat
  earliestSeqno : Nat
  deriving DecidableEq, Repr

/-- `LookupKey(user_key, s)`. -/
structure LookupKey where
  userKey : List UInt8
  sequence : Nat
  deriving DecidableEq, Repr

/-- `LookupKey::memtable_key()`: the varint32 size of the internal key, the user
key, and the footer of `s` with `kValueTypeForSeek`. -/
def LookupKey.memtableKey (k : LookupKey) : List UInt8 :=
  encodeVarint32 (UInt32.ofNat (k.userKey.length + 8)) ++ k.userKey ++
    encodeFixed64 (packSequenceAndType k.sequence kValueTypeForSeek)

/-- The `Saver` of `MemTable::Get` with what its pointers reach: the status, the
value, the operands of the `MergeContext` in `GetOperands` order (oldest first)
and the sequence number. -/
structure Saver where
  status : Status
  foundFinalValue : Bool
  mergeInProgress : Bool
  value : List UInt8
  mergeContext : List (List UInt8)
  seq : Nat
  deriving DecidableEq, Repr

/-- `TimedFullMerge` into the saver's value: its status, and its result when it
succeeds. -/
def Saver.fullMerge (op : MergeOperator) (key : List UInt8) (s : Saver)
    (existing : Option (List UInt8)) : Saver :=
  match timedFullMerge op key existing s.mergeContext with
  | .ok result => { s with status := .ok, value := result }
  | .error e => { s with status := e }

/-- The end of `MemTable::Get`: with no final value found but operands
collected, the status becomes `MergeInProgress`. -/
def Saver.finish (s : Saver) : Bool × Saver :=
  let s := if !s.foundFinalValue && s.mergeInProgress then { s with status := .mergeInProgress } else s
  (s.foundFinalValue, s)

namespace MemTable

variable (ucmp : List UInt8 → List UInt8 → Ordering)

/-- `MemTable(cmp, ioptions, mutable_cf_options, write_buffer_manager,
latest_seq, column_family_id)`. -/
def create (latestSeq : Nat) : MemTable :=
  ⟨[], [], true, 0, 0, 0, 0, latestSeq⟩

/-- `IsEmpty`. -/
def isEmpty (m : MemTable) : Bool := m.firstSeqno = 0

/-- `GetFirstSequenceNumber`. -/
def getFirstSequenceNumber (m : MemTable) : Nat := m.firstSeqno

/-- `GetEarliestSequenceNumber`. -/
def getEarliestSequenceNumber (m : MemTable) : Nat := m.earliestSeqno

/-- `MemTable::KeyComparator`: `CompareKeySeq` of the length-prefixed internal
keys. -/
def keyComparator (a b : List UInt8) : Ordering :=
  compareKeySeq ucmp (getLengthPrefixedSlicePtr a) (getLengthPrefixedSlicePtr b)

/-- The entry `Add` writes. The sizes are `uint32_t`, and `memcpy` copies as
many bytes as they say. -/
def encodeEntry (s : Nat) (type : ValueType) (key value : List UInt8) : List UInt8 :=
  let keySize := UInt32.ofNat key.length
  let valSize := UInt32.ofNat value.length
  let internalKeySize := keySize + 8
  encodeVarint32 internalKeySize ++ key.take keySize.toNat ++
    encodeFixed64 (packSequenceAndType s type) ++ encodeVarint32 valSize ++
    value.take valSize.toNat

/-- `encoded_len`, a `uint32_t`. -/
def encodedLen (key value : List UInt8) : UInt32 :=
  let valSize := UInt32.ofNat value.length
  let internalKeySize := UInt32.ofNat key.length + 8
  UInt32.ofNat (varintLength internalKeySize.toNat) + internalKeySize +
    UInt32.ofNat (varintLength valSize.toNat) + valSize

/-- `table->InsertKey(handle)` on the skip list of the entry's type; `none` when
an entry comparing equal is there. -/
def insertKey (m : MemTable) (type : ValueType) (entry : List UInt8) : Option MemTable :=
  if type = .rangeDeletion then
    (SortedList.insert (keyComparator ucmp) m.rangeDelTable entry).map
      fun t => { m with rangeDelTable := t }
  else
    (SortedList.insert (keyComparator ucmp) m.table entry).map fun t => { m with table := t }

/-- The tail both paths share: the first range deletion clears
`is_range_del_table_empty_`. -/
def markRangeDel (m : MemTable) (type : ValueType) : MemTable :=
  if m.isRangeDelTableEmpty ∧ type = .rangeDeletion then
    { m with isRangeDelTableEmpty := false }
  else m

/-- The counters the sequential path stores. -/
def addCounters (m : MemTable) (type : ValueType) (len : UInt32) : MemTable :=
  { m with
    numEntries := m.numEntries + 1
    dataSize := m.dataSize + len.toNat
    numDeletes := if type = .deletion then m.numDeletes + 1 else m.numDeletes }

/-- The first sequence number of the sequential path, which also becomes the
earliest one when the memtable was created with `kMaxSequenceNumber`. -/
def setFirstSeqno (m : MemTable) (s : Nat) : MemTable :=
  if m.firstSeqno = 0 then
    let m := { m with firstSeqno := s }
    if m.earliestSeqno = kMaxSequenceNumber then { m with earliestSeqno := m.firstSeqno } else m
  else m

/-- `MemTable::Add` with `allow_concurrent = false`. -/
def add (m : MemTable) (s : Nat) (type : ValueType) (key value : List UInt8) :
    Bool × MemTable :=
  match m.insertKey ucmp type (encodeEntry s type key value) with
  | none => (false, m)
  | some m => (true, markRangeDel ((addCounters m type (encodedLen key value)).setFirstSeqno s) type)

/-- `while (cond(cur) && !loc.compare_exchange_weak(cur, desired)) {}`, on one
thread: the value of `loc` afterwards. A failed exchange reloads `cur` from
`loc`. -/
def compareExchangeLoop (cond : Nat → Bool) (desired : Nat) : Nat → Nat → Nat → Nat
  | 0, loc, _ => loc
  | fuel + 1, loc, cur =>
    if cond cur then
      if loc = cur then desired else compareExchangeLoop cond desired fuel loc loc
    else loc

/-- `MemTable::Add` with `allow_concurrent = true`: the counters go to the post
process info. The second loop exchanges `first_seqno_`, as the first one does,
but expects `earliest_seqno_`. -/
def addConcurrently (m : MemTable) (info : MemTablePostProcessInfo) (s : Nat) (type : ValueType)
    (key value : List UInt8) : Bool × MemTable × MemTablePostProcessInfo :=
  match m.insertKey ucmp type (encodeEntry s type key value) with
  | none => (false, m, info)
  | some m =>
    let info := { info with
      numEntries := info.numEntries + 1
      dataSize := info.dataSize + (encodedLen key value).toNat
      numDeletes := if type = .deletion then info.numDeletes + 1 else info.numDeletes }
    let first := compareExchangeLoop (fun cur => cur = 0 ∨ s < cur) s 2 m.firstSeqno m.firstSeqno
    let first := compareExchangeLoop (fun cur => cur = kMaxSequenceNumber ∨ s < cur) s 2 first
      m.earliestSeqno
    (true, markRangeDel { m with firstSeqno := first } type, info)

/-- `BatchPostProcess`. -/
def batchPostProcess (m : MemTable) (info : MemTablePostProcessInfo) : MemTable :=
  { m with
    numEntries := m.numEntries + info.numEntries
    dataSize := m.dataSize + info.dataSize
    numDeletes := if info.numDeletes ≠ 0 then m.numDeletes + info.numDeletes else m.numDeletes }

/-- The arguments of one `Add`: sequence number, type, user key and value. -/
structure Entry where
  seq : Nat
  type : ValueType
  key : List UInt8
  value : List UInt8
  deriving DecidableEq, Repr

/-- `Add` of each entry in turn, on the sequential path. -/
def addAll (m : MemTable) (entries : List Entry) : MemTable :=
  entries.foldl (fun m e => (m.add ucmp e.seq e.type e.key e.value).2) m

/-- `Add` of each entry in turn on the concurrent path, each followed by
`BatchPostProcess` of its own post process info. -/
def addAllConcurrently (m : MemTable) (entries : List Entry) : MemTable :=
  entries.foldl (fun m e =>
    let (_, m, info) := m.addConcurrently ucmp .empty e.seq e.type e.key e.value
    m.batchPostProcess info) m

/-! ## What each path keeps and changes -/

/-- The skip-list insertion changes the skip lists only. -/
theorem insertKey_eq_some {m m' : MemTable} {type : ValueType} {entry : List UInt8}
    (h : m.insertKey ucmp type entry = some m') :
    ∃ t r, m' = { m with table := t, rangeDelTable := r } := by
  unfold insertKey at h
  split_ifs at h
  · obtain ⟨r, -, rfl⟩ := Option.map_eq_some_iff.mp h
    exact ⟨m.table, r, rfl⟩
  · obtain ⟨t, -, rfl⟩ := Option.map_eq_some_iff.mp h
    exact ⟨t, m.rangeDelTable, rfl⟩

/-- Into an empty skip list every entry goes. -/
theorem insertKey_create (latestSeq : Nat) (type : ValueType) (entry : List UInt8) :
    ∃ m', (create latestSeq).insertKey ucmp type entry = some m' := by
  unfold insertKey
  split_ifs <;> exact ⟨_, rfl⟩

@[simp] theorem markRangeDel_firstSeqno (m : MemTable) (type : ValueType) :
    (markRangeDel m type).firstSeqno = m.firstSeqno := by
  unfold markRangeDel; split <;> rfl

@[simp] theorem markRangeDel_earliestSeqno (m : MemTable) (type : ValueType) :
    (markRangeDel m type).earliestSeqno = m.earliestSeqno := by
  unfold markRangeDel; split <;> rfl

@[simp] theorem markRangeDel_table (m : MemTable) (type : ValueType) :
    (markRangeDel m type).table = m.table := by
  unfold markRangeDel; split <;> rfl

@[simp] theorem setFirstSeqno_table (m : MemTable) (s : Nat) :
    (m.setFirstSeqno s).table = m.table := by
  simp only [setFirstSeqno]; split_ifs <;> rfl

theorem setFirstSeqno_firstSeqno (m : MemTable) (s : Nat) :
    (m.setFirstSeqno s).firstSeqno = if m.firstSeqno = 0 then s else m.firstSeqno := by
  simp only [setFirstSeqno]; split_ifs <;> rfl

theorem setFirstSeqno_firstSeqno_ne_zero (m : MemTable) {s : Nat} (hs : s ≠ 0) :
    (m.setFirstSeqno s).firstSeqno ≠ 0 := by
  rw [setFirstSeqno_firstSeqno]
  split_ifs with h
  · exact hs
  · exact h

@[simp] theorem addCounters_table (m : MemTable) (type : ValueType) (len : UInt32) :
    (addCounters m type len).table = m.table := rfl

@[simp] theorem addCounters_firstSeqno (m : MemTable) (type : ValueType) (len : UInt32) :
    (addCounters m type len).firstSeqno = m.firstSeqno := rfl

@[simp] theorem addCounters_earliestSeqno (m : MemTable) (type : ValueType) (len : UInt32) :
    (addCounters m type len).earliestSeqno = m.earliestSeqno := rfl

@[simp] theorem batchPostProcess_earliestSeqno (m : MemTable) (info : MemTablePostProcessInfo) :
    (m.batchPostProcess info).earliestSeqno = m.earliestSeqno := rfl

/-- The concurrent path never stores `earliest_seqno_`: both of its loops
exchange `first_seqno_`. -/
theorem addConcurrently_earliestSeqno (m : MemTable) (info : MemTablePostProcessInfo) (s : Nat)
    (type : ValueType) (key value : List UInt8) :
    (m.addConcurrently ucmp info s type key value).2.1.earliestSeqno = m.earliestSeqno := by
  unfold addConcurrently
  split
  · rfl
  · rename_i m' hins
    obtain ⟨t, r, rfl⟩ := insertKey_eq_some ucmp hins
    simp

theorem addAllConcurrently_earliestSeqno (m : MemTable) (entries : List Entry) :
    (addAllConcurrently ucmp m entries).getEarliestSequenceNumber = m.earliestSeqno := by
  induction entries generalizing m with
  | nil => rfl
  | cons e es ih =>
    simp only [addAllConcurrently, List.foldl_cons] at ih ⊢
    rw [ih, batchPostProcess_earliestSeqno, addConcurrently_earliestSeqno]

/-- Once a first sequence number is set, the sequential path keeps both
sequence numbers. -/
theorem add_seqnos_of_firstSeqno_ne_zero {m : MemTable} (hm : m.firstSeqno ≠ 0) (s : Nat)
    (type : ValueType) (key value : List UInt8) :
    (m.add ucmp s type key value).2.firstSeqno = m.firstSeqno ∧
      (m.add ucmp s type key value).2.earliestSeqno = m.earliestSeqno := by
  unfold add
  split
  · exact ⟨rfl, rfl⟩
  · rename_i m' hins
    obtain ⟨t, r, rfl⟩ := insertKey_eq_some ucmp hins
    simp [setFirstSeqno, hm]

theorem addAll_seqnos_of_firstSeqno_ne_zero {m : MemTable} (hm : m.firstSeqno ≠ 0)
    (entries : List Entry) :
    (addAll ucmp m entries).firstSeqno = m.firstSeqno ∧
      (addAll ucmp m entries).earliestSeqno = m.earliestSeqno := by
  induction entries generalizing m with
  | nil => exact ⟨rfl, rfl⟩
  | cons e es ih =>
    obtain ⟨hfirst, hearliest⟩ := add_seqnos_of_firstSeqno_ne_zero ucmp hm e.seq e.type e.key e.value
    obtain ⟨ih₁, ih₂⟩ := ih (hfirst ▸ hm : (m.add ucmp e.seq e.type e.key e.value).2.firstSeqno ≠ 0)
    exact ⟨ih₁.trans hfirst, ih₂.trans hearliest⟩

/-- The first `Add` into a fresh memtable created with `kMaxSequenceNumber`
sets both sequence numbers to its own. -/
theorem add_create_seqnos (s : Nat) (type : ValueType) (key value : List UInt8) :
    ((create kMaxSequenceNumber).add ucmp s type key value).2.firstSeqno = s ∧
      ((create kMaxSequenceNumber).add ucmp s type key value).2.earliestSeqno = s := by
  obtain ⟨m', hins⟩ := insertKey_create ucmp kMaxSequenceNumber type (encodeEntry s type key value)
  obtain ⟨t, r, rfl⟩ := insertKey_eq_some ucmp hins
  simp only [add, hins]
  simp [setFirstSeqno, create]

/-- Created with `kMaxSequenceNumber`, the sequential path takes the first
sequence number for the earliest one, and the concurrent path keeps
`kMaxSequenceNumber`. -/
theorem memTable_concurrent_add_keeps_kMaxSequenceNumber (e : Entry) (es : List Entry)
    (hs : 0 < e.seq) :
    (addAll ucmp (create kMaxSequenceNumber) (e :: es)).getEarliestSequenceNumber = e.seq ∧
      (addAllConcurrently ucmp (create kMaxSequenceNumber) (e :: es)).getEarliestSequenceNumber =
        kMaxSequenceNumber := by
  obtain ⟨hfirst, hearliest⟩ := add_create_seqnos ucmp e.seq e.type e.key e.value
  have hne : ((create kMaxSequenceNumber).add ucmp e.seq e.type e.key e.value).2.firstSeqno ≠ 0 := by
    omega
  refine ⟨?_, addAllConcurrently_earliestSeqno ucmp _ _⟩
  have hrest := (addAll_seqnos_of_firstSeqno_ne_zero ucmp hne es).2
  simp only [addAll, List.foldl_cons] at hrest ⊢
  exact hrest.trans hearliest

/-- One `Put` of sequence number 1 into a memtable created with
`kMaxSequenceNumber`: the sequential path reports 1 as the earliest sequence
number, the concurrent path `kMaxSequenceNumber`, although 1 is the only
sequence number inserted. -/
theorem memTable_concurrent_add_earliestSeqno_sample :
    0 < (Entry.mk 1 .value [] []).seq ∧
      (addAll bytewiseCompare (create kMaxSequenceNumber) [⟨1, .value, [], []⟩]).getEarliestSequenceNumber
        = 1 ∧
      (addAllConcurrently bytewiseCompare (create kMaxSequenceNumber)
        [⟨1, .value, [], []⟩]).getEarliestSequenceNumber = kMaxSequenceNumber ∧
      (1 : Nat) ≠ kMaxSequenceNumber :=
  ⟨by decide, memTable_concurrent_add_keeps_kMaxSequenceNumber bytewiseCompare ⟨1, .value, [], []⟩ []
    (by decide) |>.1, memTable_concurrent_add_keeps_kMaxSequenceNumber bytewiseCompare
    ⟨1, .value, [], []⟩ [] (by decide) |>.2, by decide⟩

/-! ## Point lookup -/

/-- The `switch` of `SaveValue` on the type of an entry of the looked-up user
key, with the entry's value. The answer is whether the scan goes on. -/
def saveValueOfType (op : MergeOperator) (key : LookupKey) (s : Saver) (type : Option ValueType)
    (v : List UInt8) : Bool × Saver :=
  match type with
  | some .blobIndex =>
    (false, { s with
      status := .notSupported
        "Encounter unsupported blob value. Please open DB with rocksdb::blob_db::BlobDB instead."
      foundFinalValue := true })
  | some .value =>
    let s := { s with status := .ok }
    let s := if s.mergeInProgress then s.fullMerge op key.userKey (some v) else { s with value := v }
    (false, { s with foundFinalValue := true })
  | some .deletion | some .singleDeletion | some .rangeDeletion =>
    let s := if s.mergeInProgress then s.fullMerge op key.userKey none
      else { s with status := .notFound }
    (false, { s with foundFinalValue := true })
  | some .merge => (true, { s with mergeInProgress := true, mergeContext := v :: s.mergeContext })
  | _ => (true, s)

/-- `SaveValue`: one entry from the seek position. It decodes the key size, the
user key, the tag and the value; an entry of another user key ends the scan. An
entry whose key size does not decode is not one `Add` wrote, and the scan stops
there too. -/
def saveValue (op : MergeOperator) (key : LookupKey) (s : Saver) (entry : List UInt8) :
    Bool × Saver :=
  match getVarint32Ptr entry with
  | none => (false, s)
  | some (keyLength, keyPtr) =>
    if ucmp (keyPtr.take (keyLength - 8).toNat) key.userKey = .eq then
      let tag := decodeFixed64 (keyPtr.drop (keyLength.toNat - 8))
      saveValueOfType op key { s with seq := (tag >>> 8).toNat }
        (ValueType.ofUInt8? (UInt8.ofNat (tag &&& 0xff).toNat))
        (getLengthPrefixedSlicePtr (keyPtr.drop keyLength.toNat))
    else (false, s)

/-- `SkipListRep::Get`: `SaveValue` on each entry from the seek position for as
long as it asks for the next one. -/
def getLoop (op : MergeOperator) (key : LookupKey) : List (List UInt8) → Saver → Saver
  | [], s => s
  | entry :: rest, s =>
    match saveValue ucmp op key s entry with
    | (true, s) => getLoop op key rest s
    | (false, s) => s

/-- `MemTable::Get(key, value, s, merge_context, ..., seq, ...)`: whether a
final value was found, and the saver with the value, status, operands and
sequence number it leaves. -/
def get (m : MemTable) (op : MergeOperator) (key : LookupKey) (value : List UInt8) (status : Status)
    (mergeContext : List (List UInt8)) (seq : Nat) : Bool × Saver :=
  let saver : Saver :=
    ⟨status, false, status = .mergeInProgress, value, mergeContext, kMaxSequenceNumber⟩
  if m.isEmpty then (false, { saver with seq })
  else
    let start := SortedList.seek (keyComparator ucmp) m.table key.memtableKey
    (getLoop ucmp op key (m.table.drop start) saver).finish

end MemTable

end RocksDB
