import Mathlib
import RocksDB.Db.WriteBatchRoundTrip

/-!
# `WriteBatchWithIndex` (`utilities/write_batch_with_index`)

A `WriteBatchWithIndex` keeps a `WriteBatch` together with a skip list of index
entries, one per record of a key operation, ordered by column family, key and
offset. In overwrite mode a key written again moves its entry to the new record
instead of adding one, and the number of sub-batches grows when that record is
in the current sub-batch. `RollbackToSavePoint` rolls the batch back and then
rebuilds the index from its records with `ReBuildIndex`.

## Main results

* `rollbackToSavePoint_after_deleteRange`: the `switch` of `ReBuildIndex` has
  no case for range deletions, so after `DeleteRange` and `SetSavePoint`,
  `RollbackToSavePoint` answers `Corruption` instead of `OK`.

## Design notes

* The skip list is the list of its entries in order; `Seek` is the first entry
  not below the target and `Insert` goes there.
* An index entry keeps the key its `key_offset` and `key_size` point at: the
  bytes of a record never change while its entry lives.
* `WriteBatchEntryComparator` is given by `compareKey`, the user comparator of
  each column family; the source registers a column family's comparator on the
  first write to it, before any comparison of its keys.
* `SeekToFirst` and `SeekToLast` (the `kFlagMin` search entries) and
  `BaseDeltaIterator` are not modelled.
-/

namespace RocksDB

/-- `Status(code, msg, msg2)`: the two messages joined by `": "`. -/
def joinMessages (msg msg2 : String) : String :=
  if msg2.isEmpty then msg else msg ++ ": " ++ msg2

/-- `WriteType`, the kind of an entry of the batch. -/
inductive WriteType where
  | putRecord
  | mergeRecord
  | deleteRecord
  | singleDeleteRecord
  | deleteRangeRecord
  | logDataRecord
  | xidRecord
  deriving DecidableEq, Repr

/-- `WriteEntry`: what `WBWIIterator::Entry` returns. -/
structure WriteEntry where
  type : WriteType
  key : List UInt8
  value : List UInt8
  deriving DecidableEq, Repr

/-- The `WriteType` of a record tag, or `none` in the `default` case. -/
def writeTypeOfTag (tag : UInt8) : Option WriteType :=
  match ValueType.ofUInt8? tag with
  | some .columnFamilyValue | some .value => some .putRecord
  | some .columnFamilyDeletion | some .deletion => some .deleteRecord
  | some .columnFamilySingleDeletion | some .singleDeletion => some .singleDeleteRecord
  | some .columnFamilyRangeDeletion | some .rangeDeletion => some .deleteRangeRecord
  | some .columnFamilyMerge | some .merge => some .mergeRecord
  | some .logData => some .logDataRecord
  | some .noop | some .beginPrepareXID | some .beginPersistedPrepareXID
  | some .endPrepareXID | some .commitXID | some .rollbackXID => some .xidRecord
  | _ => none

/-- `ReadableWriteBatch::GetEntryFromDataOffset`: the record at `dataOffset`.
The status of `ReadRecordFromWriteBatch` is not checked; a record it fails to
read gives empty slices. -/
def getEntryFromDataOffset (b : WriteBatch) (dataOffset : Nat) : Except Status WriteEntry :=
  if dataOffset = b.getDataSize then .error .notFound
  else if dataOffset > b.getDataSize then
    .error (.invalidArgument "data offset exceed write batch size")
  else
    match b.rep.drop dataOffset with
    | [] => .error .notFound
    | tag :: input =>
      let fields := match readRecordFromWriteBatch tag input ⟨0, [], [], [], []⟩ with
        | .ok (fields, _) => fields
        | .error _ => ⟨0, [], [], [], []⟩
      match writeTypeOfTag tag with
      | some type => .ok ⟨type, fields.key, fields.value⟩
      | none => .error (.corruption (joinMessages "unknown WriteBatch tag " (toString tag.toNat)))

/-- `ReadKeyFromWriteBatchEntry`: the key of the record `input` starts with. -/
def readKeyFromWriteBatchEntry (input : List UInt8) (cfRecord : Bool) : Option (List UInt8) := do
  -- skip the tag byte, then the column family
  let input := input.drop 1
  let input ← if cfRecord then (getVarint32 input).map Prod.snd else some input
  let (key, _) ← getLengthPrefixedSlice input
  return key

/-- `WriteBatchIndexEntry`: the offset of its record, its column family and the
key the record holds. -/
structure WriteBatchIndexEntry where
  offset : Nat
  columnFamily : UInt32
  key : List UInt8
  deriving DecidableEq, Repr

/-- `WriteBatchEntryComparator`: column family, then key under the column
family's comparator, then offset. -/
def WriteBatchEntryComparator.compare (compareKey : UInt32 → List UInt8 → List UInt8 → Ordering)
    (entry1 entry2 : WriteBatchIndexEntry) : Ordering :=
  if entry1.columnFamily > entry2.columnFamily then .gt
  else if entry1.columnFamily < entry2.columnFamily then .lt
  else
    match compareKey entry1.columnFamily entry1.key entry2.key with
    | .eq => Ord.compare entry1.offset entry2.offset
    | cmp => cmp

namespace WriteBatchEntrySkipList

variable (compareKey : UInt32 → List UInt8 → List UInt8 → Ordering)

/-- `SkipList::Seek`: the position of the first entry not below `target`. -/
def seek (entries : List WriteBatchIndexEntry) (target : WriteBatchIndexEntry) : Nat :=
  entries.findIdx fun e => WriteBatchEntryComparator.compare compareKey e target ≠ .lt

/-- `SkipList::Insert`: at the position `Seek` finds. -/
def insert (entries : List WriteBatchIndexEntry) (entry : WriteBatchIndexEntry) :
    List WriteBatchIndexEntry :=
  entries.insertIdx (seek compareKey entries entry) entry

end WriteBatchEntrySkipList

/-- `WriteBatchWithIndex` and its `Rep`. -/
structure WriteBatchWithIndex where
  writeBatch : WriteBatch
  compareKey : UInt32 → List UInt8 → List UInt8 → Ordering
  skipList : List WriteBatchIndexEntry
  overwriteKey : Bool
  lastEntryOffset : Nat
  lastSubBatchOffset : Nat
  subBatchCnt : Nat

namespace WriteBatchWithIndex

/-- `WriteBatchWithIndex(default_index_comparator, reserved_bytes, overwrite_key,
max_bytes)`. -/
def create (compareKey : UInt32 → List UInt8 → List UInt8 → Ordering) (overwriteKey : Bool)
    (maxBytes : Nat) : WriteBatchWithIndex :=
  ⟨WriteBatch.init maxBytes, compareKey, [], overwriteKey, 0, 0, 1⟩

/-- `Rep::SetLastEntryOffset`: the next record starts at the end of the batch. -/
def setLastEntryOffset (w : WriteBatchWithIndex) : WriteBatchWithIndex :=
  { w with lastEntryOffset := w.writeBatch.getDataSize }

/-- `Rep::UpdateExistingEntryWithCfId`: in overwrite mode, point the entry of
`key` at the last record; a new sub-batch starts when that entry is in the
current one. -/
def updateExistingEntryWithCfId (w : WriteBatchWithIndex) (columnFamilyId : UInt32)
    (key : List UInt8) : Bool × WriteBatchWithIndex :=
  if !w.overwriteKey then (false, w)
  else
    let i := WriteBatchEntrySkipList.seek w.compareKey w.skipList ⟨0, columnFamilyId, key⟩
    match w.skipList[i]? with
    | none => (false, w)
    | some entry =>
      -- `iter.Valid()` also requires the entry to be of the column family
      if entry.columnFamily ≠ columnFamilyId then (false, w)
      else
        let entryKey := match getEntryFromDataOffset w.writeBatch entry.offset with
          | .ok e => e.key
          | .error _ => []
        if w.compareKey columnFamilyId key entryKey ≠ .eq then (false, w)
        else
          let w := if w.lastSubBatchOffset ≤ entry.offset then
              { w with lastSubBatchOffset := w.lastEntryOffset, subBatchCnt := w.subBatchCnt + 1 }
            else w
          (true, { w with skipList := w.skipList.set i { entry with offset := w.lastEntryOffset } })

/-- `Rep::AddNewEntry`: an entry for the record at `last_entry_offset`, with the
key read from it. -/
def addNewEntry (w : WriteBatchWithIndex) (columnFamilyId : UInt32) : WriteBatchWithIndex :=
  let key := (readKeyFromWriteBatchEntry (w.writeBatch.rep.drop w.lastEntryOffset)
    (columnFamilyId ≠ 0)).getD []
  let entry : WriteBatchIndexEntry := ⟨w.lastEntryOffset, columnFamilyId, key⟩
  { w with skipList := WriteBatchEntrySkipList.insert w.compareKey w.skipList entry }

/-- `Rep::AddOrUpdateIndex`. -/
def addOrUpdateIndex (w : WriteBatchWithIndex) (columnFamilyId : UInt32) (key : List UInt8) :
    WriteBatchWithIndex :=
  let (updated, w) := w.updateExistingEntryWithCfId columnFamilyId key
  if updated then w else w.addNewEntry columnFamilyId

/-- The body the key writes share: record the offset, write to the batch, and
index the key when the write succeeded. -/
def writeIndexed (w : WriteBatchWithIndex) (columnFamilyId : UInt32) (key : List UInt8)
    (write : WriteBatch → WriteBatch × Status) : WriteBatchWithIndex × Status :=
  let w := w.setLastEntryOffset
  let (writeBatch, s) := write w.writeBatch
  let w := { w with writeBatch }
  if s = .ok then (w.addOrUpdateIndex columnFamilyId key, s) else (w, s)

/-- `WriteBatchWithIndex::Put`. -/
def put (w : WriteBatchWithIndex) (columnFamilyId : UInt32) (key value : List UInt8) :
    WriteBatchWithIndex × Status :=
  w.writeIndexed columnFamilyId key fun b => WriteBatchInternal.put b columnFamilyId key value

/-- `WriteBatchWithIndex::Delete`. -/
def delete (w : WriteBatchWithIndex) (columnFamilyId : UInt32) (key : List UInt8) :
    WriteBatchWithIndex × Status :=
  w.writeIndexed columnFamilyId key fun b => WriteBatchInternal.delete b columnFamilyId key

/-- `WriteBatchWithIndex::SingleDelete`. -/
def singleDelete (w : WriteBatchWithIndex) (columnFamilyId : UInt32) (key : List UInt8) :
    WriteBatchWithIndex × Status :=
  w.writeIndexed columnFamilyId key fun b => WriteBatchInternal.singleDelete b columnFamilyId key

/-- `WriteBatchWithIndex::DeleteRange`: indexed under its begin key. -/
def deleteRange (w : WriteBatchWithIndex) (columnFamilyId : UInt32)
    (beginKey endKey : List UInt8) : WriteBatchWithIndex × Status :=
  w.writeIndexed columnFamilyId beginKey fun b =>
    WriteBatchInternal.deleteRange b columnFamilyId beginKey endKey

/-- `WriteBatchWithIndex::Merge`. -/
def merge (w : WriteBatchWithIndex) (columnFamilyId : UInt32) (key value : List UInt8) :
    WriteBatchWithIndex × Status :=
  w.writeIndexed columnFamilyId key fun b => WriteBatchInternal.merge b columnFamilyId key value

/-- `WriteBatchWithIndex::PutLogData`: not indexed. -/
def putLogData (w : WriteBatchWithIndex) (blob : List UInt8) : WriteBatchWithIndex × Status :=
  let (writeBatch, s) := w.writeBatch.putLogData blob
  ({ w with writeBatch }, s)

/-- `Rep::ClearIndex`. -/
def clearIndex (w : WriteBatchWithIndex) : WriteBatchWithIndex :=
  { w with skipList := [], lastEntryOffset := 0, lastSubBatchOffset := 0, subBatchCnt := 1 }

/-- The loop of `Rep::ReBuildIndex` over the records of `input`, for at most
`fuel` of them, with the number `found` of key records; the status is the one
the loop ends with. -/
def reBuildIndexLoop : Nat → WriteBatchWithIndex → List UInt8 → Int32 →
    WriteBatchWithIndex × Int32 × Status
  | 0, w, _, found => (w, found, .ok)
  | _, w, [], found => (w, found, .ok)
  | fuel + 1, w, tag :: rest, found =>
    -- the offset of the record for `AddNewEntry`
    let w := { w with lastEntryOffset := w.writeBatch.rep.length - (rest.length + 1) }
    match readRecordFromWriteBatch tag rest ⟨0, [], [], [], []⟩ with
    | .error s => (w, found, s)
    | .ok (fields, input) =>
      match ValueType.ofUInt8? tag with
      | some .columnFamilyValue | some .value | some .columnFamilyDeletion | some .deletion
      | some .columnFamilySingleDeletion | some .singleDeletion | some .columnFamilyMerge
      | some .merge =>
        reBuildIndexLoop fuel (w.addOrUpdateIndex fields.columnFamily fields.key) input (found + 1)
      | some .logData | some .beginPrepareXID | some .beginPersistedPrepareXID
      | some .endPrepareXID | some .commitXID | some .rollbackXID | some .noop =>
        reBuildIndexLoop fuel w input found
      | _ => (w, found, .corruption
          (joinMessages "unknown WriteBatch tag in ReBuildIndex" (toString tag.toNat)))

/-- `Rep::ReBuildIndex`: index every key record of the batch again. -/
def reBuildIndex (w : WriteBatchWithIndex) : WriteBatchWithIndex × Status :=
  let w := w.clearIndex
  if w.writeBatch.count = 0 then (w, .ok)
  else
    let input := w.writeBatch.rep.drop kHeader
    let (w, found, s) := reBuildIndexLoop (input.length + 1) w input 0
    if s = .ok ∧ found ≠ w.writeBatch.count then (w, .corruption "WriteBatch has wrong count")
    else (w, s)

/-- `WriteBatchWithIndex::SetSavePoint`. -/
def setSavePoint (w : WriteBatchWithIndex) : WriteBatchWithIndex :=
  { w with writeBatch := w.writeBatch.setSavePoint }

/-- `WriteBatchWithIndex::RollbackToSavePoint`: roll the batch back, then
rebuild the index. -/
def rollbackToSavePoint (w : WriteBatchWithIndex) : WriteBatchWithIndex × Status :=
  let (writeBatch, s) := w.writeBatch.rollbackToSavePoint
  let w := { w with writeBatch }
  if s = .ok then { w with subBatchCnt := 1, lastSubBatchOffset := 0 }.reBuildIndex
  else (w, s)

/-- `WriteBatchWithIndex::PopSavePoint`. -/
def popSavePoint (w : WriteBatchWithIndex) : WriteBatchWithIndex × Status :=
  let (writeBatch, s) := w.writeBatch.popSavePoint
  ({ w with writeBatch }, s)

/-! ## The index and the batch -/

@[simp] theorem writeBatch_updateExistingEntryWithCfId (w : WriteBatchWithIndex)
    (columnFamilyId : UInt32) (key : List UInt8) :
    (w.updateExistingEntryWithCfId columnFamilyId key).2.writeBatch = w.writeBatch := by
  unfold updateExistingEntryWithCfId
  dsimp only
  split
  · rfl
  · split
    · rfl
    · split_ifs <;> rfl

@[simp] theorem writeBatch_addOrUpdateIndex (w : WriteBatchWithIndex) (columnFamilyId : UInt32)
    (key : List UInt8) : (w.addOrUpdateIndex columnFamilyId key).writeBatch = w.writeBatch := by
  have h := writeBatch_updateExistingEntryWithCfId w columnFamilyId key
  unfold addOrUpdateIndex
  generalize w.updateExistingEntryWithCfId columnFamilyId key = r at h ⊢
  obtain ⟨updated, w'⟩ := r
  dsimp only at h ⊢
  split <;> simp [addNewEntry, h]

/-- A key write answers as the batch write does and leaves its batch. -/
theorem writeIndexed_eq (w : WriteBatchWithIndex) (columnFamilyId : UInt32) (key : List UInt8)
    (write : WriteBatch → WriteBatch × Status) :
    (w.writeIndexed columnFamilyId key write).2 = (write w.writeBatch).2 ∧
      (w.writeIndexed columnFamilyId key write).1.writeBatch = (write w.writeBatch).1 := by
  unfold writeIndexed
  dsimp only
  rw [show w.setLastEntryOffset.writeBatch = w.writeBatch from rfl]
  generalize write w.writeBatch = r
  obtain ⟨writeBatch, s⟩ := r
  dsimp only
  split_ifs <;> simp [setLastEntryOffset]

/-! ## Range deletions and `ReBuildIndex` -/

/-- After `DeleteRange` and `SetSavePoint` on a new batch, `RollbackToSavePoint`
has nothing to roll back, and `ReBuildIndex` meets the range deletion record,
for which its `switch` has no case: the rollback answers `Corruption`. -/
theorem rollbackToSavePoint_after_deleteRange
    (compareKey : UInt32 → List UInt8 → List UInt8 → Ordering) (overwriteKey : Bool)
    (columnFamilyId : UInt32) (beginKey endKey : List UInt8) (hbegin : beginKey.length < 2 ^ 32)
    (hend : endKey.length < 2 ^ 32) :
    ((create compareKey overwriteKey 0).deleteRange columnFamilyId beginKey endKey).2 = .ok ∧
      (rollbackToSavePoint (setSavePoint
        ((create compareKey overwriteKey 0).deleteRange columnFamilyId beginKey endKey).1)).2 =
        .corruption (joinMessages "unknown WriteBatch tag in ReBuildIndex"
          (toString (if columnFamilyId = 0 then ValueType.rangeDeletion
            else ValueType.columnFamilyRangeDeletion).toUInt8.toNat)) := by
  have hfit : (WriteOp.deleteRange columnFamilyId beginKey endKey).Fits := by
    intro s hs
    simp only [WriteOp.strings, List.mem_cons, List.not_mem_nil, or_false] at hs
    rcases hs with rfl | rfl <;> assumption
  obtain ⟨hok, hbuilt⟩ := WriteBatch.init_built.apply _ hfit
  obtain ⟨hs, hwb⟩ := writeIndexed_eq (create compareKey overwriteKey 0)
    columnFamilyId beginKey fun b => WriteBatchInternal.deleteRange b columnFamilyId beginKey endKey
  refine ⟨hs.trans hok, ?_⟩
  have hwb' : ((create compareKey overwriteKey 0).deleteRange columnFamilyId beginKey
      endKey).1.writeBatch = ((WriteOp.deleteRange columnFamilyId beginKey endKey).apply
        (WriteBatch.init 0)).1 := hwb
  generalize ((create compareKey overwriteKey 0).deleteRange columnFamilyId beginKey
    endKey).1 = w at hwb' ⊢
  generalize ((WriteOp.deleteRange columnFamilyId beginKey endKey).apply
    (WriteBatch.init 0)).1 = b at hbuilt hwb'
  -- the rollback keeps the batch, and the rebuild reads its one record
  have hcount : b.count ≠ 0 := by
    rw [hbuilt.count_eq]
    simp [WriteOp.isKey]
  have hinput : b.rep.drop kHeader =
      (if columnFamilyId = 0 then ValueType.rangeDeletion
        else ValueType.columnFamilyRangeDeletion).toUInt8 ::
        ((if columnFamilyId = 0 then [] else encodeVarint32 columnFamilyId) ++
          slicesBytes [beginKey, endKey] ++ []) := by
    rw [hbuilt.rep_drop]
    simp [WriteOp.encode, keyRecordBytes]
  simp only [rollbackToSavePoint, setSavePoint, hwb', WriteBatch.rollbackToSavePoint_setSavePoint]
  simp only [reBuildIndex, clearIndex, if_pos, hcount, if_false, hinput]
  -- the decoder reads the record back; the `switch` of the rebuild has no line for its tag
  have hdec : readRecordFromWriteBatch (if columnFamilyId = 0 then ValueType.rangeDeletion
        else ValueType.columnFamilyRangeDeletion).toUInt8
      ((if columnFamilyId = 0 then [] else encodeVarint32 columnFamilyId) ++
        slicesBytes [beginKey, endKey] ++ []) ⟨0, [], [], [], []⟩ =
      .ok (keyFields ⟨0, [], [], [], []⟩ columnFamilyId [beginKey, endKey], []) := by
    have hread : ∀ input f, readRecordFromWriteBatch (if columnFamilyId = 0 then
          ValueType.rangeDeletion else ValueType.columnFamilyRangeDeletion).toUInt8 input f =
        readKeyRecord input { f with columnFamily := 0 } (columnFamilyId ≠ 0)
          ([beginKey, endKey].length = 2) "bad WriteBatch DeleteRange" := by
      intro input f
      by_cases hcf : columnFamilyId = 0 <;> simp [readRecordFromWriteBatch, hcf]
    rw [hread]
    exact readKeyRecord_bytes columnFamilyId [beginKey, endKey] (by simp) hfit _ _ _
  simp only [List.length_cons, reBuildIndexLoop, hdec]
  by_cases hcf : columnFamilyId = 0 <;> simp [hcf]

/-- The bytewise comparator, the default column family and the range `[1, 2)`:
the rollback reports the tag `kTypeRangeDeletion`, 15. -/
theorem rollbackToSavePoint_after_deleteRange_sample :
    ([1] : List UInt8).length < 2 ^ 32 ∧ ([2] : List UInt8).length < 2 ^ 32 ∧
      ((create (fun _ => bytewiseCompare) true 0).deleteRange 0 [1] [2]).2 = .ok ∧
      (rollbackToSavePoint (setSavePoint
        ((create (fun _ => bytewiseCompare) true 0).deleteRange 0 [1] [2]).1)).2 =
        .corruption "unknown WriteBatch tag in ReBuildIndex: 15" := by
  obtain ⟨hok, hfail⟩ := rollbackToSavePoint_after_deleteRange (fun _ => bytewiseCompare) true 0
    [1] [2] (by decide) (by decide)
  refine ⟨by decide, by decide, hok, ?_⟩
  rw [hfail]
  decide

end WriteBatchWithIndex

end RocksDB
