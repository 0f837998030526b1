import Mathlib
import RocksDB.Db.DbFormat

/-!
# `db/write_batch.cc`: the write batch and its decoder

`WriteBatch::rep_` is a twelve-byte header (a fixed64 sequence number and a
fixed32 count) followed by records, each a tag byte, an optional varint32
column family and one or two length-prefixed strings:

    kTypeValue varstring varstring
    kTypeColumnFamilyValue varint32 varstring varstring
    kTypeLogData varstring
    ...

The write operations share one body, `WriteBatch.addKeyRecord`, applied by each
of `WriteBatchInternal::{Put, Delete, SingleDelete, DeleteRange, Merge,
PutBlobIndex}` to its own tags and content flag; `Put` and `Merge` check the key
and value sizes first, the others do not. Every write runs under a
`LocalSavePoint`, which undoes it when the batch outgrows `max_bytes_`.

`WriteBatch::Iterate` is `WriteBatch.iterate`: `ReadRecordFromWriteBatch` parses
one record with the source's fall-through cases, and the dispatch hands it to a
`Handler`, modelled as a state-passing object that receives `Record`s. Its
loop is `iterateLoop`, run with fuel: every iteration either consumes a record
or is the one retry allowed after `TryAgain`, so twice the input length bounds
the number of iterations.
-/

namespace RocksDB

/-! `ContentFlags`, the summary bits a batch keeps of the record kinds it holds. -/
namespace ContentFlags

def DEFERRED : UInt32 := (1 : UInt32) <<< 0
def HAS_PUT : UInt32 := (1 : UInt32) <<< 1
def HAS_DELETE : UInt32 := (1 : UInt32) <<< 2
def HAS_SINGLE_DELETE : UInt32 := (1 : UInt32) <<< 3
def HAS_MERGE : UInt32 := (1 : UInt32) <<< 4
def HAS_BEGIN_PREPARE : UInt32 := (1 : UInt32) <<< 5
def HAS_END_PREPARE : UInt32 := (1 : UInt32) <<< 6
def HAS_COMMIT : UInt32 := (1 : UInt32) <<< 7
def HAS_ROLLBACK : UInt32 := (1 : UInt32) <<< 8
def HAS_DELETE_RANGE : UInt32 := (1 : UInt32) <<< 9
def HAS_BLOB_INDEX : UInt32 := (1 : UInt32) <<< 10

end ContentFlags

/-- `WriteBatchInternal::kHeader`. -/
def kHeader : Nat := 12

/-- `port::kMaxUint32`. -/
def kMaxUint32 : Nat := 2 ^ 32 - 1

/-- `SavePoint`: the size of `rep_`, the count and the content flags. -/
structure SavePoint where
  size : Nat
  count : Int32
  contentFlags : UInt32
  deriving DecidableEq, Repr

/-- `SavePoint::is_cleared`: `(size | count | content_flags) == 0`. -/
def SavePoint.isCleared (sp : SavePoint) : Bool :=
  sp.size == 0 && sp.count == 0 && sp.contentFlags == 0

/-- The state of a `WriteBatch`; `save_points_` is a stack with its top first. -/
structure WriteBatch where
  savePoints : List SavePoint
  walTermPoint : SavePoint
  contentFlags : UInt32
  maxBytes : Nat
  rep : List UInt8
  deriving DecidableEq, Repr

/-- `std::string::resize`: truncate, or pad with zero bytes. -/
def stringResize (s : List UInt8) (n : Nat) : List UInt8 :=
  s.take n ++ List.replicate (n - s.length) 0

namespace WriteBatch

/-- `WriteBatch(reserved_bytes, max_bytes)`: an empty header, no flags. -/
def init (maxBytes : Nat) : WriteBatch where
  savePoints := []
  walTermPoint := ⟨0, 0, 0⟩
  contentFlags := 0
  maxBytes := maxBytes
  rep := List.replicate kHeader 0

/-- `WriteBatchInternal::Count`: the fixed32 at offset 8, read as an `int`. -/
def count (b : WriteBatch) : Int32 := (decodeFixed32 (b.rep.drop 8)).toInt32

/-- `WriteBatchInternal::SetCount`. -/
def setCount (b : WriteBatch) (n : Int32) : WriteBatch :=
  { b with rep := b.rep.take 8 ++ encodeFixed32 n.toUInt32 ++ b.rep.drop 12 }

/-- `WriteBatch::GetDataSize`. -/
def getDataSize (b : WriteBatch) : Nat := b.rep.length

/-- The `SavePoint` a `LocalSavePoint` records on construction. -/
def localSavePoint (b : WriteBatch) : SavePoint := ⟨b.getDataSize, b.count, b.contentFlags⟩

/-- `LocalSavePoint::commit`: undo the write if the batch now exceeds a non-zero
`max_bytes_`. -/
def commitSavePoint (b : WriteBatch) (save : SavePoint) : WriteBatch × Status :=
  if b.maxBytes ≠ 0 ∧ b.rep.length > b.maxBytes then
    ({ (({ b with rep := stringResize b.rep save.size } : WriteBatch).setCount save.count) with
        contentFlags := save.contentFlags }, .memoryLimit)
  else (b, .ok)

/-- The body shared by the key writes: bump the count, append the tag (with the
column family when it is not the default one) and the length-prefixed strings,
set the content flag, and commit under the save point. -/
def addKeyRecord (b : WriteBatch) (columnFamilyId : UInt32) (defaultTag cfTag : ValueType)
    (slices : List (List UInt8)) (flag : UInt32) : WriteBatch × Status :=
  let save := b.localSavePoint
  let b := b.setCount (b.count + 1)
  let rep :=
    if columnFamilyId = 0 then b.rep ++ [defaultTag.toUInt8]
    else putVarint32 (b.rep ++ [cfTag.toUInt8]) columnFamilyId
  let b := { b with rep := slices.foldl putLengthPrefixedSlice rep,
                    contentFlags := b.contentFlags ||| flag }
  b.commitSavePoint save

/-- `WriteBatch::PutLogData`: a log-data record, not counted. -/
def putLogData (b : WriteBatch) (blob : List UInt8) : WriteBatch × Status :=
  let save := b.localSavePoint
  let b := { b with rep := putLengthPrefixedSlice (b.rep ++ [ValueType.logData.toUInt8]) blob }
  b.commitSavePoint save

/-- `WriteBatch::Clear`: an empty header, no flags, no save points. -/
def clear (b : WriteBatch) : WriteBatch :=
  { b with rep := List.replicate kHeader 0, contentFlags := 0, savePoints := [],
           walTermPoint := ⟨0, 0, 0⟩ }

/-- `WriteBatch::SetSavePoint`: the size, count and flags of the batch so far. -/
def setSavePoint (b : WriteBatch) : WriteBatch :=
  { b with savePoints := b.localSavePoint :: b.savePoints }

/-- `WriteBatch::RollbackToSavePoint`: back to the most recent save point,
which is popped. -/
def rollbackToSavePoint (b : WriteBatch) : WriteBatch × Status :=
  match b.savePoints with
  | [] => (b, .notFound)
  | savepoint :: rest =>
    let b := { b with savePoints := rest }
    if savepoint.size = b.rep.length then (b, .ok)
    else if savepoint.size = 0 then (b.clear, .ok)
    else
      ({ (({ b with rep := stringResize b.rep savepoint.size } : WriteBatch).setCount
          savepoint.count) with contentFlags := savepoint.contentFlags }, .ok)

/-- Rolling back to a save point just set changes nothing. -/
theorem rollbackToSavePoint_setSavePoint (b : WriteBatch) :
    b.setSavePoint.rollbackToSavePoint = (b, .ok) := by
  simp [rollbackToSavePoint, setSavePoint, localSavePoint, getDataSize]

/-- `WriteBatch::PopSavePoint`: the most recent save point is dropped. -/
def popSavePoint (b : WriteBatch) : WriteBatch × Status :=
  match b.savePoints with
  | [] => (b, .notFound)
  | _ :: rest => ({ b with savePoints := rest }, .ok)

/-- `WriteBatch::MarkWalTerminationPoint`: the size, count and flags of the batch
so far. -/
def markWalTerminationPoint (b : WriteBatch) : WriteBatch :=
  { b with walTermPoint := ⟨b.getDataSize, b.count, b.contentFlags⟩ }

end WriteBatch

namespace WriteBatchInternal

/-- `WriteBatchInternal::Put`, which rejects keys and values longer than
`kMaxUint32` before writing. -/
def put (b : WriteBatch) (columnFamilyId : UInt32) (key value : List UInt8) :
    WriteBatch × Status :=
  if key.length > kMaxUint32 then (b, .invalidArgument "key is too large")
  else if value.length > kMaxUint32 then (b, .invalidArgument "value is too large")
  else b.addKeyRecord columnFamilyId .value .columnFamilyValue [key, value]
    ContentFlags.HAS_PUT

def delete (b : WriteBatch) (columnFamilyId : UInt32) (key : List UInt8) :
    WriteBatch × Status :=
  b.addKeyRecord columnFamilyId .deletion .columnFamilyDeletion [key] ContentFlags.HAS_DELETE

def singleDelete (b : WriteBatch) (columnFamilyId : UInt32) (key : List UInt8) :
    WriteBatch × Status :=
  b.addKeyRecord columnFamilyId .singleDeletion .columnFamilySingleDeletion [key]
    ContentFlags.HAS_SINGLE_DELETE

def deleteRange (b : WriteBatch) (columnFamilyId : UInt32) (beginKey endKey : List UInt8) :
    WriteBatch × Status :=
  b.addKeyRecord columnFamilyId .rangeDeletion .columnFamilyRangeDeletion [beginKey, endKey]
    ContentFlags.HAS_DELETE_RANGE

/-- `WriteBatchInternal::Merge`, with the same size checks as `Put`. -/
def merge (b : WriteBatch) (columnFamilyId : UInt32) (key value : List UInt8) :
    WriteBatch × Status :=
  if key.length > kMaxUint32 then (b, .invalidArgument "key is too large")
  else if value.length > kMaxUint32 then (b, .invalidArgument "value is too large")
  else b.addKeyRecord columnFamilyId .merge .columnFamilyMerge [key, value]
    ContentFlags.HAS_MERGE

def putBlobIndex (b : WriteBatch) (columnFamilyId : UInt32) (key value : List UInt8) :
    WriteBatch × Status :=
  b.addKeyRecord columnFamilyId .blobIndex .columnFamilyBlobIndex [key, value]
    ContentFlags.HAS_BLOB_INDEX

/-- `WriteBatchInternal::Append`: the records of `src` after the header, or with
`wal_only` only those before its WAL termination point when one is set, go after
those of `dst`, and the counts and flags are added. -/
def append (dst src : WriteBatch) (walOnly : Bool) : WriteBatch × Status :=
  let batchEnd := src.walTermPoint
  let (srcLen, srcCount, srcFlags) :=
    if walOnly && !batchEnd.isCleared then
      (batchEnd.size - kHeader, batchEnd.count, batchEnd.contentFlags)
    else (src.rep.length - kHeader, src.count, src.contentFlags)
  let dst := dst.setCount (dst.count + srcCount)
  ({ dst with rep := dst.rep ++ (src.rep.drop kHeader).take srcLen,
              contentFlags := dst.contentFlags ||| srcFlags }, .ok)

end WriteBatchInternal

/-! ## Iterate -/

/-- One call `WriteBatch::Iterate` makes on its handler. -/
inductive Record where
  | put (cf : UInt32) (key value : List UInt8)
  | delete (cf : UInt32) (key : List UInt8)
  | singleDelete (cf : UInt32) (key : List UInt8)
  | deleteRange (cf : UInt32) (beginKey endKey : List UInt8)
  | merge (cf : UInt32) (key value : List UInt8)
  | putBlobIndex (cf : UInt32) (key value : List UInt8)
  | logData (blob : List UInt8)
  | beginPrepare
  | endPrepare (xid : List UInt8)
  | commit (xid : List UInt8)
  | rollback (xid : List UInt8)
  | noop (emptyBatch : Bool)
  deriving DecidableEq, Repr

/-- `WriteBatch::Handler`: each call updates the handler's state and returns a
status, which `Iterate` ignores for the marker and log-data calls. -/
structure Handler (σ : Type) where
  call : σ → Record → σ × Status
  writeAfterCommit : σ → Bool
  continueIterating : σ → Bool

/-- The slices `ReadRecordFromWriteBatch` writes through its out-parameters; the
ones a record kind does not read keep the previous record's contents. -/
structure RecordSlices where
  columnFamily : UInt32
  key : List UInt8
  value : List UInt8
  blob : List UInt8
  xid : List UInt8
  deriving DecidableEq, Repr

/-- A length-prefixed string, or the corruption `msg`. -/
def readSlice (input : List UInt8) (msg : String) : Except Status (List UInt8 × List UInt8) :=
  match getLengthPrefixedSlice input with
  | some r => .ok r
  | none => .error (.corruption msg)

/-- A varint32 column family, or the corruption `msg`. -/
def readColumnFamily (input : List UInt8) (msg : String) : Except Status (UInt32 × List UInt8) :=
  match getVarint32 input with
  | some r => .ok r
  | none => .error (.corruption msg)

/-- The shared tail of the key cases: a key, and a value when the kind has one. -/
def readKeyValue (input : List UInt8) (f : RecordSlices) (withValue : Bool) (msg : String) :
    Except Status (RecordSlices × List UInt8) := do
  let (key, input) ← readSlice input msg
  if withValue then
    let (value, input) ← readSlice input msg
    return ({ f with key := key, value := value }, input)
  else return ({ f with key := key }, input)

/-- A key case of the decoder: with a column family first when `cfRecord`, then
falling through to the default-column-family case. -/
def readKeyRecord (input : List UInt8) (f : RecordSlices) (cfRecord withValue : Bool)
    (msg : String) : Except Status (RecordSlices × List UInt8) :=
  if cfRecord then do
    let (cf, input) ← readColumnFamily input msg
    readKeyValue input { f with columnFamily := cf } withValue msg
  else readKeyValue input f withValue msg

/-- `ReadRecordFromWriteBatch` after the tag byte: the column family is reset to
the default before the `switch`. -/
def readRecordFromWriteBatch (tag : UInt8) (input : List UInt8) (f : RecordSlices) :
    Except Status (RecordSlices × List UInt8) :=
  let f := { f with columnFamily := 0 }
  match ValueType.ofUInt8? tag with
  | some .columnFamilyValue => readKeyRecord input f true true "bad WriteBatch Put"
  | some .value => readKeyRecord input f false true "bad WriteBatch Put"
  | some .columnFamilyDeletion => readKeyRecord input f true false "bad WriteBatch Delete"
  | some .columnFamilySingleDeletion => readKeyRecord input f true false "bad WriteBatch Delete"
  | some .deletion => readKeyRecord input f false false "bad WriteBatch Delete"
  | some .singleDeletion => readKeyRecord input f false false "bad WriteBatch Delete"
  | some .columnFamilyRangeDeletion =>
    readKeyRecord input f true true "bad WriteBatch DeleteRange"
  | some .rangeDeletion => readKeyRecord input f false true "bad WriteBatch DeleteRange"
  | some .columnFamilyMerge => readKeyRecord input f true true "bad WriteBatch Merge"
  | some .merge => readKeyRecord input f false true "bad WriteBatch Merge"
  | some .columnFamilyBlobIndex => readKeyRecord input f true true "bad WriteBatch BlobIndex"
  | some .blobIndex => readKeyRecord input f false true "bad WriteBatch BlobIndex"
  | some .logData => do
    let (blob, input) ← readSlice input "bad WriteBatch Blob"
    return ({ f with blob := blob }, input)
  | some .noop => .ok (f, input)
  | some .beginPrepareXID => .ok (f, input)
  | some .beginPersistedPrepareXID => .ok (f, input)
  | some .endPrepareXID => do
    let (xid, input) ← readSlice input "bad EndPrepare XID"
    return ({ f with xid := xid }, input)
  | some .commitXID => do
    let (xid, input) ← readSlice input "bad Commit XID"
    return ({ f with xid := xid }, input)
  | some .rollbackXID => do
    let (xid, input) ← readSlice input "bad Rollback XID"
    return ({ f with xid := xid }, input)
  | _ => .error (.corruption "unknown WriteBatch tag")

/-- The local variables of the `Iterate` loop. -/
structure IterateState (σ : Type) where
  input : List UInt8
  s : Status
  tag : UInt8
  fields : RecordSlices
  emptyBatch : Bool
  found : Int32
  lastWasTryAgain : Bool
  handler : σ

section Iterate

variable {σ : Type} (h : Handler σ)

/-- A counted key call: on success the batch is no longer empty and one more
record is found. -/
def IterateState.keyCall (st : IterateState σ) (r : Record) (marksNonEmpty : Bool) :
    IterateState σ :=
  let res := h.call st.handler r
  if res.2 = .ok then
    { st with handler := res.1, s := res.2, found := st.found + 1,
              emptyBatch := if marksNonEmpty then false else st.emptyBatch }
  else { st with handler := res.1, s := res.2 }

/-- The `switch (tag)` of `Iterate`, after a successful read; `.error` is the
`default` return. -/
def dispatch (st : IterateState σ) : Except (σ × Status) (IterateState σ) :=
  let f := st.fields
  match ValueType.ofUInt8? st.tag with
  | some .columnFamilyValue | some .value => .ok (st.keyCall h (.put f.columnFamily f.key f.value) true)
  | some .columnFamilyDeletion | some .deletion =>
    .ok (st.keyCall h (.delete f.columnFamily f.key) true)
  | some .columnFamilySingleDeletion | some .singleDeletion =>
    .ok (st.keyCall h (.singleDelete f.columnFamily f.key) true)
  | some .columnFamilyRangeDeletion | some .rangeDeletion =>
    .ok (st.keyCall h (.deleteRange f.columnFamily f.key f.value) true)
  | some .columnFamilyMerge | some .merge =>
    .ok (st.keyCall h (.merge f.columnFamily f.key f.value) true)
  | some .columnFamilyBlobIndex | some .blobIndex =>
    -- the blob-index case counts the record but leaves `empty_batch` alone
    .ok (st.keyCall h (.putBlobIndex f.columnFamily f.key f.value) false)
  | some .logData =>
    .ok { st with handler := (h.call st.handler (.logData f.blob)).1, emptyBatch := false }
  | some .beginPrepareXID =>
    let handler := (h.call st.handler .beginPrepare).1
    .ok { st with handler := handler, emptyBatch := false,
                  s := if h.writeAfterCommit handler then st.s else .notSupported
                    "WriteCommitted txn tag when write_after_commit_ is disabled (in WritePrepared mode). If it is not due to corruption, the WAL must be emptied before changing the WritePolicy." }
  | some .beginPersistedPrepareXID =>
    let handler := (h.call st.handler .beginPrepare).1
    .ok { st with handler := handler, emptyBatch := false,
                  s := if h.writeAfterCommit handler then .notSupported
                    "WritePrepared txn tag when write_after_commit_ is enabled (in default WriteCommitted mode). If it is not due to corruption, the WAL must be emptied before changing the WritePolicy." else st.s }
  | some .endPrepareXID =>
    .ok { st with handler := (h.call st.handler (.endPrepare f.xid)).1, emptyBatch := true }
  | some .commitXID =>
    .ok { st with handler := (h.call st.handler (.commit f.xid)).1, emptyBatch := true }
  | some .rollbackXID =>
    .ok { st with handler := (h.call st.handler (.rollback f.xid)).1, emptyBatch := true }
  | some .noop =>
    .ok { st with handler := (h.call st.handler (.noop st.emptyBatch)).1, emptyBatch := true }
  | _ => .error (st.handler, .corruption "unknown WriteBatch tag")

/-- One iteration of the loop body: read a record, or re-dispatch after a
`TryAgain`, then dispatch. -/
def iterateStep (st : IterateState σ) : Except (σ × Status) (IterateState σ) :=
  if st.s ≠ .tryAgain then
    match st.input with
    -- unreachable: the loop runs with a status other than `TryAgain` only on
    -- non-empty input, where the source reads `(*input)[0]`
    | [] => .error (st.handler, .corruption "unknown WriteBatch tag")
    | tag :: input =>
      match readRecordFromWriteBatch tag input st.fields with
      | .error s => .error (st.handler, s)
      | .ok (fields, input) =>
        dispatch h { st with input := input, tag := tag, fields := fields,
                             lastWasTryAgain := false }
  else if st.lastWasTryAgain then
    .error (st.handler, .corruption
      "two consecutive TryAgain in WriteBatch handler; this is either a software bug or data corruption.")
  else dispatch h { st with lastWasTryAgain := true, s := .ok }

/-- The loop condition of `Iterate`. -/
def loopContinues (st : IterateState σ) : Bool :=
  ((st.s = .ok && !st.input.isEmpty) || st.s = .tryAgain) && h.continueIterating st.handler

/-- The `Iterate` loop, run for at most `fuel` iterations. -/
def iterateLoop : Nat → IterateState σ → Except (σ × Status) (IterateState σ)
  | 0, st => .ok st
  | fuel + 1, st =>
    if loopContinues h st then
      match iterateStep h st with
      | .ok st' => iterateLoop fuel st'
      | .error r => .error r
    else .ok st

/-- `WriteBatch::Iterate`, returning the handler's final state with the status. -/
def WriteBatch.iterate (b : WriteBatch) (init : σ) : σ × Status :=
  if b.rep.length < kHeader then (init, .corruption "malformed WriteBatch (too small)")
  else
    let st : IterateState σ :=
      { input := b.rep.drop kHeader, s := .ok, tag := 0, fields := ⟨0, [], [], [], []⟩,
        emptyBatch := true, found := 0, lastWasTryAgain := false, handler := init }
    match iterateLoop h (2 * b.rep.length + 2) st with
    | .error r => r
    | .ok st =>
      if st.s ≠ .ok then (st.handler, st.s)
      else if st.found ≠ b.count then (st.handler, .corruption "WriteBatch has wrong count")
      else (st.handler, .ok)

end Iterate

end RocksDB
