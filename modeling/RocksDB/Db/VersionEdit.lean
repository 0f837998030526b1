import Mathlib
import RocksDB.Db.DbFormat

/-!
# `db/version_edit.{h,cc}`: file metadata and manifest records

A `VersionEdit` is one record of the manifest: optional scalar fields, each with
its `has_*` flag, a set of deleted `(level, file number)` pairs, a list of added
files and the column-family fields. `VersionEdit.encodeTo` is `EncodeTo`, which
writes one tagged entry per field and picks `kNewFile2`, `kNewFile3` or
`kNewFile4` for each added file; `decodeFrom` is `DecodeFrom`, the tag loop with
its error messages, and `decodeNewFile4From` the loop over the custom fields of a
`kNewFile4` entry.

`min_log_number_to_keep_` has a tag of its own (`kMinLogNumberToKeep`) that the
decoder reads, but the encoder only writes it as the custom field
`kMinLogNumberToKeepHack` of a `kNewFile4` entry.

## Design notes

* `FileMetaData` keeps the fields the edit reads and writes; the table-reader
  handle, the sampled statistics and the compaction bookkeeping are left out.
* `std::set<std::pair<int, uint64_t>>` is a list kept sorted and free of
  duplicates by `DeletedFileSet.insert`, so that iterating it, as the encoder
  does, visits the pairs in the set's order.
* The decoding loops take an explicit fuel; every iteration reads a varint, so
  the input's length is enough.
-/

namespace RocksDB

/-- `kFileNumberMask`: the file number takes the low 62 bits of the packed word. -/
def kFileNumberMask : UInt64 := 0x3FFFFFFFFFFFFFFF

/-- `PackFileNumberAndPathId`. -/
def packFileNumberAndPathId (number pathId : UInt64) : UInt64 :=
  number ||| pathId * (kFileNumberMask + 1)

/-- `FileDescriptor` without its table reader. -/
structure FileDescriptor where
  packedNumberAndPathId : UInt64
  fileSize : UInt64
  deriving DecidableEq, Repr

namespace FileDescriptor

/-- `FileDescriptor(number, path_id, file_size)`. -/
def make (number : UInt64) (pathId : UInt32) (fileSize : UInt64) : FileDescriptor :=
  ⟨packFileNumberAndPathId number pathId.toUInt64, fileSize⟩

def getNumber (fd : FileDescriptor) : UInt64 := fd.packedNumberAndPathId &&& kFileNumberMask

def getPathId (fd : FileDescriptor) : UInt32 :=
  (fd.packedNumberAndPathId / (kFileNumberMask + 1)).toUInt32

def getFileSize (fd : FileDescriptor) : UInt64 := fd.fileSize

end FileDescriptor

/-- `InternalKey`: its `rep_`, empty for the default-constructed invalid key. -/
structure InternalKey where
  rep : List UInt8
  deriving DecidableEq, Repr

namespace InternalKey

/-- `InternalKey::Valid`: the representation parses. -/
def valid (k : InternalKey) : Bool := (parseInternalKey k.rep).isSome

def encode (k : InternalKey) : List UInt8 := k.rep

/-- `InternalKey::DecodeFrom`. -/
def decodeFrom (s : List UInt8) : InternalKey := ⟨s⟩

end InternalKey

/-- The fields of `FileMetaData` that version edits carry. -/
structure FileMetaData where
  fd : FileDescriptor
  smallest : InternalKey
  largest : InternalKey
  smallestSeqno : UInt64
  largestSeqno : UInt64
  markedForCompaction : Bool
  deriving DecidableEq, Repr

/-- `FileMetaData()`. -/
def FileMetaData.empty : FileMetaData where
  fd := FileDescriptor.make 0 0 0
  smallest := ⟨[]⟩
  largest := ⟨[]⟩
  smallestSeqno := UInt64.ofNat kMaxSequenceNumber
  largestSeqno := 0
  markedForCompaction := false

/-- `VersionEdit::DeletedFileSet`, a `std::set` of `(level, file number)` pairs:
a list in the set's order, without repetitions. -/
abbrev DeletedFileSet := List (Int32 × UInt64)

/-- The order of `std::pair<int, uint64_t>`: level first, as signed integers. -/
def deletedFileLe (a b : Int32 × UInt64) : Bool :=
  a.1.toInt < b.1.toInt || (a.1 = b.1 && a.2.toNat ≤ b.2.toNat)

/-- `std::set::insert`: no effect on a pair already present. -/
def DeletedFileSet.insert (s : DeletedFileSet) (x : Int32 × UInt64) : DeletedFileSet :=
  if x ∈ s then s else s.orderedInsert (fun a b => deletedFileLe a b = true) x

/-- The `Tag` enumeration of manifest entries. -/
inductive Tag where
  | comparator
  | logNumber
  | nextFileNumber
  | lastSequence
  | compactPointer
  | deletedFile
  | newFile
  | prevLogNumber
  | minLogNumberToKeep
  | newFile2
  | newFile3
  | newFile4
  | columnFamily
  | columnFamilyAdd
  | columnFamilyDrop
  | maxColumnFamily
  deriving DecidableEq, Repr

namespace Tag

def toUInt32 : Tag → UInt32
  | comparator => 1
  | logNumber => 2
  | nextFileNumber => 3
  | lastSequence => 4
  | compactPointer => 5
  | deletedFile => 6
  | newFile => 7
  | prevLogNumber => 9
  | minLogNumberToKeep => 10
  | newFile2 => 100
  | newFile3 => 102
  | newFile4 => 103
  | columnFamily => 200
  | columnFamilyAdd => 201
  | columnFamilyDrop => 202
  | maxColumnFamily => 203

def ofUInt32? (t : UInt32) : Option Tag :=
  match t.toNat with
  | 1 => some comparator
  | 2 => some logNumber
  | 3 => some nextFileNumber
  | 4 => some lastSequence
  | 5 => some compactPointer
  | 6 => some deletedFile
  | 7 => some newFile
  | 9 => some prevLogNumber
  | 10 => some minLogNumberToKeep
  | 100 => some newFile2
  | 102 => some newFile3
  | 103 => some newFile4
  | 200 => some columnFamily
  | 201 => some columnFamilyAdd
  | 202 => some columnFamilyDrop
  | 203 => some maxColumnFamily
  | _ => none

@[simp] theorem ofUInt32?_toUInt32 (t : Tag) : ofUInt32? t.toUInt32 = some t := by
  cases t <;> rfl

end Tag

/-! The `CustomTag` values of the fields of a `kNewFile4` entry. -/
namespace CustomTag

def kTerminate : UInt32 := 1
def kNeedCompaction : UInt32 := 2
def kMinLogNumberToKeepHack : UInt32 := 3
def kPathId : UInt32 := 65

end CustomTag

/-- `kCustomTagNonSafeIgnoreMask`: an unknown custom field with this bit is fatal. -/
def kCustomTagNonSafeIgnoreMask : UInt32 := (1 : UInt32) <<< 6

/-- The fields of `VersionEdit`. -/
structure VersionEdit where
  maxLevel : Int32
  comparator : List UInt8
  logNumber : UInt64
  prevLogNumber : UInt64
  nextFileNumber : UInt64
  maxColumnFamily : UInt32
  minLogNumberToKeep : UInt64
  lastSequence : UInt64
  hasComparator : Bool
  hasLogNumber : Bool
  hasPrevLogNumber : Bool
  hasNextFileNumber : Bool
  hasLastSequence : Bool
  hasMaxColumnFamily : Bool
  hasMinLogNumberToKeep : Bool
  deletedFiles : DeletedFileSet
  newFiles : List (Int32 × FileMetaData)
  columnFamily : UInt32
  isColumnFamilyDrop : Bool
  isColumnFamilyAdd : Bool
  columnFamilyName : List UInt8
  deriving DecidableEq, Repr

namespace VersionEdit

/-- `VersionEdit()`, which calls `Clear()`. -/
def empty : VersionEdit where
  maxLevel := 0
  comparator := []
  logNumber := 0
  prevLogNumber := 0
  nextFileNumber := 0
  maxColumnFamily := 0
  minLogNumberToKeep := 0
  lastSequence := 0
  hasComparator := false
  hasLogNumber := false
  hasPrevLogNumber := false
  hasNextFileNumber := false
  hasLastSequence := false
  hasMaxColumnFamily := false
  hasMinLogNumberToKeep := false
  deletedFiles := []
  newFiles := []
  columnFamily := 0
  isColumnFamilyDrop := false
  isColumnFamilyAdd := false
  columnFamilyName := []

/-! ### Setters -/

def setComparatorName (e : VersionEdit) (name : List UInt8) : VersionEdit :=
  { e with hasComparator := true, comparator := name }

def setLogNumber (e : VersionEdit) (num : UInt64) : VersionEdit :=
  { e with hasLogNumber := true, logNumber := num }

def setPrevLogNumber (e : VersionEdit) (num : UInt64) : VersionEdit :=
  { e with hasPrevLogNumber := true, prevLogNumber := num }

def setNextFile (e : VersionEdit) (num : UInt64) : VersionEdit :=
  { e with hasNextFileNumber := true, nextFileNumber := num }

def setLastSequence (e : VersionEdit) (seq : UInt64) : VersionEdit :=
  { e with hasLastSequence := true, lastSequence := seq }

def setMaxColumnFamily (e : VersionEdit) (maxColumnFamily : UInt32) : VersionEdit :=
  { e with hasMaxColumnFamily := true, maxColumnFamily := maxColumnFamily }

def setMinLogNumberToKeep (e : VersionEdit) (num : UInt64) : VersionEdit :=
  { e with hasMinLogNumberToKeep := true, minLogNumberToKeep := num }

/-- `AddFile(level, file, file_path_id, file_size, smallest, largest, ...)`. -/
def addFile (e : VersionEdit) (level : Int32) (file : UInt64) (filePathId : UInt32)
    (fileSize : UInt64) (smallest largest : InternalKey) (smallestSeqno largestSeqno : UInt64)
    (markedForCompaction : Bool) : VersionEdit :=
  { e with newFiles := e.newFiles ++
      [(level, { fd := FileDescriptor.make file filePathId fileSize, smallest, largest,
                 smallestSeqno, largestSeqno, markedForCompaction })] }

/-- `AddFile(level, const FileMetaData& f)`. -/
def addFileMeta (e : VersionEdit) (level : Int32) (f : FileMetaData) : VersionEdit :=
  { e with newFiles := e.newFiles ++ [(level, f)] }

def deleteFile (e : VersionEdit) (level : Int32) (file : UInt64) : VersionEdit :=
  { e with deletedFiles := e.deletedFiles.insert (level, file) }

def setColumnFamily (e : VersionEdit) (columnFamilyId : UInt32) : VersionEdit :=
  { e with columnFamily := columnFamilyId }

def addColumnFamily (e : VersionEdit) (name : List UInt8) : VersionEdit :=
  { e with isColumnFamilyAdd := true, columnFamilyName := name }

def dropColumnFamily (e : VersionEdit) : VersionEdit :=
  { e with isColumnFamilyDrop := true }

/-! ### `EncodeTo` -/

/-- The `kNewFile*` entry of one added file. `minLogWritten` is the encoder's
`min_log_num_written`: the hack field goes into the first `kNewFile4` entry only. -/
def encodeNewFile (e : VersionEdit) (level : Int32) (f : FileMetaData) (dst : List UInt8)
    (minLogWritten : Bool) : List UInt8 × Bool :=
  let hasCustomizedFields := f.markedForCompaction || e.hasMinLogNumberToKeep
  let dst :=
    if hasCustomizedFields then putVarint32 dst Tag.newFile4.toUInt32
    else if f.fd.getPathId = 0 then putVarint32 dst Tag.newFile2.toUInt32
    else putVarint32 dst Tag.newFile3.toUInt32
  let dst := putVarint32Varint64 dst level.toUInt32 f.fd.getNumber
  let dst :=
    if f.fd.getPathId ≠ 0 ∧ !hasCustomizedFields then putVarint32 dst f.fd.getPathId else dst
  let dst := putVarint64 dst f.fd.getFileSize
  let dst := putLengthPrefixedSlice dst f.smallest.encode
  let dst := putLengthPrefixedSlice dst f.largest.encode
  let dst := putVarint64Varint64 dst f.smallestSeqno f.largestSeqno
  if hasCustomizedFields then
    let dst :=
      if f.fd.getPathId ≠ 0 then
        putLengthPrefixedSlice (putVarint32 dst CustomTag.kPathId) [f.fd.getPathId.toUInt8]
      else dst
    let dst :=
      if f.markedForCompaction then
        putLengthPrefixedSlice (putVarint32 dst CustomTag.kNeedCompaction) [1]
      else dst
    let (dst, minLogWritten) :=
      if e.hasMinLogNumberToKeep ∧ !minLogWritten then
        (putLengthPrefixedSlice (putVarint32 dst CustomTag.kMinLogNumberToKeepHack)
          (putFixed64 [] e.minLogNumberToKeep), true)
      else (dst, minLogWritten)
    (putVarint32 dst CustomTag.kTerminate, minLogWritten)
  else (dst, minLogWritten)

/-- The loop over `new_files_`; `false` when a file's boundary key is invalid,
with the bytes written so far. -/
def encodeNewFiles (e : VersionEdit) :
    List (Int32 × FileMetaData) → List UInt8 → Bool → List UInt8 × Bool
  | [], dst, _ => (dst, true)
  | (level, f) :: rest, dst, minLogWritten =>
    if !f.smallest.valid || !f.largest.valid then (dst, false)
    else
      let r := e.encodeNewFile level f dst minLogWritten
      encodeNewFiles e rest r.1 r.2

/-- `VersionEdit::EncodeTo`: the bytes appended to `dst`, and the returned flag. -/
def encodeTo (e : VersionEdit) (dst : List UInt8) : List UInt8 × Bool :=
  let dst :=
    if e.hasComparator then putLengthPrefixedSlice (putVarint32 dst Tag.comparator.toUInt32)
      e.comparator
    else dst
  let dst := if e.hasLogNumber then putVarint32Varint64 dst Tag.logNumber.toUInt32 e.logNumber
    else dst
  let dst := if e.hasPrevLogNumber then
      putVarint32Varint64 dst Tag.prevLogNumber.toUInt32 e.prevLogNumber
    else dst
  let dst := if e.hasNextFileNumber then
      putVarint32Varint64 dst Tag.nextFileNumber.toUInt32 e.nextFileNumber
    else dst
  let dst := if e.hasLastSequence then
      putVarint32Varint64 dst Tag.lastSequence.toUInt32 e.lastSequence
    else dst
  let dst := if e.hasMaxColumnFamily then
      putVarint32Varint32 dst Tag.maxColumnFamily.toUInt32 e.maxColumnFamily
    else dst
  let dst := e.deletedFiles.foldl (fun dst d =>
    putVarint32Varint32Varint64 dst Tag.deletedFile.toUInt32 d.1.toUInt32 d.2) dst
  match e.encodeNewFiles e.newFiles dst false with
  | (dst, false) => (dst, false)
  | (dst, true) =>
    -- 0 is the default column family and is not written
    let dst := if e.columnFamily ≠ 0 then
        putVarint32Varint32 dst Tag.columnFamily.toUInt32 e.columnFamily
      else dst
    let dst := if e.isColumnFamilyAdd then
        putLengthPrefixedSlice (putVarint32 dst Tag.columnFamilyAdd.toUInt32) e.columnFamilyName
      else dst
    let dst := if e.isColumnFamilyDrop then putVarint32 dst Tag.columnFamilyDrop.toUInt32
      else dst
    (dst, true)

/-! ### `DecodeFrom` -/

/-- `GetInternalKey(input, dst)`: `none` when no slice can be read, leaving `dst`
alone; otherwise the key stored into `dst`, the rest of the input and the
returned `Valid()`. -/
def getInternalKey (input : List UInt8) : Option (InternalKey × List UInt8 × Bool) :=
  (getLengthPrefixedSlice input).map fun r =>
    let k := InternalKey.decodeFrom r.1
    (k, r.2, k.valid)

/-- `GetInternalKey` into a local key: only a valid key is of use. -/
def getValidInternalKey (input : List UInt8) : Option (InternalKey × List UInt8) :=
  match getInternalKey input with
  | some (k, rest, true) => some (k, rest)
  | _ => none

/-- `VersionEdit::GetLevel`: the level as an `int`, raising `max_level_`. -/
def getLevel (e : VersionEdit) (input : List UInt8) : Option (Int32 × List UInt8 × VersionEdit) :=
  match getVarint32 input with
  | some (v, rest) =>
    let level := v.toInt32
    some (level, rest, if e.maxLevel < level then { e with maxLevel := level } else e)
  | none => none

/-- The fixed part of a `kNewFile4` entry after its level. -/
structure NewFileHead where
  number : UInt64
  fileSize : UInt64
  smallest : InternalKey
  largest : InternalKey
  smallestSeqno : UInt64
  largestSeqno : UInt64

/-- Number, size, keys and sequence numbers of a `kNewFile4` entry. -/
def getNewFile4Head (input : List UInt8) : Option (NewFileHead × List UInt8) := do
  let (number, input) ← getVarint64 input
  let (fileSize, input) ← getVarint64 input
  let (smallest, input) ← getValidInternalKey input
  let (largest, input) ← getValidInternalKey input
  let (smallestSeqno, input) ← getVarint64 input
  let (largestSeqno, input) ← getVarint64 input
  return (⟨number, fileSize, smallest, largest, smallestSeqno, largestSeqno⟩, input)

/-- The state of the custom-field loop of `DecodeNewFile4From`. -/
structure NewFile4State where
  input : List UInt8
  pathId : UInt32
  markedForCompaction : Bool
  edit : VersionEdit

/-- One custom field: `none` on `kTerminate`, the next state, or the error
message with the state reached so far. -/
def newFile4Field (st : NewFile4State) : Except (String × NewFile4State) (Option NewFile4State) :=
  match getVarint32 st.input with
  | none => .error ("new-file4 custom field", st)
  | some (customTag, input) =>
    if customTag = CustomTag.kTerminate then .ok none
    else
      match getLengthPrefixedSlice input with
      | none => .error ("new-file4 custom field lenth prefixed slice error", st)
      | some (field, input) =>
        let st := { st with input := input }
        if customTag = CustomTag.kPathId then
          match field with
          | [b] =>
            -- `path_id = field[0]` converts a signed `char`
            let pathId := b.toInt8.toInt32.toUInt32
            if pathId > 3 then .error ("path_id wrong vaue", { st with pathId := pathId })
            else .ok (some { st with pathId := pathId })
          | _ => .error ("path_id field wrong size", st)
        else if customTag = CustomTag.kNeedCompaction then
          match field with
          | [b] => .ok (some { st with markedForCompaction := b = 1 })
          | _ => .error ("need_compaction field wrong size", st)
        else if customTag = CustomTag.kMinLogNumberToKeepHack then
          match getFixed64 field with
          | some (n, _) =>
            .ok (some { st with edit := { st.edit with minLogNumberToKeep := n,
                                                       hasMinLogNumberToKeep := true } })
          | none => .error ("deleted log number malformatted", st)
        else if customTag &&& kCustomTagNonSafeIgnoreMask ≠ 0 then
          .error ("new-file4 custom field not supported", st)
        else .ok (some st)

/-- The custom-field loop, for at most `fuel` fields. -/
def newFile4Fields : Nat → NewFile4State → Except (String × NewFile4State) NewFile4State
  | 0, st => .ok st
  | fuel + 1, st =>
    match newFile4Field st with
    | .error r => .error r
    | .ok none => .ok st
    | .ok (some st') => newFile4Fields fuel st'

/-- `VersionEdit::DecodeNewFile4From`: the returned message, the rest of the
input and the edit, which keeps what `GetLevel` and the custom fields set
before an error. -/
def decodeNewFile4From (e : VersionEdit) (input : List UInt8) :
    (Option String × List UInt8) × VersionEdit :=
  match e.getLevel input with
  | none => ((some "new-file4 entry", input), e)
  | some (level, input, e) =>
    match getNewFile4Head input with
    | none => ((some "new-file4 entry", input), e)
    | some (head, input) =>
      match newFile4Fields input.length ⟨input, 0, false, e⟩ with
      | .error (msg, st) => ((some msg, st.input), st.edit)
      | .ok st =>
        let f : FileMetaData :=
          { fd := FileDescriptor.make head.number st.pathId head.fileSize,
            smallest := head.smallest, largest := head.largest,
            smallestSeqno := head.smallestSeqno, largestSeqno := head.largestSeqno,
            markedForCompaction := st.markedForCompaction }
        ((none, st.input), { st.edit with newFiles := st.edit.newFiles ++ [(level, f)] })

end VersionEdit

/-- The state of the `DecodeFrom` loop: the edit, the input, the message and the
`FileMetaData f` that the `kNewFile`, `kNewFile2` and `kNewFile3` cases share. -/
structure DecodeState where
  edit : VersionEdit
  input : List UInt8
  msg : Option String
  f : FileMetaData

namespace DecodeState

/-- Set the message unless one is already set (`if (!msg) msg = ...`). -/
def fail (st : DecodeState) (msg : String) : DecodeState :=
  { st with msg := if st.msg.isSome then st.msg else some msg }

/-- A `kNewFile`, `kNewFile2` or `kNewFile3` entry: level, number, the path id when
`withPathId`, size, the two keys (stored into `f` as they are read) and the
sequence numbers when `withSeqnos`. -/
def newFileEntry (st : DecodeState) (withPathId withSeqnos : Bool) (msg : String) :
    DecodeState :=
  match st.edit.getLevel st.input with
  | none => st.fail msg
  | some (level, input, e) =>
    let st := { st with edit := e }
    match getVarint64 input with
    | none => st.fail msg
    | some (number, input) =>
      let pathIdRead : Option (UInt32 × List UInt8) :=
        if withPathId then getVarint32 input else some (0, input)
      match pathIdRead with
      | none => st.fail msg
      | some (pathId, input) =>
        match getVarint64 input with
        | none => st.fail msg
        | some (fileSize, input) =>
          match VersionEdit.getInternalKey input with
          | none => st.fail msg
          | some (smallest, input, smallestValid) =>
            let st := { st with f := { st.f with smallest := smallest } }
            if !smallestValid then st.fail msg else
            match VersionEdit.getInternalKey input with
            | none => st.fail msg
            | some (largest, input, largestValid) =>
              let st := { st with f := { st.f with largest := largest } }
              if !largestValid then st.fail msg else
              let seqnos : Option ((UInt64 × UInt64) × List UInt8) :=
                if withSeqnos then do
                  let (s, input) ← getVarint64 input
                  let (l, input) ← getVarint64 input
                  return ((s, l), input)
                else some ((st.f.smallestSeqno, st.f.largestSeqno), input)
              match seqnos with
              | none => st.fail msg
              | some ((s, l), input) =>
                let f := { st.f with fd := FileDescriptor.make number pathId fileSize,
                                     smallestSeqno := s, largestSeqno := l }
                { st with input := input, f := f,
                          edit := { st.edit with newFiles := st.edit.newFiles ++ [(level, f)] } }

/-- One entry of the `switch (tag)` of `DecodeFrom`. -/
def entry (st : DecodeState) (tag : UInt32) : DecodeState :=
  let e := st.edit
  match Tag.ofUInt32? tag with
  | some .comparator =>
    match getLengthPrefixedSlice st.input with
    | some (str, input) =>
      { st with input := input, edit := { e with comparator := str, hasComparator := true } }
    | none => { st with msg := some "comparator name" }
  | some .logNumber =>
    match getVarint64 st.input with
    | some (n, input) =>
      { st with input := input, edit := { e with logNumber := n, hasLogNumber := true } }
    | none => { st with msg := some "log number" }
  | some .prevLogNumber =>
    match getVarint64 st.input with
    | some (n, input) =>
      { st with input := input, edit := { e with prevLogNumber := n, hasPrevLogNumber := true } }
    | none => { st with msg := some "previous log number" }
  | some .nextFileNumber =>
    match getVarint64 st.input with
    | some (n, input) =>
      { st with input := input,
                edit := { e with nextFileNumber := n, hasNextFileNumber := true } }
    | none => { st with msg := some "next file number" }
  | some .lastSequence =>
    match getVarint64 st.input with
    | some (n, input) =>
      { st with input := input, edit := { e with lastSequence := n, hasLastSequence := true } }
    | none => { st with msg := some "last sequence number" }
  | some .maxColumnFamily =>
    match getVarint32 st.input with
    | some (n, input) =>
      { st with input := input,
                edit := { e with maxColumnFamily := n, hasMaxColumnFamily := true } }
    | none => { st with msg := some "max column family" }
  | some .minLogNumberToKeep =>
    match getVarint64 st.input with
    | some (n, input) =>
      { st with input := input,
                edit := { e with minLogNumberToKeep := n, hasMinLogNumberToKeep := true } }
    | none => { st with msg := some "min log number to kee" }
  | some .compactPointer =>
    -- compaction pointers are read and dropped
    match e.getLevel st.input with
    | some (_, input, e) =>
      match VersionEdit.getValidInternalKey input with
      | some (_, input) => { st with input := input, edit := e }
      | none => { st with edit := e }.fail "compaction pointer"
    | none => st.fail "compaction pointer"
  | some .deletedFile =>
    match e.getLevel st.input with
    | some (level, input, e) =>
      match getVarint64 input with
      | some (number, input) =>
        { st with input := input, edit := { e with deletedFiles := e.deletedFiles.insert (level, number) } }
      | none => { st with edit := e }.fail "deleted file"
    | none => st.fail "deleted file"
  | some .newFile => st.newFileEntry false false "new-file entry"
  | some .newFile2 => st.newFileEntry false true "new-file2 entry"
  | some .newFile3 => st.newFileEntry true true "new-file3 entry"
  | some .newFile4 =>
    let ((msg, input), e) := e.decodeNewFile4From st.input
    { st with input := input, edit := e, msg := msg }
  | some .columnFamily =>
    match getVarint32 st.input with
    | some (cf, input) => { st with input := input, edit := { e with columnFamily := cf } }
    | none => st.fail "set column family id"
  | some .columnFamilyAdd =>
    match getLengthPrefixedSlice st.input with
    | some (str, input) =>
      { st with input := input,
                edit := { e with isColumnFamilyAdd := true, columnFamilyName := str } }
    | none => st.fail "column family add"
  | some .columnFamilyDrop => { st with edit := { e with isColumnFamilyDrop := true } }
  | none => { st with msg := some "unknown tag" }

/-- The loop `while (msg == nullptr && GetVarint32(&input, &tag))`, for at most
`fuel` iterations. -/
def loop : Nat → DecodeState → DecodeState
  | 0, st => st
  | fuel + 1, st =>
    if st.msg.isNone then
      match getVarint32 st.input with
      | some (tag, input) => loop fuel ({ st with input := input }.entry tag)
      | none => st
    else st

end DecodeState

/-- `VersionEdit::DecodeFrom`: the decoded edit and the status. -/
def VersionEdit.decodeFrom (src : List UInt8) : VersionEdit × Status :=
  let st := DecodeState.loop src.length ⟨VersionEdit.empty, src, none, FileMetaData.empty⟩
  let msg := if st.msg.isNone && !st.input.isEmpty then some "invalid tag" else st.msg
  match msg with
  | some m => (st.edit, .corruption ("VersionEdit: " ++ m))
  | none => (st.edit, .ok)

end RocksDB
