import Mathlib
import RocksDB.Lib.Crc32c
import RocksDB.Db.DbFormat

/-!
# `db/log_writer.cc`, `db/log_reader.cc`: the write-ahead log format

The log is a sequence of 32 KiB blocks. `Writer.addRecord` is
`log::Writer::AddRecord`: it cuts a record into fragments that each fit the
rest of the current block behind a header, pads a block whose tail cannot hold a
header with zeros, and marks the fragments `FULL`, `FIRST`, `MIDDLE` and `LAST`.
`Writer.emitPhysicalRecord` writes a header of 7 bytes (checksum, length, type)
or, in the recyclable format, of 11 bytes with the low 32 bits of the log number
after the type; the checksum covers the type, the log-number field and the
payload.

`Reader.readRecord` is `log::Reader::ReadRecord`, which reassembles fragments
from `Reader.readPhysicalRecord` (`ReadPhysicalRecord`), which reads the file a
block at a time through `Reader.readMore` (`ReadMore`). Calls of the reporter's
`Corruption` are collected in `Reader.reports`.

## Design notes

* Record types and the reader's special results (`kEof`, `kBadRecord`, ...) are
  the source's `unsigned int` codes; the type byte of a header is a `char`,
  sign-extended on its way to `unsigned int`.
* Files are byte lists that can always be appended to and read, so the I/O error
  paths (`read_error_`, a failed `Append`) are left out.
* The loops run with fuel: the writer's loop emits a fragment of at least one
  byte at least every second iteration, and every iteration of the reader's
  loops consumes input or ends the call.
-/

namespace RocksDB

namespace Log

def kBlockSize : Nat := 32768

/-- `kHeaderSize`: checksum (4), length (2), type (1). -/
def kHeaderSize : Nat := 4 + 2 + 1

/-- `kRecyclableHeaderSize`: checksum (4), length (2), type (1), log number (4). -/
def kRecyclableHeaderSize : Nat := 4 + 1 + 4 + 2

/-! The `RecordType` values and the extra results of `ReadPhysicalRecord`. -/

def kZeroType : Nat := 0
def kFullType : Nat := 1
def kFirstType : Nat := 2
def kMiddleType : Nat := 3
def kLastType : Nat := 4
def kRecyclableFullType : Nat := 5
def kRecyclableFirstType : Nat := 6
def kRecyclableMiddleType : Nat := 7
def kRecyclableLastType : Nat := 8
def kMaxRecordType : Nat := kRecyclableLastType

def kEof : Nat := kMaxRecordType + 1
def kBadRecord : Nat := kMaxRecordType + 2
def kBadHeader : Nat := kMaxRecordType + 3
def kOldRecord : Nat := kMaxRecordType + 4
def kBadRecordLen : Nat := kMaxRecordType + 5
def kBadRecordChecksum : Nat := kMaxRecordType + 6

/-- `log::Writer`: the bytes appended to the file so far and the writer's state. -/
structure Writer where
  dest : List UInt8
  blockOffset : Nat
  logNumber : UInt64
  recycleLogFiles : Bool
  deriving DecidableEq, Repr

namespace Writer

/-- `Writer(dest, log_number, recycle_log_files, ...)` on an empty file. -/
def create (logNumber : UInt64) (recycleLogFiles : Bool) : Writer :=
  ⟨[], 0, logNumber, recycleLogFiles⟩

/-- The header `EmitPhysicalRecord` writes for a fragment of type `t`. -/
def header (w : Writer) (t : Nat) (payload : List UInt8) : List UInt8 :=
  let n := payload.length
  let typeByte := UInt8.ofNat t
  -- `type_crc_[t]`, the checksum of the type byte
  let crc := Crc32c.value [typeByte]
  -- the recyclable format stores the low 32 bits of the log number
  let logBytes := if t < kRecyclableFullType then [] else encodeFixed32 w.logNumber.toUInt32
  let crc := Crc32c.mask (Crc32c.extend (Crc32c.extend crc logBytes) payload)
  encodeFixed32 crc ++ [UInt8.ofNat (n % 256), UInt8.ofNat (n / 256), typeByte] ++ logBytes

/-- `Writer::EmitPhysicalRecord`. -/
def emitPhysicalRecord (w : Writer) (t : Nat) (payload : List UInt8) : Writer :=
  let header := w.header t payload
  { w with dest := w.dest ++ header ++ payload,
           blockOffset := w.blockOffset + header.length + payload.length }

/-- The type of a fragment from whether it begins and whether it ends the record. -/
def fragmentType (recycle isBegin isEnd : Bool) : Nat :=
  if isBegin && isEnd then if recycle then kRecyclableFullType else kFullType
  else if isBegin then if recycle then kRecyclableFirstType else kFirstType
  else if isEnd then if recycle then kRecyclableLastType else kLastType
  else if recycle then kRecyclableMiddleType else kMiddleType

/-- The `do ... while (s.ok() && left > 0)` loop of `AddRecord`, for at most
`fuel` fragments. -/
def addRecordLoop : Nat → Writer → List UInt8 → Bool → Writer
  | 0, w, _, _ => w
  | fuel + 1, w, left, isBegin =>
    let headerSize := if w.recycleLogFiles then kRecyclableHeaderSize else kHeaderSize
    let leftover := kBlockSize - w.blockOffset
    -- switch to a new block, filling the trailer with zeros
    let w := if leftover < headerSize then
        { w with dest := w.dest ++ List.replicate leftover 0, blockOffset := 0 }
      else w
    let avail := kBlockSize - w.blockOffset - headerSize
    let fragmentLength := min left.length avail
    let isEnd := left.length = fragmentLength
    let w := w.emitPhysicalRecord (fragmentType w.recycleLogFiles isBegin isEnd)
      (left.take fragmentLength)
    let left := left.drop fragmentLength
    if left.length > 0 then addRecordLoop fuel w left false else w

/-- `Writer::AddRecord`. -/
def addRecord (w : Writer) (slice : List UInt8) : Writer :=
  w.addRecordLoop (2 * slice.length + 2) slice true

end Writer

/-- The file a fresh writer leaves after `AddRecord` of each record in turn. -/
def writeRecords (logNumber : UInt64) (recycleLogFiles : Bool) (records : List (List UInt8)) :
    List UInt8 :=
  (records.foldl Writer.addRecord (Writer.create logNumber recycleLogFiles)).dest

/-- `WALRecoveryMode`. -/
inductive WALRecoveryMode where
  | tolerateCorruptedTailRecords
  | absoluteConsistency
  | pointInTimeRecovery
  | skipAnyCorruptedRecords
  deriving DecidableEq, Repr

/-- `log::Reader`: the unread rest of the file, the buffered block and the
reader's offsets, with the reporter's calls so far. -/
structure Reader where
  file : List UInt8
  checksum : Bool
  buffer : List UInt8
  eof : Bool
  eofOffset : Nat
  lastRecordOffset : Nat
  endOfBufferOffset : Nat
  initialOffset : Nat
  logNumber : UInt64
  recycled : Bool
  reports : List (Nat × Status)
  deriving DecidableEq, Repr

/-- A result of `ReadPhysicalRecord`: the code, the fragment and `*drop_size`. -/
structure PhysicalRead where
  code : Nat
  fragment : List UInt8
  dropSize : Nat
  deriving DecidableEq, Repr

namespace Reader

/-- `Reader(..., file, reporter, checksum, initial_offset, log_num)`. -/
def create (file : List UInt8) (checksum : Bool) (initialOffset : Nat) (logNumber : UInt64) :
    Reader :=
  { file, checksum, buffer := [], eof := false, eofOffset := 0, lastRecordOffset := 0,
    endOfBufferOffset := 0, initialOffset, logNumber, recycled := false, reports := [] }

/-- `ReportCorruption` through `ReportDrop`: reported unless the dropped bytes
lie before the initial offset (`uint64_t` arithmetic). -/
def reportCorruption (r : Reader) (bytes : Nat) (reason : String) : Reader :=
  if (((r.endOfBufferOffset : Int) - r.buffer.length - bytes) % 2 ^ 64).toNat ≥ r.initialOffset
  then { r with reports := r.reports ++ [(bytes, .corruption reason)] }
  else r

/-- `SkipToInitialBlock`. -/
def skipToInitialBlock (r : Reader) : Reader :=
  let initialOffsetInBlock := r.initialOffset % kBlockSize
  let blockStartLocation := r.initialOffset - initialOffsetInBlock
  -- don't search a block if we'd be in the trailer
  let blockStartLocation :=
    if initialOffsetInBlock > kBlockSize - 6 then blockStartLocation + kBlockSize
    else blockStartLocation
  { r with endOfBufferOffset := blockStartLocation, file := r.file.drop blockStartLocation }

/-- `ReadMore`: the next block, or the error code and `*drop_size` once the end
of the file was seen. -/
def readMore (r : Reader) : Reader × Option (Nat × Nat) :=
  if !r.eof then
    let block := r.file.take kBlockSize
    let r := { r with buffer := block, file := r.file.drop kBlockSize,
                      endOfBufferOffset := r.endOfBufferOffset + block.length }
    if block.length < kBlockSize then ({ r with eof := true, eofOffset := block.length }, none)
    else (r, none)
  else if r.buffer.length ≠ 0 then
    -- a truncated header at the end of the file
    ({ r with buffer := [] }, some (kBadHeader, r.buffer.length))
  else ({ r with buffer := [] }, some (kEof, 0))

/-- The type of a header: its `char` at offset 6 as an `unsigned int`. -/
def headerType (header : List UInt8) : Nat :=
  (header.getD 6 0).toInt8.toInt32.toUInt32.toNat

/-- The payload length of a header: bytes 4 and 5, little-endian. -/
def headerLength (header : List UInt8) : Nat :=
  (header.getD 4 0).toNat ||| ((header.getD 5 0).toNat <<< 8)

/-- `ReadPhysicalRecord`, for at most `fuel` blocks read. -/
def readPhysicalRecord : Nat → Reader → PhysicalRead × Reader
  | 0, r => (⟨kEof, [], 0⟩, r)
  | fuel + 1, r =>
    if r.buffer.length < kHeaderSize then
      match r.readMore with
      | (r, some (code, dropSize)) => (⟨code, [], dropSize⟩, r)
      | (r, none) => readPhysicalRecord fuel r
    else
      let header := r.buffer
      let type := headerType header
      let length := headerLength header
      let recyclable := decide (kRecyclableFullType ≤ type ∧ type ≤ kRecyclableLastType)
      let r := if recyclable ∧ r.endOfBufferOffset - r.buffer.length = 0 then
          { r with recycled := true } else r
      let headerSize := if recyclable then kRecyclableHeaderSize else kHeaderSize
      if recyclable ∧ r.buffer.length < kRecyclableHeaderSize then
        -- enough for the larger header
        match r.readMore with
        | (r, some (code, dropSize)) => (⟨code, [], dropSize⟩, r)
        | (r, none) => readPhysicalRecord fuel r
      -- `uint32_t log_num` against the `uint64_t` log number
      else if recyclable ∧ (decodeFixed32 (header.drop 7)).toNat ≠ r.logNumber.toNat then
        (⟨kOldRecord, [], 0⟩, r)
      else if headerSize + length > r.buffer.length then
        let dropSize := r.buffer.length
        let r := { r with buffer := [] }
        if !r.eof then (⟨kBadRecordLen, [], dropSize⟩, r)
        else if dropSize ≠ 0 then (⟨kBadHeader, [], dropSize⟩, r)
        else (⟨kEof, [], dropSize⟩, r)
      else if type = kZeroType ∧ length = 0 then
        -- preallocated file regions
        (⟨kBadRecord, [], 0⟩, { r with buffer := [] })
      else if r.checksum ∧ Crc32c.unmask (decodeFixed32 header) ≠
          Crc32c.value ((header.drop 6).take (length + headerSize - 6)) then
        (⟨kBadRecordChecksum, [], r.buffer.length⟩, { r with buffer := [] })
      else
        let r := { r with buffer := r.buffer.drop (headerSize + length) }
        -- skip a physical record that started before the initial offset
        if r.endOfBufferOffset - r.buffer.length - headerSize - length < r.initialOffset then
          (⟨kBadRecord, [], 0⟩, r)
        else (⟨type, (header.drop headerSize).take length, 0⟩, r)

/-- The loop of `ReadRecord` over physical records: `inFragmentedRecord`,
`scratch` and `prospectiveRecordOffset` are the source's locals. -/
def readRecordLoop (mode : WALRecoveryMode) :
    Nat → Reader → Bool → List UInt8 → Nat → Option (List UInt8) × Reader
  | 0, r, _, _, _ => (none, r)
  | fuel + 1, r, inFragmentedRecord, scratch, prospectiveRecordOffset =>
    let physicalRecordOffset := r.endOfBufferOffset - r.buffer.length
    let (rec, r) := readPhysicalRecord (r.file.length + 3) r
    let t := rec.code
    if t = kFullType ∨ t = kRecyclableFullType then
      let r := if inFragmentedRecord ∧ scratch ≠ [] then
          r.reportCorruption scratch.length "partial record without end(1)" else r
      (some rec.fragment, { r with lastRecordOffset := physicalRecordOffset })
    else if t = kFirstType ∨ t = kRecyclableFirstType then
      let r := if inFragmentedRecord ∧ scratch ≠ [] then
          r.reportCorruption scratch.length "partial record without end(2)" else r
      readRecordLoop mode fuel r true rec.fragment physicalRecordOffset
    else if t = kMiddleType ∨ t = kRecyclableMiddleType then
      if !inFragmentedRecord then
        readRecordLoop mode fuel
          (r.reportCorruption rec.fragment.length "missing start of fragmented record(1)")
          inFragmentedRecord scratch prospectiveRecordOffset
      else readRecordLoop mode fuel r inFragmentedRecord (scratch ++ rec.fragment)
        prospectiveRecordOffset
    else if t = kLastType ∨ t = kRecyclableLastType then
      if !inFragmentedRecord then
        readRecordLoop mode fuel
          (r.reportCorruption rec.fragment.length "missing start of fragmented record(2)")
          inFragmentedRecord scratch prospectiveRecordOffset
      else (some (scratch ++ rec.fragment), { r with lastRecordOffset := prospectiveRecordOffset })
    else if t = kBadHeader ∨ t = kEof then
      let r := if t = kBadHeader ∧ mode = .absoluteConsistency then
          r.reportCorruption rec.dropSize "truncated header" else r
      let r := if inFragmentedRecord ∧ mode = .absoluteConsistency then
          r.reportCorruption scratch.length "error reading trailing data" else r
      (none, r)
    -- a record of a previous instance of the log reads as the end of the file
    else if t = kOldRecord ∧ mode ≠ .skipAnyCorruptedRecords then
      let r := if inFragmentedRecord ∧ mode = .absoluteConsistency then
          r.reportCorruption scratch.length "error reading trailing data" else r
      (none, r)
    else if t = kOldRecord ∨ t = kBadRecord then
      if inFragmentedRecord then
        readRecordLoop mode fuel (r.reportCorruption scratch.length "error in middle of record")
          false [] prospectiveRecordOffset
      else readRecordLoop mode fuel r inFragmentedRecord scratch prospectiveRecordOffset
    else if t = kBadRecordLen ∨ t = kBadRecordChecksum then
      if r.recycled ∧ mode = .tolerateCorruptedTailRecords then (none, r)
      else
        let r := r.reportCorruption rec.dropSize
          (if t = kBadRecordLen then "bad record length" else "checksum mismatch")
        if inFragmentedRecord then
          readRecordLoop mode fuel (r.reportCorruption scratch.length "error in middle of record")
            false [] prospectiveRecordOffset
        else readRecordLoop mode fuel r inFragmentedRecord scratch prospectiveRecordOffset
    else
      let r := r.reportCorruption
        (rec.fragment.length + if inFragmentedRecord then scratch.length else 0)
        ("unknown record type " ++ toString t)
      readRecordLoop mode fuel r false [] prospectiveRecordOffset

/-- `Reader::ReadRecord`: the record, or `none` for `false`. -/
def readRecord (r : Reader) (mode : WALRecoveryMode) : Option (List UInt8) × Reader :=
  let r := if r.lastRecordOffset < r.initialOffset then r.skipToInitialBlock else r
  readRecordLoop mode (r.file.length + r.buffer.length + 1) r false [] 0

end Reader

end Log

end RocksDB
