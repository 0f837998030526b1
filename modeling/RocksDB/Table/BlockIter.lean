import Mathlib
import RocksDB.Table.Block
import RocksDB.Lib.SortedList

/-!
# `table/block.cc`: `BlockIter`

`BlockIter` walks the entries of a block. `ParseNextKey` decodes the entry after
the current one (`DecodeEntry`) and rebuilds its key from the bytes it shares
with the key before; `Seek` finds a restart point by binary search over the keys
stored whole there (`BinarySeek`) and scans forward from it; `Prev` goes back to
the restart point before the current entry and scans forward to the entry before
it, remembering the entries it passes (`prev_entries_`) so that the next `Prev`
can read them back.

## Design notes

* `data_` is the block's bytes and the pointers into it are offsets. The entry
  being decoded is handed to `DecodeEntry` as the bytes `[p, limit)`.
* `value_` is its offset and size. `value_.clear()` points the slice at an empty
  string outside the block; it is offset 0 here, read only after a seek has set
  it again.
* `current_`, `restarts_`, `num_restarts_` and `restart_index_` are `uint32_t`.
  They are numbers here, reduced modulo `2^32` where the source's arithmetic can
  wrap: the sum in `DecodeEntry`'s bound check, `NextEntryOffset` and the
  midpoint of `BinarySeek`.
* The loops run on fuel: the bytes before the restart array bound the entries a
  scan can pass, and the restart count bounds the binary search. A corrupted
  block whose lengths wrap the offsets back can make the source loop without end;
  the model stops when its fuel runs out.
* A cached entry keeps its key's bytes. The source keeps a pointer into the
  block when the key is stored whole and an offset into
  `prev_entries_keys_buff_` otherwise; both hold those bytes.
* The comparator is passed to the operations that compare.
* Left out: the prefix index (`PrefixSeek`, `BinaryBlockIndexSeek`,
  `CompareBlockKey`) and the read-amplification bitmap, which only counts bytes.
-/

namespace RocksDB

/-- `DecodeEntry(p, limit, &shared, &non_shared, &value_length)` on the bytes
`[p, limit)`: the three lengths and the bytes after them, the key delta first,
or `nullptr` (`none`). -/
def decodeEntry (input : List UInt8) : Option (UInt32 × UInt32 × UInt32 × List UInt8) :=
  if input.length < 3 then none
  else
    let shared := (input.getD 0 0).toUInt32
    let nonShared := (input.getD 1 0).toUInt32
    let valueLength := (input.getD 2 0).toUInt32
    let lengths : Option (UInt32 × UInt32 × UInt32 × List UInt8) :=
      if (shared ||| nonShared ||| valueLength) < 128 then
        -- fast path: all three values are encoded in one byte each
        some (shared, nonShared, valueLength, input.drop 3)
      else do
        let (shared, p) ← getVarint32Ptr input
        let (nonShared, p) ← getVarint32Ptr p
        let (valueLength, p) ← getVarint32Ptr p
        pure (shared, nonShared, valueLength, p)
    lengths.bind fun (shared, nonShared, valueLength, p) =>
      -- a `uint32_t` sum, compared with the bytes left
      if UInt32.ofNat p.length < nonShared + valueLength then none
      else some (shared, nonShared, valueLength, p)

/-- `ExtractValueType`: the low byte of an internal key's footer. -/
def extractValueType (ikey : List UInt8) : UInt8 :=
  (decodeFixed64 (ikey.drop (ikey.length - 8))).toUInt8

/-- `IterKey::UpdateInternalKey(seq, t)`: the footer rewritten with `seq`. -/
def updateInternalKey (key : List UInt8) (seq : Nat) (t : UInt8) : List UInt8 :=
  key.take (key.length - 8) ++ encodeFixed64 ((UInt64.ofNat seq <<< 8) ||| t.toUInt64)

/-- `CachedPrevEntry`: an entry `Prev` passed, with whether its key was stored
whole. -/
structure CachedPrevEntry where
  offset : Nat
  key : List UInt8
  keyPinned : Bool
  valueOffset : Nat
  valueSize : Nat
  deriving DecidableEq, Repr, Inhabited

/-- `BlockIter`: the block (`data_`, `restarts_`, `num_restarts_`), whether it
was given one (`data_ != nullptr`), the position (`current_`,
`restart_index_`), the entry there (`key_`, `key_pinned_`, `value_`), the status,
the global sequence number and the entries `Prev` remembers. -/
structure BlockIter where
  data : List UInt8
  hasData : Bool
  restarts : Nat
  numRestarts : Nat
  current : Nat
  restartIndex : Nat
  key : List UInt8
  keyPinned : Bool
  valueOffset : Nat
  valueSize : Nat
  status : Status
  globalSeqno : Nat
  prevEntries : List CachedPrevEntry
  prevEntriesIdx : Int
  deriving DecidableEq, Repr

namespace BlockIter

/-- The constructor `BlockIter()`: an iterator over an empty block. -/
def empty : BlockIter :=
  { data := [], hasData := false, restarts := 0, numRestarts := 0, current := 0,
    restartIndex := 0, key := [], keyPinned := false, valueOffset := 0, valueSize := 0,
    status := .ok, globalSeqno := kDisableGlobalSequenceNumber, prevEntries := [],
    prevEntriesIdx := -1 }

/-- `Initialize`: positioned past the last entry. -/
def init (it : BlockIter) (data : List UInt8) (restarts numRestarts globalSeqno : Nat) :
    BlockIter :=
  { it with
    data, hasData := true, restarts, numRestarts, current := restarts,
    restartIndex := numRestarts, globalSeqno }

/-- `Invalidate(s)`. -/
def invalidate (it : BlockIter) (s : Status) : BlockIter :=
  { it with
    hasData := false, current := it.restarts, status := s, prevEntries := [],
    prevEntriesIdx := -1 }

def valid (it : BlockIter) : Bool := it.current < it.restarts

/-- `value()`: the bytes of `value_`. -/
def value (it : BlockIter) : List UInt8 := (it.data.drop it.valueOffset).take it.valueSize

/-- `NextEntryOffset`: the offset just past the current value, as a `uint32_t`. -/
def nextEntryOffset (it : BlockIter) : Nat := (it.valueOffset + it.valueSize) % 2 ^ 32

/-- `GetRestartPoint(index)`. -/
def getRestartPoint (it : BlockIter) (index : Nat) : Nat :=
  (decodeFixed32 (it.data.drop (it.restarts + index * 4))).toNat

/-- `SeekToRestartPoint(index)`: `ParseNextKey` then starts at the restart
point. -/
def seekToRestartPoint (it : BlockIter) (index : Nat) : BlockIter :=
  { it with key := [], restartIndex := index, valueOffset := it.getRestartPoint index, valueSize := 0 }

/-- `CorruptionError()`. -/
def corruptionError (it : BlockIter) : BlockIter :=
  { it with
    current := it.restarts, restartIndex := it.numRestarts,
    status := .corruption "bad entry in block", key := [], valueOffset := 0, valueSize := 0 }

/-- The loop at the end of `ParseNextKey`: the restart index moves past the
restart points before `current_`. -/
def advanceRestartIndex (it : BlockIter) : Nat → Nat → Nat
  | 0, index => index
  | fuel + 1, index =>
    if index + 1 < it.numRestarts ∧ it.getRestartPoint (index + 1) < it.current then
      it.advanceRestartIndex fuel (index + 1)
    else index

/-- `ParseNextKey()`: the iterator on the next entry, and whether there was one. -/
def parseNextKey (it : BlockIter) : BlockIter × Bool :=
  let current := it.nextEntryOffset
  let it := { it with current }
  if current ≥ it.restarts then
    -- no more entries to return: mark as invalid
    ({ it with current := it.restarts, restartIndex := it.numRestarts }, false)
  else
    match decodeEntry ((it.data.drop current).take (it.restarts - current)) with
    | none => (it.corruptionError, false)
    | some (shared, nonShared, valueLength, rest) =>
      if it.key.length < shared.toNat then (it.corruptionError, false)
      else
        let p := it.restarts - rest.length
        let delta := (it.data.drop p).take nonShared.toNat
        -- a key sharing no bytes is read in place; another one is rebuilt
        let (key, keyPinned) :=
          if shared = 0 then (delta, true) else (it.key.take shared.toNat ++ delta, false)
        let (key, keyPinned) :=
          if it.globalSeqno ≠ kDisableGlobalSequenceNumber then
            (updateInternalKey key it.globalSeqno (extractValueType key), false)
          else (key, keyPinned)
        let it :=
          { it with
            key, keyPinned, valueOffset := p + nonShared.toNat, valueSize := valueLength.toNat }
        ({ it with restartIndex := it.advanceRestartIndex it.numRestarts it.restartIndex }, true)

/-- `Next()`. -/
def next (it : BlockIter) : BlockIter := it.parseNextKey.1

/-- The loop of `Prev` that moves the restart index down to a restart point
before `original`; `none` when there is none, the first entry being current. -/
def restartBefore (it : BlockIter) (original : Nat) : Nat → Nat → Option Nat
  | 0, index => some index
  | fuel + 1, index =>
    if it.getRestartPoint index ≥ original then
      if index = 0 then none else it.restartBefore original fuel (index - 1)
    else some index

/-- The entry `Prev` caches for the current position. -/
def cachedEntry (it : BlockIter) : CachedPrevEntry :=
  ⟨it.current, it.key, it.keyPinned, it.valueOffset, it.valueSize⟩

/-- The `do … while` loop of `Prev`: entries parsed from the restart point on and
remembered, until one ends at or after `original`. -/
def scanToPrev (original : Nat) : Nat → BlockIter → BlockIter
  | 0, it => it
  | fuel + 1, it =>
    let (it, ok) := it.parseNextKey
    if ¬ok then it
    else
      let it := { it with prevEntries := it.prevEntries ++ [it.cachedEntry] }
      if it.nextEntryOffset < original then scanToPrev original fuel it else it

/-- `Prev()`. -/
def prev (it : BlockIter) : BlockIter :=
  if 0 < it.prevEntriesIdx ∧ (it.prevEntries.getD it.prevEntriesIdx.toNat default).offset = it.current then
    -- read the cached entry before the current one
    let idx := it.prevEntriesIdx - 1
    let e := it.prevEntries.getD idx.toNat default
    { it with
      prevEntriesIdx := idx, current := e.offset, key := e.key, keyPinned := e.keyPinned,
      valueOffset := e.valueOffset, valueSize := e.valueSize }
  else
    let it := { it with prevEntriesIdx := -1, prevEntries := [] }
    let original := it.current
    match it.restartBefore original (it.restartIndex + 1) it.restartIndex with
    | none => { it with current := it.restarts, restartIndex := it.numRestarts }
    | some index =>
      let it := scanToPrev original (it.restarts + 1) (it.seekToRestartPoint index)
      { it with prevEntriesIdx := (it.prevEntries.length : Int) - 1 }

/-- `BinarySeek(target, left, right, &index)`: the last restart point whose key
is below `target`, or one whose key equals it; `none` after a corruption. -/
def binarySeek (cmp : List UInt8 → List UInt8 → Ordering) (target : List UInt8) :
    Nat → BlockIter → Nat → Nat → BlockIter × Option Nat
  | 0, it, left, _ => (it, some left)
  | fuel + 1, it, left, right =>
    if left < right then
      let mid := (left + right + 1) % 2 ^ 32 / 2
      let regionOffset := it.getRestartPoint mid
      match decodeEntry ((it.data.drop regionOffset).take (it.restarts - regionOffset)) with
      | none => (it.corruptionError, none)
      | some (shared, nonShared, _, rest) =>
        if shared ≠ 0 then (it.corruptionError, none)
        else
          let midKey := (it.data.drop (it.restarts - rest.length)).take nonShared.toNat
          match cmp midKey target with
          | .lt => binarySeek cmp target fuel it mid right
          | .gt => binarySeek cmp target fuel it left ((mid + 2 ^ 32 - 1) % 2 ^ 32)
          | .eq => binarySeek cmp target fuel it mid mid
    else (it, some left)

/-- The linear search of `Seek` and `SeekForPrev` within the restart block:
entries parsed until one is not below `target` or there are none left. -/
def seekLinear (cmp : List UInt8 → List UInt8 → Ordering) (target : List UInt8) :
    Nat → BlockIter → BlockIter
  | 0, it => it
  | fuel + 1, it =>
    let (it, ok) := it.parseNextKey
    if ok ∧ cmp it.key target = .lt then seekLinear cmp target fuel it else it

/-- `Seek(target)`. -/
def seek (cmp : List UInt8 → List UInt8 → Ordering) (it : BlockIter) (target : List UInt8) :
    BlockIter :=
  if ¬it.hasData then it
  else
    match binarySeek cmp target it.numRestarts it 0 (it.numRestarts - 1) with
    | (it, none) => it
    | (it, some index) => seekLinear cmp target (it.restarts + 1) (it.seekToRestartPoint index)

/-- `SeekToFirst()`. -/
def seekToFirst (it : BlockIter) : BlockIter :=
  if ¬it.hasData then it else (it.seekToRestartPoint 0).parseNextKey.1

/-- The loop of `SeekToLast`: entries parsed while the next one is not the
restart array. -/
def skipToLast : Nat → BlockIter → BlockIter
  | 0, it => it
  | fuel + 1, it =>
    let (it, ok) := it.parseNextKey
    if ok ∧ it.nextEntryOffset < it.restarts then skipToLast fuel it else it

/-- `SeekToLast()`. -/
def seekToLast (it : BlockIter) : BlockIter :=
  if ¬it.hasData then it
  else skipToLast (it.restarts + 1) (it.seekToRestartPoint (it.numRestarts - 1))

/-- The loop at the end of `SeekForPrev`: back while the key is above `target`. -/
def prevWhileAbove (cmp : List UInt8 → List UInt8 → Ordering) (target : List UInt8) :
    Nat → BlockIter → BlockIter
  | 0, it => it
  | fuel + 1, it =>
    if it.valid ∧ cmp it.key target = .gt then prevWhileAbove cmp target fuel it.prev else it

/-- `SeekForPrev(target)`. -/
def seekForPrev (cmp : List UInt8 → List UInt8 → Ordering) (it : BlockIter)
    (target : List UInt8) : BlockIter :=
  if ¬it.hasData then it
  else
    match binarySeek cmp target it.numRestarts it 0 (it.numRestarts - 1) with
    | (it, none) => it
    | (it, some index) =>
      let it := seekLinear cmp target (it.restarts + 1) (it.seekToRestartPoint index)
      if ¬it.valid then it.seekToLast
      else prevWhileAbove cmp target (it.restarts + 1) it

/-- One positioning operation. -/
def apply (cmp : List UInt8 → List UInt8 → Ordering) (it : BlockIter) :
    SortedList.CursorOp (List UInt8) → BlockIter
  | .seekToFirst => it.seekToFirst
  | .seekToLast => it.seekToLast
  | .seek target => it.seek cmp target
  | .seekForPrev target => it.seekForPrev cmp target
  | .next => it.next
  | .prev => it.prev

end BlockIter

/-- `Block::NewIterator(cmp, nullptr, total_order_seek)` on a block without a
prefix index: a new iterator over the block. -/
def Block.newIterator (b : Block) : BlockIter :=
  if b.size < 2 * 4 then BlockIter.empty.invalidate (.corruption "bad block contents")
  else if b.numRestarts = 0 then
    -- empty block
    BlockIter.empty.invalidate .ok
  else BlockIter.empty.init b.contents b.restartOffset.toNat b.numRestarts.toNat b.globalSeqno

end RocksDB
