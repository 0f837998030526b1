import Mathlib
import RocksDB.Db.MergeHelper

/-!
# `db/compaction_iterator.cc`: what a flush or compaction keeps

`CompactionIterator` reads the input entries in internal-key order and outputs
the ones some snapshot can still see. For each entry, `findEarliestVisibleSnapshot`
gives the earliest snapshot that sees it; an entry whose earliest snapshot is
the same as that of the newer entry of its user key before it is hidden and
dropped. Merge operands are collapsed by `MergeHelper.mergeUntil` up to the
previous snapshot, single deletions are matched with the entry below them, and
entries covered by range tombstones are dropped.

`CompactionIterator.nextFromInput` is `NextFromInput`, `CompactionIterator.next`
is `Next`, and `compactionOutput` collects what `SeekToFirst` and `Next` yield.

## Design notes

* The configuration of a flush: no `Compaction` (`compaction_ == nullptr`, so
  `bottommost_level_` is false and `PrepareOutput` changes nothing), no
  compaction filter, no snapshot checker, never shutting down.
* `current_user_key_snapshot_` starts at 0 for each user key, as in the source,
  where 0 also stands for "no previous snapshot".
* The loop of `NextFromInput` runs with fuel: each iteration consumes an input
  entry or ends the call.
-/

namespace RocksDB

/-- `findEarliestVisibleSnapshot(in, &prev_snapshot)`: the first snapshot at or
above `in` (`kMaxSequenceNumber` if none) and the snapshot before it, 0 for
none. -/
def findEarliestVisibleSnapshot (snapshots : List Nat) (seq : Nat) : Nat × Nat :=
  go kMaxSequenceNumber snapshots
where
  go (prev : Nat) : List Nat → Nat × Nat
    | [] => (kMaxSequenceNumber, prev)
    | cur :: rest =>
      if cur ≥ seq then (cur, if prev = kMaxSequenceNumber then 0 else prev) else go cur rest

/-- The state of a `CompactionIterator`. -/
structure CompactionIterator where
  input : ListIterator
  mergeOperator : Option MergeOperator
  snapshots : List Nat
  earliestWriteConflictSnapshot : Nat
  rangeDelAgg : RangeDelAggregator
  expectValidInternalKey : Bool
  visibleAtTip : Bool
  earliestSnapshot : Nat
  latestSnapshot : Nat
  key : List UInt8
  value : List UInt8
  ikey : ParsedInternalKey (List UInt8)
  valid : Bool
  status : Status
  currentUserKey : List UInt8
  hasCurrentUserKey : Bool
  currentUserKeySequence : Nat
  currentUserKeySnapshot : Nat
  hasOutputtedKey : Bool
  clearAndOutputNextKey : Bool
  atNext : Bool
  mergeOut : List (List UInt8 × List UInt8)
  mergeOutPos : Nat

namespace CompactionIterator

/-- The constructor, with the input iterator not yet positioned. -/
def create (entries : List (List UInt8 × List UInt8)) (mergeOperator : Option MergeOperator)
    (snapshots : List Nat) (earliestWriteConflictSnapshot : Nat)
    (rangeDelAgg : RangeDelAggregator) (expectValidInternalKey : Bool) : CompactionIterator where
  input := ⟨entries, 0⟩
  mergeOperator
  snapshots
  earliestWriteConflictSnapshot
  rangeDelAgg
  expectValidInternalKey
  -- no snapshots: the entries only matter at the tip
  visibleAtTip := snapshots.isEmpty
  earliestSnapshot := snapshots.headD kMaxSequenceNumber
  latestSnapshot := snapshots.getLastD 0
  key := []
  value := []
  ikey := ⟨[], 0, .value⟩
  valid := false
  status := .ok
  currentUserKey := []
  hasCurrentUserKey := false
  currentUserKeySequence := 0
  currentUserKeySnapshot := 0
  hasOutputtedKey := false
  clearAndOutputNextKey := false
  atNext := false
  mergeOut := []
  mergeOutPos := 0

/-- The entry the merge output is at, as the current entry. -/
def fromMergeOutput (c : CompactionIterator) : CompactionIterator :=
  let (key, value) := c.mergeOut.getD c.mergeOutPos ([], [])
  { c with key, value, ikey := (parseInternalKey key).getD c.ikey, valid := true }

/-- The `SingleDelete` branch of `NextFromInput` for `ikey` with the snapshot
before its earliest one: peek at the next entry. `none` goes on with the loop,
`some c` ends it. -/
def singleDeletion (c : CompactionIterator) (ikey : ParsedInternalKey (List UInt8))
    (prevSnapshot : Nat) : Option CompactionIterator × CompactionIterator :=
  let input := c.input.next
  let c := { c with input }
  let next := if input.valid then parseInternalKey input.key else none
  match next with
  | some nextIkey =>
    if nextIkey.userKey = ikey.userKey then
      if prevSnapshot = 0 ∨ nextIkey.sequence > prevSnapshot then
        if nextIkey.type = .singleDeletion then
          -- two single deletions in a row: the first one is dropped
          (none, c)
        else if c.hasOutputtedKey ∨ ikey.sequence ≤ c.earliestWriteConflictSnapshot then
          -- the single deletion and its value are both dropped
          (none, { c with input := input.next })
        else
          -- output the single deletion, then the value without its data
          (some { c with valid := true, clearAndOutputNextKey := true, atNext := true }, c)
      else
        -- the next snapshot comes before a put: output the single deletion
        (some { c with valid := true, atNext := true }, c)
    else (some { c with hasCurrentUserKey := false, valid := true, atNext := true }, c)
  | none => (some { c with hasCurrentUserKey := false, valid := true, atNext := true }, c)

/-- The loop of `NextFromInput`, for at most `fuel` input entries. -/
def nextFromInputLoop : Nat → CompactionIterator → CompactionIterator
  | 0, c => c
  | fuel + 1, c =>
    if c.valid ∨ !c.input.valid then c
    else
      let key := c.input.key
      let value := c.input.value
      let c := { c with key, value }
      match parseInternalKey key with
      | none =>
        if c.expectValidInternalKey then
          { c with status := .corruption "Corrupted internal key not expected." }
        else
          { c with hasCurrentUserKey := false, currentUserKeySequence := kMaxSequenceNumber,
                   currentUserKeySnapshot := 0, valid := true }
      | some ikey =>
        -- the first occurrence of a user key resets its state
        let c := if !c.hasCurrentUserKey ∨ ikey.userKey ≠ c.currentUserKey then
            { c with currentUserKey := ikey.userKey, hasCurrentUserKey := true,
                     hasOutputtedKey := false, currentUserKeySequence := kMaxSequenceNumber,
                     currentUserKeySnapshot := 0 }
          else c
        let lastSnapshot := c.currentUserKeySnapshot
        let (snapshot, prevSnapshot) :=
          if c.visibleAtTip then (c.earliestSnapshot, 0)
          else findEarliestVisibleSnapshot c.snapshots ikey.sequence
        let c := { c with ikey, currentUserKeySequence := ikey.sequence,
                          currentUserKeySnapshot := snapshot }
        if c.clearAndOutputNextKey then
          -- the put after a single deletion that was kept: without its data
          { c with value := [], valid := true, clearAndOutputNextKey := false }
        else if ikey.type = .singleDeletion then
          match c.singleDeletion ikey prevSnapshot with
          | (some c, _) => c
          | (none, c) => nextFromInputLoop fuel c
        else if lastSnapshot = snapshot then
          -- hidden by a newer entry of the same user key in the same snapshot
          nextFromInputLoop fuel { c with input := c.input.next }
        else if ikey.type = .merge then
          match c.mergeOperator with
          | none => { c with status := .invalidArgument "merge_operator is not properly initialized." }
          | some op =>
            let (h, s) := MergeHelper.mergeUntil op c.input c.rangeDelAgg prevSnapshot false
              c.expectValidInternalKey
            let c := { c with input := h.input, rangeDelAgg := h.rangeDelAgg,
                              mergeOut := h.output, mergeOutPos := 0 }
            if s ≠ .ok ∧ s ≠ .mergeInProgress then { c with status := s }
            else if h.output ≠ [] then c.fromMergeOutput
            else
              -- all operands filtered out
              nextFromInputLoop fuel { c with hasCurrentUserKey := false }
        else
          let (covered, agg) := c.rangeDelAgg.shouldDelete ikey .forwardTraversal
          let c := { c with rangeDelAgg := agg }
          if covered then nextFromInputLoop fuel { c with input := c.input.next }
          else { c with valid := true }

/-- `NextFromInput`. -/
def nextFromInput (c : CompactionIterator) : CompactionIterator :=
  nextFromInputLoop (c.input.entries.length + 1) { c with atNext := false, valid := false }

/-- `SeekToFirst`. -/
def seekToFirst (c : CompactionIterator) : CompactionIterator := c.nextFromInput

/-- `Next`: the rest of the merge output first. -/
def next (c : CompactionIterator) : CompactionIterator :=
  let c :=
    if c.mergeOutPos < c.mergeOut.length then
      let c := { c with mergeOutPos := c.mergeOutPos + 1 }
      if c.mergeOutPos < c.mergeOut.length then c.fromMergeOutput
      -- the merge helper already moved the input past the merged entries
      else c.nextFromInput
    else (if c.atNext then c else { c with input := c.input.next }).nextFromInput
  if c.valid then { c with hasOutputtedKey := true } else c

/-- The entries yielded while the iterator is valid, for at most `fuel` of them. -/
def collect : Nat → CompactionIterator → List (List UInt8 × List UInt8)
  | 0, _ => []
  | fuel + 1, c => if c.valid then (c.key, c.value) :: collect fuel c.next else []

end CompactionIterator

/-- The output of a flush of `entries` with `snapshots`: what `SeekToFirst` and
`Next` yield. -/
def compactionOutput (entries : List (List UInt8 × List UInt8)) (op : MergeOperator)
    (snapshots : List Nat) : List (List UInt8 × List UInt8) :=
  let c := CompactionIterator.create entries (some op) snapshots kMaxSequenceNumber
    (RangeDelAggregator.create snapshots true) true
  CompactionIterator.collect (entries.length + 1) c.seekToFirst

/-- With 0 among the snapshots, the newest entry of a user key at sequence
number 0 has the earliest snapshot 0, which is also the "no snapshot yet" value
of `current_user_key_snapshot_`: the entry is taken as hidden and dropped,
although snapshot 0 sees it. -/
theorem compactionIterator_drops_entry_at_snapshot_zero (op : MergeOperator) (k v : List UInt8)
    (snapshots : List Nat) :
    compactionOutput [internalEntry k 0 .value v] op (0 :: snapshots) = [] ∧
      snapshotView op [internalEntry k 0 .value v] k 0 = some v := by
  have hparse := parseInternalKey_appendInternalKey k 0 .value (by simp [kMaxSequenceNumber]) rfl
  -- the earliest snapshot that sees sequence number 0 is the snapshot 0
  have hsnap : findEarliestVisibleSnapshot (0 :: snapshots) 0 = (0, 0) := by
    simp [findEarliestVisibleSnapshot, findEarliestVisibleSnapshot.go]
  constructor
  · simp [compactionOutput, CompactionIterator.create, CompactionIterator.seekToFirst,
      CompactionIterator.nextFromInput, CompactionIterator.nextFromInputLoop, internalEntry,
      hparse, ListIterator.valid, ListIterator.key, ListIterator.value, ListIterator.next, hsnap,
      CompactionIterator.collect]
  · simp [snapshotView, internalEntry, hparse, resolveEntries]

/-- A flush of the single entry `k@0 = v` with the snapshot 0 outputs nothing. -/
theorem compactionIterator_snapshot_zero_sample :
    compactionOutput [internalEntry [107] 0 .value [118]] (stringAppendOperator 44) [0] = [] ∧
      snapshotView (stringAppendOperator 44) [internalEntry [107] 0 .value [118]] [107] 0 =
        some [118] :=
  compactionIterator_drops_entry_at_snapshot_zero (stringAppendOperator 44) [107] [118] []

end RocksDB
