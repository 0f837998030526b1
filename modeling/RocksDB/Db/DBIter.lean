import Mathlib
import RocksDB.Lib.Fuel
import RocksDB.Db.InternalIterator
import RocksDB.Db.RangeDelAggregator

/-!
# `db/db_iter.cc`: the iterator over a snapshot

`DBIter` turns an internal iterator over entries `(internal key, value)` in the
internal key order into an iterator over user keys at the snapshot `sequence_`:
each user key once, with the value its visible entries resolve to, and no key
whose newest visible entry is a deletion.

Forward, `FindNextUserEntryInternal` reads the entries newest first and skips
the older entries of a key it has yielded or seen deleted; merge operands are
resolved by `MergeValuesNewToOld`. Backward, `PrevInternal` reads the entries of
a key oldest first in `FindValueForCurrentKey` and steps to the key before with
`FindUserKeyBeforeSavedKey`. In both directions, after `max_skip_` skipped
entries in a row, the iterator reseeks instead of stepping.

## Main definitions

* `DBIter.next`, `DBIter.prev`, `DBIter.seek`, `DBIter.seekForPrev`,
  `DBIter.seekToFirst`, `DBIter.seekToLast`: the operations, each with the fuel
  its loops may use.
* `SnapshotCursor`: a cursor over the pairs `(k, snapshotView k)` of the keys
  whose view is present, the behaviour the iterator is meant to have.

## Design notes

* Every loop runs with the fuel of the operation that calls it and answers
  `none` when the fuel runs out: an operation that answers `none` for every
  fuel never returns.
* The internal iterator is a `ListIterator`, whose `status()` is always OK; the
  branches on a failed `status()` are left out.
* Statistics, perf counters and the pinning of blocks are left out. The modelled
  merge operators never answer with one of their operands, so a merge with
  operands clears `pinned_value_` and `value()` reads `saved_value_`.
* Where the backward path only asserts that a merge operator is set, a missing
  one fails as in `MergeValuesNewToOld`.
* The user comparator is the bytewise one; `Equal` is equality of the bytes.
* The copy of `prefix_start_key_` into `prefix_start_buf_` after a seek keeps
  its bytes and is left out.
-/

namespace RocksDB

/-- `IterKey` as `DBIter` keeps `saved_key_`: the bytes, and whether they are a
user key or an internal key. -/
structure IterKey where
  key : List UInt8
  isUserKey : Bool
  deriving DecidableEq, Repr

namespace IterKey

/-- `SetUserKey(key)`. -/
def ofUserKey (key : List UInt8) : IterKey := ⟨key, true⟩

/-- `SetInternalKey(user_key, s, t)`. -/
def ofInternalKey (ikey : ParsedInternalKey (List UInt8)) : IterKey :=
  ⟨appendInternalKey [] ikey, false⟩

def getUserKey (k : IterKey) : List UInt8 := if k.isUserKey then k.key else extractUserKey k.key

def getInternalKey (k : IterKey) : List UInt8 := k.key

@[simp] theorem getUserKey_ofUserKey (key : List UInt8) : (ofUserKey key).getUserKey = key := rfl

@[simp] theorem getUserKey_ofInternalKey (ikey : ParsedInternalKey (List UInt8)) :
    (ofInternalKey ikey).getUserKey = ikey.userKey := by
  simp [ofInternalKey, getUserKey]

end IterKey

/-- `Direction`. -/
inductive Direction where
  | forward
  | reverse
  deriving DecidableEq, Repr

/-- What `DBIter` reads from its `ReadOptions`, column family options and
constructor arguments and never changes. -/
structure DBIterOptions where
  mergeOperator : Option MergeOperator
  sequence : Nat
  iterateLowerBound : Option (List UInt8)
  iterateUpperBound : Option (List UInt8)
  prefixExtractor : Option (List UInt8 → List UInt8)
  prefixSameAsStart : Bool
  totalOrderSeek : Bool
  maxSkippableInternalKeys : Nat
  readCallback : Option (Nat → Bool)
  allowBlob : Bool
  startSeqnum : Nat

/-- The default `ReadOptions` (no bounds, no prefix seek, no limit on skipped
keys, no incremental start), no read callback and no blobs, with a merge
operator and the snapshot `sequence`. -/
def DBIterOptions.ofSnapshot (mergeOperator : Option MergeOperator) (sequence : Nat) :
    DBIterOptions where
  mergeOperator
  sequence
  iterateLowerBound := none
  iterateUpperBound := none
  prefixExtractor := none
  prefixSameAsStart := false
  totalOrderSeek := false
  maxSkippableInternalKeys := 0
  readCallback := none
  allowBlob := false
  startSeqnum := 0

/-- The state of a `DBIter`. -/
structure DBIter where
  cfg : DBIterOptions
  iter : ListIterator
  rangeDelAgg : RangeDelAggregator
  maxSkip : Nat
  status : Status
  savedKey : IterKey
  savedValue : List UInt8
  /-- `pinned_value_`; `none` when its data pointer is null. -/
  pinnedValue : Option (List UInt8)
  direction : Direction
  valid : Bool
  currentEntryIsMerged : Bool
  isBlob : Bool
  numInternalKeysSkipped : Nat
  prefixStartKey : List UInt8
  /-- The operands of `merge_context_` in the order `GetOperands` gives them,
  oldest first. -/
  mergeContext : List (List UInt8)

namespace DBIter

/-- `NewDBIterator(..., internal_iter, sequence, max_sequential_skip_in_iterations,
...)` over the entries of the internal iterator, which is not yet positioned. -/
def create (cfg : DBIterOptions) (entries : List (List UInt8 × List UInt8))
    (maxSequentialSkipInIterations : Nat) : DBIter where
  cfg
  iter := ⟨entries, entries.length⟩
  rangeDelAgg := .createForRead cfg.sequence true
  maxSkip := maxSequentialSkipInIterations
  status := .ok
  savedKey := .ofUserKey []
  savedValue := []
  pinnedValue := some []
  direction := .forward
  valid := false
  currentEntryIsMerged := false
  isBlob := false
  numInternalKeysSkipped := 0
  prefixStartKey := []
  mergeContext := []

/-- `key()`: the internal key when incremental iteration asks for it. -/
def key (it : DBIter) : List UInt8 :=
  if it.cfg.startSeqnum > 0 then it.savedKey.getInternalKey else it.savedKey.getUserKey

/-- `value()`. -/
def value (it : DBIter) : List UInt8 :=
  if it.currentEntryIsMerged then it.pinnedValue.getD it.savedValue
  else if it.direction = .reverse then it.pinnedValue.getD []
  else it.iter.value

def savedUserKey (it : DBIter) : List UInt8 := it.savedKey.getUserKey

/-- The internal key `(saved user key, seq, t)` that reseeks aim at. -/
def seekKey (it : DBIter) (seq : Nat) (t : ValueType) : List UInt8 :=
  appendInternalKey [] ⟨it.savedUserKey, seq, t⟩

/-- `prefix_extractor_ != nullptr && !total_order_seek_`. -/
def prefixSeek (it : DBIter) : Bool := it.cfg.prefixExtractor.isSome && !it.cfg.totalOrderSeek

/-- A prefix extractor is set and the prefix of `u` is not the one of the start
key. -/
def outOfPrefix (it : DBIter) (u : List UInt8) : Bool :=
  it.cfg.prefixExtractor.any fun transform => transform u != it.prefixStartKey

/-- `prefix_start_key_ = prefix_extractor_->Transform(key)` when the prefix of
the start key is kept. -/
def setPrefixStartKey (it : DBIter) (key : List UInt8) : DBIter :=
  match it.cfg.prefixExtractor with
  | some transform => if it.cfg.prefixSameAsStart then { it with prefixStartKey := transform key } else it
  | none => it

def unexpectedBlobIndex : String :=
  "Encounter unexpected blob index. Please open DB with rocksdb::blob_db::BlobDB instead."

def blobMergeNotSupported : String := "Blob DB does not support merge operator."

/-- The status of a blob index among merge operands. -/
def blobIndexMergeStatus (allowBlob : Bool) : Status :=
  .notSupported (if allowBlob then blobMergeNotSupported else unexpectedBlobIndex)

/-- `ParseKey`: the current entry's parsed key, or the iterator with the
corruption status. -/
def parseKey (it : DBIter) : Except DBIter (ParsedInternalKey (List UInt8)) :=
  match parseInternalKey it.iter.key with
  | some ikey => .ok ikey
  | none => .error { it with status := .corruption "corrupted internal key in DBIter", valid := false }

/-- `IsVisible(sequence)`. -/
def isVisible (it : DBIter) (sequence : Nat) : Bool :=
  decide (sequence ≤ it.cfg.sequence) && it.cfg.readCallback.all fun isCommitted => isCommitted sequence

/-- `TooManyInternalKeysSkipped(increment)`. -/
def tooManyInternalKeysSkipped (it : DBIter) (increment : Bool) : Bool × DBIter :=
  if it.cfg.maxSkippableInternalKeys > 0 ∧
      it.numInternalKeysSkipped > it.cfg.maxSkippableInternalKeys then
    (true, { it with valid := false, status := .incomplete "Too many internal keys skipped." })
  else if increment then (false, { it with numInternalKeysSkipped := it.numInternalKeysSkipped + 1 })
  else (false, it)

/-- `range_del_agg_.ShouldDelete(ikey, mode)`, which moves the aggregator. -/
def shouldDelete (it : DBIter) (ikey : ParsedInternalKey (List UInt8))
    (mode : RangePositioningMode) : Bool × DBIter :=
  let (covered, agg) := it.rangeDelAgg.shouldDelete ikey mode
  (covered, { it with rangeDelAgg := agg })

/-- A deletion, or an entry a range tombstone covers, asked in that order. -/
def deletedEntry (it : DBIter) (ikey : ParsedInternalKey (List UInt8))
    (mode : RangePositioningMode) : Bool × DBIter :=
  if ikey.type = .deletion ∨ ikey.type = .singleDeletion then (true, it)
  else it.shouldDelete ikey mode

/-- `MergeHelper::TimedFullMerge(merge_operator_, key, value,
merge_context_.GetOperands(), &saved_value_, ..., &pinned_value_)`, then the
failure branch of the callers: the iterator invalid with the merge's status. -/
def fullMerge (it : DBIter) (key : List UInt8) (value : Option (List UInt8)) : Bool × DBIter :=
  match it.cfg.mergeOperator with
  | none => (false, { it with status := .invalidArgument "merge_operator_ must be set.", valid := false })
  | some op =>
    match timedFullMerge op key value it.mergeContext with
    | .ok result =>
      (true, { it with savedValue := result,
                       pinnedValue := if it.mergeContext = [] then it.pinnedValue else none })
    | .error s => (false, { it with valid := false, status := s })

/-- The iterator is valid when a merge succeeded. -/
def validIfMerged : Bool × DBIter → Bool × DBIter
  | (true, it) => (true, { it with valid := true })
  | r => r

/-! ## Forward iteration -/

/-- The loop of `MergeValuesNewToOld` after the first operand, for at most
`fuel` entries. -/
def mergeValuesNewToOldLoop : Nat → DBIter → Option (Bool × DBIter)
  | 0, _ => none
  | fuel + 1, it =>
    if !it.iter.valid then some (it.fullMerge it.savedUserKey none)
    else
      match it.parseKey with
      | .error it => some (false, it)
      | .ok ikey =>
        if ikey.userKey ≠ it.savedUserKey then some (it.fullMerge it.savedUserKey none)
        else
          match it.deletedEntry ikey .forwardTraversal with
          | (true, it) =>
            -- the operands end at a deletion; the iterator moves past it
            some ({ it with iter := it.iter.next }.fullMerge it.savedUserKey none)
          | (false, it) =>
            if ikey.type = .value then
              match it.fullMerge ikey.userKey (some it.iter.value) with
              | (true, it) => some (true, { it with iter := it.iter.next })
              | (false, it) => some (false, it)
            else if ikey.type = .merge then
              mergeValuesNewToOldLoop fuel
                { it with mergeContext := it.iter.value :: it.mergeContext, iter := it.iter.next }
            else if ikey.type = .blobIndex then
              some (false, { it with valid := false, status := blobIndexMergeStatus it.cfg.allowBlob })
            else mergeValuesNewToOldLoop fuel { it with iter := it.iter.next }

/-- `MergeValuesNewToOld`: from the newest operand of the saved key, its
operands down to a `Put`, a deletion or the next key, merged. -/
def mergeValuesNewToOld (fuel : Nat) (it : DBIter) : Option (Bool × DBIter) :=
  if it.cfg.mergeOperator.isNone then
    some (false, { it with status := .invalidArgument "merge_operator_ must be set.", valid := false })
  else mergeValuesNewToOldLoop fuel { it with mergeContext := [it.iter.value], iter := it.iter.next }

/-- How one pass of the loop body of `FindNextUserEntryInternal` ends. -/
inductive FindNextStep where
  /-- `return ok` -/
  | ret (ok : Bool) (it : DBIter)
  /-- `return MergeValuesNewToOld()` -/
  | merge (it : DBIter)
  /-- `break` -/
  | brk (it : DBIter)
  /-- on to the reseek or `Next()`, with the new `skipping` and `num_skipped` -/
  | skip (skipping : Bool) (numSkipped : Nat) (it : DBIter)

/-- The `switch` of `FindNextUserEntryInternal` on the type of a visible entry
that is not skipped; `num_skipped` is back to 0. -/
def findNextUserEntryVisible (it : DBIter) (ikey : ParsedInternalKey (List UInt8))
    (skipping : Bool) : FindNextStep :=
  match ikey.type with
  | .deletion | .singleDeletion =>
    if it.cfg.startSeqnum > 0 ∧ ikey.sequence ≥ it.cfg.startSeqnum then
      .ret true { it with savedKey := .ofInternalKey ikey, valid := true }
    else
      -- the older entries of the key are hidden by the deletion
      .skip true 0 { it with savedKey := .ofUserKey ikey.userKey }
  | .value | .blobIndex =>
    if it.cfg.startSeqnum > 0 then
      if ikey.sequence ≥ it.cfg.startSeqnum then
        .ret true { it with savedKey := .ofInternalKey ikey, valid := true }
      else .skip true 0 { it with savedKey := .ofUserKey ikey.userKey }
    else
      match { it with savedKey := .ofUserKey ikey.userKey }.shouldDelete ikey .forwardTraversal with
      | (true, it) => .skip true 0 it
      | (false, it) =>
        if ikey.type = .blobIndex then
          if it.cfg.allowBlob then .ret true { it with isBlob := true, valid := true }
          else .ret false { it with status := .notSupported unexpectedBlobIndex, valid := false }
        else .ret true { it with valid := true }
  | .merge =>
    match { it with savedKey := .ofUserKey ikey.userKey }.shouldDelete ikey .forwardTraversal with
    | (true, it) => .skip true 0 it
    | (false, it) => .merge { it with currentEntryIsMerged := true, valid := true }
  | _ => .skip skipping 0 it

/-- One pass of the loop body of `FindNextUserEntryInternal` up to the reseek. -/
def findNextUserEntryBody (prefixCheck skipping : Bool) (numSkipped : Nat) (it : DBIter) :
    FindNextStep :=
  match it.parseKey with
  | .error it => .ret false it
  | .ok ikey =>
    if it.cfg.iterateUpperBound.any fun ub => bytewiseCompare ikey.userKey ub ≠ .lt then .brk it
    else if prefixCheck && it.outOfPrefix ikey.userKey then .brk it
    else
      match it.tooManyInternalKeysSkipped true with
      | (true, it) => .ret false it
      | (false, it) =>
        let cmp := bytewiseCompare ikey.userKey it.savedUserKey
        if it.isVisible ikey.sequence then
          if skipping ∧ cmp ≠ .gt then .skip skipping (numSkipped + 1) it
          else it.findNextUserEntryVisible ikey skipping
        -- an entry newer than the snapshot
        else if cmp = .eq ∨ (skipping ∧ cmp ≠ .gt) then .skip skipping (numSkipped + 1) it
        else .skip false 0 { it with savedKey := .ofUserKey ikey.userKey }

/-- The end of a pass: after more than `max_skip_` entries skipped in a row a
reseek, else `Next()`. -/
def findNextUserEntryAdvance (skipping : Bool) (numSkipped : Nat) (it : DBIter) : Nat × DBIter :=
  if numSkipped > it.maxSkip then
    -- skipping: past the oldest possible entry of the key; else to the snapshot
    let target := if skipping then it.seekKey 0 .deletion
      else it.seekKey it.cfg.sequence kValueTypeForSeek
    (0, { it with iter := it.iter.seek target })
  else (numSkipped, { it with iter := it.iter.next })

/-- The loop of `FindNextUserEntryInternal`, for at most `fuel` passes. -/
def findNextUserEntryInternal (prefixCheck : Bool) :
    Nat → Bool → Nat → DBIter → Option (Bool × DBIter)
  | 0, _, _, _ => none
  | fuel + 1, skipping, numSkipped, it =>
    match findNextUserEntryBody prefixCheck skipping numSkipped it with
    | .ret ok it => some (ok, it)
    | .merge it => it.mergeValuesNewToOld fuel
    | .brk it => some (true, { it with valid := false })
    | .skip skipping numSkipped it =>
      match findNextUserEntryAdvance skipping numSkipped it with
      | (numSkipped, it) =>
        if it.iter.valid then findNextUserEntryInternal prefixCheck fuel skipping numSkipped it
        else some (true, { it with valid := false })

/-- `FindNextUserEntry(skipping, prefix_check)`. -/
def findNextUserEntry (fuel : Nat) (skipping prefixCheck : Bool) (it : DBIter) :
    Option (Bool × DBIter) :=
  findNextUserEntryInternal prefixCheck fuel skipping 0
    { it with currentEntryIsMerged := false, isBlob := false }

/-- The loop of `ReverseToForward`: on to the first entry not below the saved
key. -/
def reverseToForwardLoop : Nat → DBIter → Option (Bool × DBIter)
  | 0, _ => none
  | fuel + 1, it =>
    if !it.iter.valid then some (true, it)
    else
      match it.parseKey with
      | .error it => some (false, it)
      | .ok ikey =>
        if bytewiseCompare ikey.userKey it.savedUserKey ≠ .lt then some (true, it)
        else reverseToForwardLoop fuel { it with iter := it.iter.next }

/-- `ReverseToForward`. -/
def reverseToForward (fuel : Nat) (it : DBIter) : Option (Bool × DBIter) :=
  let it := if it.prefixSeek || !it.iter.valid then
      { it with iter := it.iter.seek (it.seekKey kMaxSequenceNumber kValueTypeForSeek) }
    else it
  reverseToForwardLoop fuel { it with direction := .forward }

/-! ## Backward iteration -/

/-- The loop of `FindUserKeyBeforeSavedKey`: back to the last entry below the
saved key, reseeking after `max_skip_` steps. -/
def findUserKeyBeforeSavedKeyLoop : Nat → Nat → DBIter → Option (Bool × DBIter)
  | 0, _, _ => none
  | fuel + 1, numSkipped, it =>
    if !it.iter.valid then some (true, it)
    else
      match it.parseKey with
      | .error it => some (false, it)
      | .ok ikey =>
        if bytewiseCompare ikey.userKey it.savedUserKey = .lt then some (true, it)
        else
          match it.tooManyInternalKeysSkipped true with
          | (true, it) => some (false, it)
          | (false, it) =>
            if numSkipped ≥ it.maxSkip then
              -- to the first entry of the saved key, then one step back
              let it := { it with iter := it.iter.seek (it.seekKey kMaxSequenceNumber kValueTypeForSeek) }
              if it.iter.valid then findUserKeyBeforeSavedKeyLoop fuel 0 { it with iter := it.iter.prev }
              else some (true, it)
            else findUserKeyBeforeSavedKeyLoop fuel (numSkipped + 1) { it with iter := it.iter.prev }

/-- `FindUserKeyBeforeSavedKey`. -/
def findUserKeyBeforeSavedKey (fuel : Nat) (it : DBIter) : Option (Bool × DBIter) :=
  findUserKeyBeforeSavedKeyLoop fuel 0 it

/-- The first loop of `FindValueForCurrentKeyUsingSeek`: on to the first visible
entry of the saved key, or the function's return. -/
def findVisibleLoop :
    Nat → DBIter → Option (Except (Bool × DBIter) (ParsedInternalKey (List UInt8) × DBIter))
  | 0, _ => none
  | fuel + 1, it =>
    if !it.iter.valid then some (.error (true, { it with valid := false }))
    else
      match it.parseKey with
      | .error it => some (.error (false, it))
      | .ok ikey =>
        -- no visible entry of the key is left
        if ikey.userKey ≠ it.savedUserKey then some (.error (true, { it with valid := false }))
        else if it.isVisible ikey.sequence then some (.ok (ikey, it))
        else findVisibleLoop fuel { it with iter := it.iter.next }

/-- The end of `FindValueForCurrentKeyUsingSeek` when the operands run out: a
merge without a base value, and the internal iterator back at the key if it
left it. -/
def usingSeekFinish (it : DBIter) : Bool × DBIter :=
  match it.fullMerge it.savedUserKey none with
  | (false, it) => (false, it)
  | (true, it) =>
    let target := it.seekKey it.cfg.sequence kValueTypeForSeek
    let iter :=
      if it.prefixSeek then it.iter.seekForPrev target
      else if it.iter.valid then it.iter
      else
        let iter := it.iter.seek target
        if iter.valid then iter else iter.seekToLast
    (true, { it with iter, valid := true })

/-- The second loop of `FindValueForCurrentKeyUsingSeek`: the merge operands of
the saved key, newest first. -/
def usingSeekMergeLoop : Nat → DBIter → Option (Bool × DBIter)
  | 0, _ => none
  | fuel + 1, it =>
    let it := { it with iter := it.iter.next }
    if !it.iter.valid then some it.usingSeekFinish
    else
      match it.parseKey with
      | .error it => some (false, it)
      | .ok ikey =>
        if ikey.userKey ≠ it.savedUserKey then some it.usingSeekFinish
        else
          match it.deletedEntry ikey .backwardTraversal with
          | (true, it) => some it.usingSeekFinish
          | (false, it) =>
            if ikey.type = .value then
              validIfMerged (it.fullMerge it.savedUserKey (some it.iter.value))
            else if ikey.type = .merge then
              usingSeekMergeLoop fuel { it with mergeContext := it.iter.value :: it.mergeContext }
            else if ikey.type = .blobIndex then
              some (false, { it with valid := false, status := blobIndexMergeStatus it.cfg.allowBlob })
            else usingSeekMergeLoop fuel it

/-- `FindValueForCurrentKeyUsingSeek`: the value of the saved key read newest
first after a seek to the snapshot. -/
def findValueForCurrentKeyUsingSeek (fuel : Nat) (it : DBIter) : Option (Bool × DBIter) :=
  let it := { it with iter := it.iter.seek (it.seekKey it.cfg.sequence kValueTypeForSeek) }
  (findVisibleLoop fuel it).bind fun
    | .error r => some r
    | .ok (ikey, it) =>
      match it.deletedEntry ikey .backwardTraversal with
      | (true, it) => some (true, { it with valid := false })
      | (false, it) =>
        if ikey.type = .blobIndex ∧ !it.cfg.allowBlob then
          some (false, { it with status := .notSupported unexpectedBlobIndex, valid := false })
        else if ikey.type = .value ∨ ikey.type = .blobIndex then
          some (true, { it with pinnedValue := some it.iter.value, valid := true })
        else
          usingSeekMergeLoop fuel
            { it with currentEntryIsMerged := true, mergeContext := [it.iter.value] }

/-- The `switch` of `FindValueForCurrentKey` on one entry of the saved key, read
oldest first: the new `last_not_merge_type` and `last_key_entry_type`. -/
def findValueForCurrentKeyEntry (it : DBIter) (ikey : ParsedInternalKey (List UInt8))
    (lastNotMergeType : ValueType) : ValueType × ValueType × DBIter :=
  match ikey.type with
  | .value | .blobIndex =>
    match it.shouldDelete ikey .backwardTraversal with
    | (true, it) => (.rangeDeletion, .rangeDeletion, { it with mergeContext := [] })
    | (false, it) =>
      (ikey.type, ikey.type, { it with pinnedValue := some it.iter.value, mergeContext := [] })
  | .deletion | .singleDeletion => (ikey.type, ikey.type, { it with mergeContext := [] })
  | .merge =>
    match it.shouldDelete ikey .backwardTraversal with
    | (true, it) => (.rangeDeletion, .rangeDeletion, { it with mergeContext := [] })
    | (false, it) =>
      (lastNotMergeType, .merge, { it with mergeContext := it.mergeContext ++ [it.iter.value] })
  | t => (lastNotMergeType, t, it)

/-- The end of `FindValueForCurrentKey`: the `switch` on the type of the newest
visible entry of the saved key. -/
def findValueForCurrentKeyEnd (it : DBIter) (lastNotMergeType lastKeyEntryType : ValueType) :
    Bool × DBIter :=
  let it := { it with isBlob := false }
  match lastKeyEntryType with
  | .deletion | .singleDeletion | .rangeDeletion => (true, { it with valid := false })
  | .merge =>
    let it := { it with currentEntryIsMerged := true }
    match lastNotMergeType with
    | .deletion | .singleDeletion | .rangeDeletion =>
      validIfMerged (it.fullMerge it.savedUserKey none)
    | .blobIndex =>
      (false, { it with valid := false, status := blobIndexMergeStatus it.cfg.allowBlob })
    | _ => validIfMerged (it.fullMerge it.savedUserKey (some (it.pinnedValue.getD [])))
  | .blobIndex =>
    if it.cfg.allowBlob then (true, { it with isBlob := true, valid := true })
    else (false, { it with status := .notSupported unexpectedBlobIndex, valid := false })
  | _ => (true, { it with valid := true })

/-- The loop of `FindValueForCurrentKey` over the entries of the saved key,
oldest first. -/
def findValueForCurrentKeyLoop :
    Nat → ValueType → ValueType → Nat → DBIter → Option (Bool × DBIter)
  | 0, _, _, _, _ => none
  | fuel + 1, lastNotMergeType, lastKeyEntryType, numSkipped, it =>
    if !it.iter.valid then some (it.findValueForCurrentKeyEnd lastNotMergeType lastKeyEntryType)
    else
      match it.parseKey with
      | .error it => some (false, it)
      | .ok ikey =>
        if !it.isVisible ikey.sequence ∨ ikey.userKey ≠ it.savedUserKey then
          some (it.findValueForCurrentKeyEnd lastNotMergeType lastKeyEntryType)
        else
          match it.tooManyInternalKeysSkipped true with
          | (true, it) => some (false, it)
          | (false, it) =>
            -- many entries of one key: read them newest first after a seek
            if numSkipped ≥ it.maxSkip then it.findValueForCurrentKeyUsingSeek fuel
            else
              match it.findValueForCurrentKeyEntry ikey lastNotMergeType with
              | (lastNotMergeType, lastKeyEntryType, it) =>
                findValueForCurrentKeyLoop fuel lastNotMergeType lastKeyEntryType (numSkipped + 1)
                  { it with iter := it.iter.prev }

/-- `FindValueForCurrentKey`. -/
def findValueForCurrentKey (fuel : Nat) (it : DBIter) : Option (Bool × DBIter) :=
  findValueForCurrentKeyLoop fuel .deletion .deletion 0
    { it with mergeContext := [], currentEntryIsMerged := false }

/-- The loop of `PrevInternal`: key by key backward until one has a value. -/
def prevInternalLoop : Nat → DBIter → Option DBIter
  | 0, _ => none
  | fuel + 1, it =>
    if !it.iter.valid then some { it with valid := false }
    else
      let it := { it with savedKey := .ofUserKey (extractUserKey it.iter.key) }
      if it.cfg.prefixSameAsStart && it.outOfPrefix it.savedUserKey then some { it with valid := false }
      else if it.cfg.iterateLowerBound.any fun lb => bytewiseCompare it.savedUserKey lb = .lt then
        some { it with valid := false }
      else
        (it.findValueForCurrentKey fuel).bind fun (found, it) =>
          if !found then some it
          else
            (it.findUserKeyBeforeSavedKey fuel).bind fun (ok, it) =>
              if !ok || it.valid then some it
              else
                match it.tooManyInternalKeysSkipped false with
                | (true, it) => some it
                | (false, it) => prevInternalLoop fuel it

/-- `PrevInternal`. -/
def prevInternal (fuel : Nat) (it : DBIter) : Option DBIter := prevInternalLoop fuel it

/-- `ReverseToBackward`: the internal iterator back at the saved key if a merge
left it, then before the saved key. -/
def reverseToBackward (fuel : Nat) (it : DBIter) : Option (Bool × DBIter) :=
  let target := it.seekKey kMaxSequenceNumber kValueTypeForSeek
  let it :=
    if it.currentEntryIsMerged && (it.prefixSeek || !it.iter.valid) then
      if it.prefixSeek then { it with iter := it.iter.seekForPrev target }
      else
        let iter := it.iter.seek target
        { it with iter := if iter.valid then iter else iter.seekToLast }
    else it
  findUserKeyBeforeSavedKey fuel { it with direction := .reverse }

/-! ## The operations -/

/-- `Next()`. -/
def next (fuel : Nat) (it : DBIter) : Option DBIter :=
  let it := { it with numInternalKeysSkipped := 0 }
  let moved : Option (Bool × DBIter) :=
    if it.direction = .reverse then it.reverseToForward fuel
    -- a merge already moved the internal iterator past the key
    else if it.iter.valid && !it.currentEntryIsMerged then some (true, { it with iter := it.iter.next })
    else some (true, it)
  moved.bind fun (ok, it) =>
    if ok && it.iter.valid then
      (it.findNextUserEntry fuel true it.cfg.prefixSameAsStart).map Prod.snd
    else some { it with valid := false }

/-- `Prev()`. -/
def prev (fuel : Nat) (it : DBIter) : Option DBIter :=
  let it := { it with numInternalKeysSkipped := 0 }
  let moved := if it.direction = .forward then it.reverseToBackward fuel else some (true, it)
  moved.bind fun (ok, it) => if ok then it.prevInternal fuel else some it

/-- `Seek(target)`. -/
def seek (fuel : Nat) (target : List UInt8) (it : DBIter) : Option DBIter :=
  let it := { it with status := .ok, numInternalKeysSkipped := 0,
                      savedKey := .ofInternalKey ⟨target, it.cfg.sequence, kValueTypeForSeek⟩ }
  let it : DBIter := match it.cfg.iterateLowerBound with
    | some lb =>
      if bytewiseCompare it.savedUserKey lb = .lt then
        { it with savedKey := .ofInternalKey ⟨lb, it.cfg.sequence, kValueTypeForSeek⟩ }
      else it
    | none => it
  let it := { it with iter := it.iter.seek it.savedKey.getInternalKey,
                      rangeDelAgg := it.rangeDelAgg.invalidateTombstoneMapPositions }
  if it.iter.valid then
    let it := { it.setPrefixStartKey target with direction := .forward, savedValue := [] }
    (it.findNextUserEntry fuel false it.cfg.prefixSameAsStart).map fun (_, it) =>
      if it.valid then it else { it with prefixStartKey := [] }
  else some { it with valid := false }

/-- `SeekForPrev(target)`. -/
def seekForPrev (fuel : Nat) (target : List UInt8) (it : DBIter) : Option DBIter :=
  let it := { it with status := .ok, numInternalKeysSkipped := 0,
                      savedKey := .ofInternalKey ⟨target, 0, kValueTypeForSeekForPrev⟩ }
  let it : DBIter := match it.cfg.iterateUpperBound with
    | some ub =>
      if bytewiseCompare it.savedUserKey ub ≠ .lt then
        { it with savedKey := .ofInternalKey ⟨ub, kMaxSequenceNumber, kValueTypeForSeek⟩ }
      else it
    | none => it
  let it := { it with iter := it.iter.seekForPrev it.savedKey.getInternalKey,
                      rangeDelAgg := it.rangeDelAgg.invalidateTombstoneMapPositions }
  if it.iter.valid then
    let it := { it.setPrefixStartKey target with direction := .reverse, savedValue := [] }
    (it.prevInternal fuel).map fun it => if it.valid then it else { it with prefixStartKey := [] }
  else some { it with valid := false }

/-- `SeekToFirst()`. -/
def seekToFirst (fuel : Nat) (it : DBIter) : Option DBIter :=
  match it.cfg.iterateLowerBound with
  | some lb => it.seek fuel lb
  | none =>
    let it := if it.prefixSeek then { it with maxSkip := 2 ^ 64 - 1 } else it
    let it := { it with status := .ok, direction := .forward, numInternalKeysSkipped := 0,
                        savedValue := [], iter := it.iter.seekToFirst,
                        rangeDelAgg := it.rangeDelAgg.invalidateTombstoneMapPositions }
    if it.iter.valid then
      let it := { it with savedKey := .ofUserKey (extractUserKey it.iter.key) }
      (it.findNextUserEntry fuel false false).map fun (_, it) =>
        if it.valid then it.setPrefixStartKey it.savedUserKey else it
    else some { it with valid := false }

/-- `SeekToLast()`. -/
def seekToLast (fuel : Nat) (it : DBIter) : Option DBIter :=
  match it.cfg.iterateUpperBound with
  | some ub =>
    -- the last key strictly below the upper bound
    (it.seekForPrev fuel ub).bind fun it =>
      if it.valid ∧ ub = it.key then it.prevInternal fuel else some it
  | none =>
    let it := if it.prefixSeek then { it with maxSkip := 2 ^ 64 - 1 } else it
    let it := { it with status := .ok, direction := .reverse, numInternalKeysSkipped := 0,
                        savedValue := [], iter := it.iter.seekToLast,
                        rangeDelAgg := it.rangeDelAgg.invalidateTombstoneMapPositions }
    (it.prevInternal fuel).map fun it =>
      if it.valid then it.setPrefixStartKey it.savedUserKey else it

end DBIter

/-! ## The snapshot view as a cursor -/

/-- The user keys of the entries, in their order, each once. -/
def userKeys (entries : List (List UInt8 × List UInt8)) : List (List UInt8) :=
  (entries.filterMap fun e => (parseInternalKey e.1).map (·.userKey)).dedup

/-- The pairs `(k, view_s(k))` of the keys whose view at `s` is present. -/
def snapshotList (op : MergeOperator) (entries : List (List UInt8 × List UInt8)) (s : Nat) :
    List (List UInt8 × List UInt8) :=
  (userKeys entries).filterMap fun k => (snapshotView op entries k s).map ((k, ·))

/-- A cursor over a list of pairs `(key, value)` in ascending key order; a
position past the end is not valid. -/
structure SnapshotCursor where
  view : List (List UInt8 × List UInt8)
  pos : Nat
  deriving DecidableEq, Repr

namespace SnapshotCursor

def valid (c : SnapshotCursor) : Bool := c.pos < c.view.length

def key (c : SnapshotCursor) : List UInt8 := (c.view.getD c.pos ([], [])).1

def value (c : SnapshotCursor) : List UInt8 := (c.view.getD c.pos ([], [])).2

def seekToFirst (c : SnapshotCursor) : SnapshotCursor := { c with pos := 0 }

def seekToLast (c : SnapshotCursor) : SnapshotCursor :=
  { c with pos := if c.view = [] then 0 else c.view.length - 1 }

/-- The first key at or after `t`. -/
def seek (c : SnapshotCursor) (t : List UInt8) : SnapshotCursor :=
  { c with pos := c.view.findIdx fun p => bytewiseCompare p.1 t ≠ .lt }

/-- The last key at or before `t`. -/
def seekForPrev (c : SnapshotCursor) (t : List UInt8) : SnapshotCursor :=
  let n := (c.view.takeWhile fun p => bytewiseCompare p.1 t ≠ .gt).length
  { c with pos := if n = 0 then c.view.length else n - 1 }

def next (c : SnapshotCursor) : SnapshotCursor := { c with pos := c.pos + 1 }

def prev (c : SnapshotCursor) : SnapshotCursor :=
  { c with pos := if c.pos = 0 then c.view.length else c.pos - 1 }

end SnapshotCursor

/-! ## A reseek that comes back to where it started

`FindNextUserEntryInternal` reseeks, while skipping the saved key, to the
internal key `(saved key, 0, kTypeDeletion)`, the smallest one the key can
have. When the internal iterator is at that very entry, the reseek lands on it
again, and with `max_skip_` 0 the next pass reseeks once more. -/

namespace DBIter

theorem findNextUserEntryBody_skips_saved_key (prefixCheck : Bool) (numSkipped : Nat)
    (it : DBIter) (ikey : ParsedInternalKey (List UInt8))
    (hparse : parseInternalKey it.iter.key = some ikey) (huser : ikey.userKey = it.savedUserKey)
    (hupper : it.cfg.iterateUpperBound = none) (hextractor : it.cfg.prefixExtractor = none)
    (hlimit : it.cfg.maxSkippableInternalKeys = 0) :
    findNextUserEntryBody prefixCheck true numSkipped it =
      .skip true (numSkipped + 1) { it with numInternalKeysSkipped := it.numInternalKeysSkipped + 1 } := by
  have hmore : it.tooManyInternalKeysSkipped true =
      (false, { it with numInternalKeysSkipped := it.numInternalKeysSkipped + 1 }) := by
    simp [tooManyInternalKeysSkipped, hlimit]
  simp [findNextUserEntryBody, parseKey, hparse, hupper, outOfPrefix, hextractor, hmore, huser,
    savedUserKey]

/-- A pass that skips: the loop goes on after the reseek or `Next()` if the
internal iterator is still valid. -/
theorem findNextUserEntryInternal_of_skip {prefixCheck skipping skipping' : Bool}
    {numSkipped numSkipped' : Nat} {it it' : DBIter} (fuel : Nat)
    (h : findNextUserEntryBody prefixCheck skipping numSkipped it = .skip skipping' numSkipped' it') :
    findNextUserEntryInternal prefixCheck (fuel + 1) skipping numSkipped it =
      match findNextUserEntryAdvance skipping' numSkipped' it' with
      | (numSkipped, it) =>
        if it.iter.valid then findNextUserEntryInternal prefixCheck fuel skipping' numSkipped it
        else some (true, { it with valid := false }) := by
  rw [findNextUserEntryInternal, h]

theorem findNextUserEntryAdvance_reseek (numSkipped : Nat) (it : DBIter)
    (h : numSkipped > it.maxSkip) :
    findNextUserEntryAdvance true numSkipped it =
      (0, { it with iter := it.iter.seek (it.seekKey 0 .deletion) }) := by
  simp [findNextUserEntryAdvance, h]

/-- The iterator is at the deletion at sequence number 0 of its saved key, with
`max_skip_` 0, sorted entries, and no upper bound, prefix extractor or limit on
skipped keys: a skipping pass of `FindNextUserEntryInternal` reseeks to where it
is. -/
structure AtDeletionZero (it : DBIter) : Prop where
  sorted : it.iter.entries.Pairwise fun a b => internalKeyCompare a.1 b.1 = .lt
  valid : it.iter.valid = true
  key : it.iter.key = appendInternalKey [] ⟨it.savedUserKey, 0, .deletion⟩
  maxSkip : it.maxSkip = 0
  noUpperBound : it.cfg.iterateUpperBound = none
  noPrefix : it.cfg.prefixExtractor = none
  noLimit : it.cfg.maxSkippableInternalKeys = 0

theorem AtDeletionZero.seek_self {it : DBIter} (h : it.AtDeletionZero) :
    it.iter.seek (it.seekKey 0 .deletion) = it.iter := by
  rw [seekKey, ← h.key]
  exact it.iter.seek_key_of_sorted h.sorted h.valid

/-- One skipping pass from `AtDeletionZero` comes back to a state of the same
kind, one more key skipped. -/
theorem AtDeletionZero.step {prefixCheck : Bool} {it : DBIter} (h : it.AtDeletionZero) :
    ∃ it', it'.AtDeletionZero ∧ ∀ fuel, findNextUserEntryInternal prefixCheck (fuel + 1) true 0 it =
      findNextUserEntryInternal prefixCheck fuel true 0 it' := by
  have hparse : parseInternalKey it.iter.key = some ⟨it.savedUserKey, 0, .deletion⟩ := by
    rw [h.key]
    exact parseInternalKey_appendInternalKey _ 0 .deletion (by simp [kMaxSequenceNumber]) rfl
  let skipped := { it with numInternalKeysSkipped := it.numInternalKeysSkipped + 1 }
  have hbody := findNextUserEntryBody_skips_saved_key prefixCheck 0 it _ hparse rfl
    h.noUpperBound h.noPrefix h.noLimit
  have hadvance := findNextUserEntryAdvance_reseek 1 skipped (by simp [skipped, h.maxSkip])
  have hseek : skipped.iter.seek (skipped.seekKey 0 .deletion) = it.iter := h.seek_self
  refine ⟨{ skipped with iter := skipped.iter.seek (skipped.seekKey 0 .deletion) }, ?_, fun fuel => ?_⟩
  · -- the reseek lands on the same entry
    refine ⟨h.sorted, ?_, ?_, h.maxSkip, h.noUpperBound, h.noPrefix, h.noLimit⟩
    · simpa only [hseek] using h.valid
    · show (skipped.iter.seek (skipped.seekKey 0 .deletion)).key =
        appendInternalKey [] ⟨it.savedUserKey, 0, .deletion⟩
      rw [hseek]
      exact h.key
  · rw [findNextUserEntryInternal_of_skip fuel hbody, hadvance]
    simp only
    rw [if_pos (by simpa only [hseek] using h.valid)]

/-- `Next()` from a forward position that is not a merge result: one step of the
internal iterator, then `FindNextUserEntry` skipping the current key. -/
theorem next_of_forward (fuel : Nat) (it : DBIter) (hdir : it.direction = .forward)
    (hmerged : it.currentEntryIsMerged = false) (hvalid : it.iter.valid = true)
    (hnext : it.iter.next.valid = true) :
    it.next fuel = (findNextUserEntryInternal it.cfg.prefixSameAsStart fuel true 0
      { it with numInternalKeysSkipped := 0, iter := it.iter.next, currentEntryIsMerged := false,
                isBlob := false }).map Prod.snd := by
  simp [next, findNextUserEntry, hdir, hmerged, hvalid, hnext]

theorem findNextUserEntryInternal_of_atDeletionZero (prefixCheck : Bool) (it : DBIter)
    (h : it.AtDeletionZero) (fuel : Nat) :
    findNextUserEntryInternal prefixCheck fuel true 0 it = none :=
  Fuel.run_eq_none_of_step (fun fuel it => findNextUserEntryInternal prefixCheck fuel true 0 it)
    AtDeletionZero (fun _ => rfl) (fun _ h => h.step) fuel it h

end DBIter

/-- With `max_sequential_skip_in_iterations` 0, entries `u@5 = v` and `u@0`
deleted, and a snapshot `s ≥ 5`: the snapshot view lists `(u, v)` alone, so
after `SeekToFirst` the cursor is at `(u, v)` and `Next` leaves it invalid. The
iterator's `SeekToFirst` yields `(u, v)` too, but its `Next` never returns. -/
theorem dbIter_next_never_returns_after_deletion_at_zero (op : MergeOperator) (u v : List UInt8)
    (s : Nat) (hs : 5 ≤ s) :
    let entries := [internalEntry u 5 .value v, internalEntry u 0 .deletion []]
    let cursor := (SnapshotCursor.mk (snapshotList op entries s) 0).seekToFirst
    (cursor.valid = true ∧ cursor.key = u ∧ cursor.value = v ∧ cursor.next.valid = false) ∧
      ∀ fuel, ∃ it, (DBIter.create (.ofSnapshot (some op) s) entries 0).seekToFirst (fuel + 1) =
        some it ∧ it.valid = true ∧ it.key = u ∧ it.value = v ∧ ∀ fuel', it.next fuel' = none := by
  intro entries cursor
  have hput := parseInternalKey_appendInternalKey u 5 .value (by simp [kMaxSequenceNumber]) rfl
  have hdel := parseInternalKey_appendInternalKey u 0 .deletion (by simp [kMaxSequenceNumber]) rfl
  -- the snapshot view lists `u` alone, with the value of its `Put`
  have hview : snapshotList op entries s = [(u, v)] := by
    simp [snapshotList, userKeys, snapshotView, entries, internalEntry, hput, hdel, resolveEntries,
      show 5 ≤ s from hs]
  refine ⟨by simp [cursor, hview, SnapshotCursor.seekToFirst, SnapshotCursor.valid,
    SnapshotCursor.key, SnapshotCursor.value, SnapshotCursor.next], fun fuel => ?_⟩
  let it₁ : DBIter := { DBIter.create (.ofSnapshot (some op) s) entries 0 with
    iter := ⟨entries, 0⟩, savedKey := .ofUserKey u, valid := true, numInternalKeysSkipped := 1 }
  have hfirst : (DBIter.create (.ofSnapshot (some op) s) entries 0).seekToFirst (fuel + 1) =
      some it₁ := by
    simp [DBIter.seekToFirst, DBIter.create, DBIterOptions.ofSnapshot, DBIter.prefixSeek,
      RangeDelAggregator.invalidateTombstoneMapPositions, RangeDelAggregator.createForRead,
      ListIterator.seekToFirst, ListIterator.valid, entries, ListIterator.key, internalEntry,
      DBIter.findNextUserEntry, DBIter.findNextUserEntryInternal, DBIter.findNextUserEntryBody,
      DBIter.parseKey, hput, DBIter.outOfPrefix, DBIter.tooManyInternalKeysSkipped,
      DBIter.isVisible, DBIter.savedUserKey, DBIter.findNextUserEntryVisible, DBIter.shouldDelete,
      RangeDelAggregator.shouldDelete, DBIter.setPrefixStartKey, it₁, show 5 ≤ s from hs]
  -- `Next` moves to the deletion, where every pass reseeks
  let it₂ : DBIter := { it₁ with numInternalKeysSkipped := 0, iter := it₁.iter.next,
                                 currentEntryIsMerged := false, isBlob := false }
  have hstuck : it₂.AtDeletionZero := by
    refine ⟨?_, rfl, rfl, rfl, rfl, rfl, rfl⟩
    have hlt := internalKeyCompare_appendInternalKey_of_sequence_gt u .value .deletion
      (show 0 < 5 by omega) (by simp [kMaxSequenceNumber])
    simp [it₂, it₁, entries, internalEntry, ListIterator.next, hlt]
  have hnext : ∀ fuel', it₁.next fuel' = none := by
    intro fuel'
    have hloop := DBIter.findNextUserEntryInternal_of_atDeletionZero false _ hstuck fuel'
    rw [DBIter.next_of_forward fuel' it₁ rfl rfl rfl rfl]
    exact congrArg (Option.map Prod.snd) hloop
  exact ⟨it₁, hfirst, rfl, rfl, rfl, hnext⟩

/-- The entries `a@5 = v` and `a@0` deleted, read at the snapshot 5. -/
theorem dbIter_next_never_returns_sample :
    5 ≤ 5 ∧
      let entries := [internalEntry [97] 5 .value [118], internalEntry [97] 0 .deletion []]
      let cursor :=
        (SnapshotCursor.mk (snapshotList (stringAppendOperator 44) entries 5) 0).seekToFirst
      (cursor.valid = true ∧ cursor.key = [97] ∧ cursor.value = [118] ∧
          cursor.next.valid = false) ∧
        ∀ fuel, ∃ it, (DBIter.create (.ofSnapshot (some (stringAppendOperator 44)) 5) entries 0
          ).seekToFirst (fuel + 1) = some it ∧ it.valid = true ∧ it.key = [97] ∧
            it.value = [118] ∧ ∀ fuel', it.next fuel' = none :=
  ⟨le_refl 5, dbIter_next_never_returns_after_deletion_at_zero (stringAppendOperator 44) [97] [118] 5
    (le_refl 5)⟩

end RocksDB
