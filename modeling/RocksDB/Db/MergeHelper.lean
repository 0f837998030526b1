import Mathlib
import RocksDB.Db.InternalIterator
import RocksDB.Db.RangeDelAggregator

/-!
# `db/merge_helper.cc`: `MergeHelper::MergeUntil`

From a merge entry, `mergeUntil` collects the merge operands of its user key,
newest first, until it meets a `Put` or a deletion (merged into one value
then), the next user key, an entry visible to the previous snapshot
(`stop_before`), or the end of the input. Operands the range tombstones cover
are dropped. When the history may go on beyond the input, the operands are
combined with `PartialMergeMulti` and the result is `MergeInProgress`.

The result is the helper's `keys()` and `values()`, oldest first as the source
keeps them, with the input iterator after the last entry it used.

## Design notes

* No compaction filter: every operand is kept unless a tombstone covers it, and
  `has_compaction_filter_skip_until_` stays false. No snapshot checker.
* `keys_` and the operands of `merge_context_` are lists, oldest first; a new
  (older) operand goes to the front of both.
-/

namespace RocksDB

/-- The state of `MergeUntil`: its input, the aggregator it asks, the keys and
operands kept (oldest first) and the first key seen. -/
structure MergeHelper where
  input : ListIterator
  rangeDelAgg : RangeDelAggregator
  keys : List (List UInt8)
  operands : List (List UInt8)
  origIkey : ParsedInternalKey (List UInt8)
  deriving Repr

/-- What `MergeUntil` returns besides the helper's state. -/
inductive MergeStop where
  /-- `return s` from inside the loop. -/
  | done (s : Status)
  /-- the loop ended, `hit_the_next_user_key` as given. -/
  | exhausted (hitTheNextUserKey : Bool)
  deriving DecidableEq, Repr

namespace MergeHelper

/-- `UpdateInternalKey(&key, seq, kTypeValue)` on the newest kept key: the
merged entry takes its place as a `Put`. -/
def mergedKey (h : MergeHelper) : List UInt8 :=
  appendInternalKey [] ⟨h.origIkey.userKey, h.origIkey.sequence, .value⟩

/-- The loop of `MergeUntil` over the input, for at most `fuel` entries. -/
def loop (op : MergeOperator) (stopBefore : Nat) (assertValidInternalKey : Bool) :
    Nat → Bool → MergeHelper → MergeHelper × MergeStop
  | 0, _, h => (h, .exhausted false)
  | fuel + 1, firstKey, h =>
    if !h.input.valid then (h, .exhausted false)
    else
      match parseInternalKey h.input.key with
      | none =>
        -- stop at a corrupted key
        if assertValidInternalKey then
          (h, .done (.corruption "Corrupted internal key not expected."))
        else (h, .exhausted false)
      | some ikey =>
        if !firstKey ∧ ikey.userKey ≠ h.origIkey.userKey then
          -- hit a different user key
          (h, .exhausted true)
        else if !firstKey ∧ stopBefore > 0 ∧ ikey.sequence ≤ stopBefore then
          -- an entry the previous snapshot sees: can't touch it
          (h, .exhausted false)
        else if ikey.type ≠ .merge then
          -- a put or a deletion: merged with the operands, if any
          if h.keys = [] then (h, .done .ok)
          else
            let val := if ikey.type = .value then some h.input.value else none
            match timedFullMerge op ikey.userKey val h.operands with
            | .ok result =>
              ({ h with keys := [h.mergedKey], operands := [result], input := h.input.next },
                .done .ok)
            | .error s => ({ h with input := h.input.next }, .done s)
        else
          -- a merge operand, kept unless a range tombstone covers it
          let (covered, agg) := h.rangeDelAgg.shouldDelete ikey .forwardTraversal
          let h := { h with rangeDelAgg := agg }
          let h := if covered then h
            else
              let h := { h with keys := h.input.key :: h.keys,
                                operands := h.input.value :: h.operands }
              -- the first operand kept anchors the merged key
              if h.keys.length = 1 then { h with origIkey := ikey } else h
          loop op stopBefore assertValidInternalKey fuel false { h with input := h.input.next }

/-- `MergeUntil(iter, range_del_agg, stop_before, at_bottom)`: the helper's
state after the call and the status. -/
def mergeUntil (op : MergeOperator) (input : ListIterator) (rangeDelAgg : RangeDelAggregator)
    (stopBefore : Nat) (atBottom assertValidInternalKey : Bool) : MergeHelper × Status :=
  let origIkey := (parseInternalKey input.key).getD ⟨[], 0, .merge⟩
  let h : MergeHelper := ⟨input, rangeDelAgg, [], [], origIkey⟩
  match loop op stopBefore assertValidInternalKey (input.entries.length + 1) true h with
  | (h, .done s) => (h, s)
  | (h, .exhausted hitTheNextUserKey) =>
    -- all operands filtered out
    if h.operands = [] then (h, .ok)
    -- the whole history of the key was seen: merge without a base value
    else if hitTheNextUserKey ∧ atBottom then
      match timedFullMerge op h.origIkey.userKey none h.operands with
      | .ok result => ({ h with keys := [h.mergedKey], operands := [result] }, .ok)
      | .error s => (h, s)
    else
      -- combine the operands into one if the operator can
      if h.operands.length ≥ 2 ∨ (op.allowSingleOperand ∧ h.operands.length = 1) then
        match op.partialMergeMulti h.origIkey.userKey h.operands with
        | some result =>
          ({ h with operands := [result], keys := [h.keys.getLastD []] }, .mergeInProgress)
        | none => (h, .mergeInProgress)
      else (h, .mergeInProgress)

/-- The entries `MergeOutputIterator` yields: `keys()` and `values()` from the
back, newest first. -/
def output (h : MergeHelper) : List (List UInt8 × List UInt8) :=
  (h.keys.zip h.operands).reverse

end MergeHelper

end RocksDB
