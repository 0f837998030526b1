import Mathlib
import RocksDB.Db.DbFormat

/-!
# `MergeOperator` and `MergeHelper::TimedFullMerge`

A merge operator combines the operands of a key, oldest first, with the value
they apply to. `MergeOperator.associative` is `AssociativeMergeOperator`, whose
`FullMergeV2` and `PartialMergeMulti` apply a two-argument `Merge` operand by
operand; `stringAppendOperator` is the string-append operator of
`utilities/merge_operators`. `timedFullMerge` is `MergeHelper::TimedFullMerge`.

## Design notes

* A merge that fails is `none`; `TimedFullMerge` turns it into its corruption
  status.
* `FullMergeV2` may answer with one of its operands instead of a new string; the
  model returns the bytes in both cases, which is what callers read.
* Operand lists are the `std::vector<Slice>` of `MergeContext::GetOperands`,
  oldest first.
-/

namespace RocksDB

/-- `MergeOperator`: `FullMergeV2(key, existing_value, operands)`,
`PartialMergeMulti(key, operands)` and `AllowSingleOperand()`. -/
structure MergeOperator where
  fullMergeV2 : List UInt8 → Option (List UInt8) → List (List UInt8) → Option (List UInt8)
  partialMergeMulti : List UInt8 → List (List UInt8) → Option (List UInt8)
  allowSingleOperand : Bool

namespace MergeOperator

/-- `AssociativeMergeOperator` from its `Merge(key, existing_value, value)`:
each operand merged into the value so far; `PartialMerge` is `Merge` of the
left operand with the right one. -/
def associative (merge : List UInt8 → Option (List UInt8) → List UInt8 → Option (List UInt8)) :
    MergeOperator where
  fullMergeV2 key existing operands :=
    (operands.foldlM (fun acc op => (merge key acc op).map some) existing).join
  partialMergeMulti key operands :=
    match operands with
    | [] => none
    | first :: rest => rest.foldlM (fun acc op => merge key (some acc) op) first
  allowSingleOperand := false

end MergeOperator

/-- `StringAppendOperator(delim)`: the operands joined by `delim`, after the
existing value if there is one. -/
def stringAppendOperator (delim : UInt8) : MergeOperator :=
  .associative fun _ existing value =>
    match existing with
    | none => some value
    | some e => some (e ++ [delim] ++ value)

/-- `TimedFullMerge(merge_operator, key, value, operands, ...)`: the value itself
when there are no operands. -/
def timedFullMerge (op : MergeOperator) (key : List UInt8) (value : Option (List UInt8))
    (operands : List (List UInt8)) : Except Status (List UInt8) :=
  if operands = [] then .ok (value.getD [])
  else
    match op.fullMergeV2 key value operands with
    | some result => .ok result
    | none => .error (.corruption "Error: Could not perform merge.")

end RocksDB
