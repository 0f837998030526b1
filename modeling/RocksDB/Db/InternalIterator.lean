import Mathlib
import RocksDB.Db.MergeOperator

/-!
# Internal iterators over sorted entries, and what the entries mean

`ListIterator` is an `InternalIterator` over a list of entries `(internal key,
value)` sorted by the internal key order: the iterator that `DBIter` and
`CompactionIterator` read from. `Seek` and `SeekForPrev` position it by
`internalKeyCompare`.

`snapshotView` is what the entries say about a user key at a snapshot: its
entries at or below the snapshot, newest first, resolved as a read resolves
them. It is the specification the iterators above are checked against.

## Design notes

* A position at or past the end is `!Valid()`; `Prev` from the first entry
  leaves the iterator invalid.
* The list never fails, so `status()` is always OK and is left out.
-/

namespace RocksDB

/-- An internal iterator over `entries`, at position `pos`. -/
structure ListIterator where
  entries : List (List UInt8 × List UInt8)
  pos : Nat
  deriving DecidableEq, Repr

namespace ListIterator

def valid (it : ListIterator) : Bool := it.pos < it.entries.length

def key (it : ListIterator) : List UInt8 := (it.entries.getD it.pos ([], [])).1

def value (it : ListIterator) : List UInt8 := (it.entries.getD it.pos ([], [])).2

def next (it : ListIterator) : ListIterator := { it with pos := it.pos + 1 }

def prev (it : ListIterator) : ListIterator :=
  { it with pos := if it.pos = 0 then it.entries.length else it.pos - 1 }

def seekToFirst (it : ListIterator) : ListIterator := { it with pos := 0 }

def seekToLast (it : ListIterator) : ListIterator :=
  { it with pos := if it.entries = [] then 0 else it.entries.length - 1 }

/-- `Seek(target)`: the first entry at or after `target`. -/
def seek (it : ListIterator) (target : List UInt8) : ListIterator :=
  { it with pos := it.entries.findIdx fun e => internalKeyCompare e.1 target ≠ .lt }

/-- `SeekForPrev(target)`: the last entry at or before `target`. -/
def seekForPrev (it : ListIterator) (target : List UInt8) : ListIterator :=
  let n := (it.entries.takeWhile fun e => internalKeyCompare e.1 target ≠ .gt).length
  { it with pos := if n = 0 then it.entries.length else n - 1 }

/-- In entries sorted strictly by the internal key order, a seek to the key of
the current entry stays on it. -/
theorem seek_key_of_sorted (it : ListIterator)
    (hsorted : it.entries.Pairwise fun a b => internalKeyCompare a.1 b.1 = .lt)
    (hvalid : it.valid = true) : it.seek it.key = it := by
  obtain ⟨entries, pos⟩ := it
  dsimp only at hsorted
  have hpos : pos < entries.length := by simpa [valid] using hvalid
  have hkey : key ⟨entries, pos⟩ = entries[pos].1 := by
    simp [key, List.getElem?_eq_getElem hpos]
  -- every entry before the current one is below it
  have hfind : (entries.findIdx fun e => internalKeyCompare e.1 entries[pos].1 ≠ .lt) = pos := by
    rw [List.findIdx_eq hpos]
    refine ⟨by simp, fun j hj => ?_⟩
    have hlt := List.pairwise_iff_getElem.mp hsorted j pos (by omega) hpos hj
    simp [hlt]
  simp only [seek, hkey]
  rw [hfind]

end ListIterator

/-! ## The snapshot view -/

/-- The value of a user key from its entries newest first and the merge operands
collected so far, oldest first (each older operand goes in front): a `Put` ends
the scan with its value, a deletion with nothing, each with the operands merged
in. -/
def resolveEntries (op : MergeOperator) (key : List UInt8) :
    List (ValueType × List UInt8) → List (List UInt8) → Option (List UInt8)
  | [], [] => none
  | [], operands => op.fullMergeV2 key none operands
  | (.value, v) :: _, [] => some v
  | (.value, v) :: _, operands => op.fullMergeV2 key (some v) operands
  | (.deletion, _) :: _, [] => none
  | (.deletion, _) :: _, operands => op.fullMergeV2 key none operands
  | (.singleDeletion, _) :: _, [] => none
  | (.singleDeletion, _) :: _, operands => op.fullMergeV2 key none operands
  | (.merge, v) :: rest, operands => resolveEntries op key rest (v :: operands)
  | _ :: rest, operands => resolveEntries op key rest operands

/-- The value of `key` at snapshot `s` in the entries: its entries with a
sequence number at most `s`, in the list's order, resolved. A failed merge reads
as no value. -/
def snapshotView (op : MergeOperator) (entries : List (List UInt8 × List UInt8))
    (key : List UInt8) (s : Nat) : Option (List UInt8) :=
  resolveEntries op key
    (entries.filterMap fun (ikey, value) =>
      match parseInternalKey ikey with
      | some p => if p.userKey = key ∧ p.sequence ≤ s then some (p.type, value) else none
      | none => none)
    []

/-- The entry of a user key at a sequence number with a type and a value. -/
def internalEntry (userKey : List UInt8) (seq : Nat) (t : ValueType) (value : List UInt8) :
    List UInt8 × List UInt8 :=
  (appendInternalKey [] ⟨userKey, seq, t⟩, value)

end RocksDB
