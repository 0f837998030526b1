import Mathlib
import RocksDB.Lib.SortedMultimap
import RocksDB.Db.DbFormat

/-!
# `db/range_del_aggregator.cc`: range tombstones by snapshot stripe

A `RangeDelAggregator` files each range tombstone `[start, end)` at sequence
number `seq` under the snapshot stripe of `seq`, and answers whether a key is
covered by a tombstone of its own stripe (`RangeDelAggregator.shouldDelete`,
`ShouldDelete`).

Without collapsing, a stripe is a multimap from start key to tombstone, scanned
from the beginning (`kFullScan`). With `collapse_deletions`, `addTombstone`
(`AddTombstone`) keeps a stripe as a multimap from points to sequence numbers
meaning "from this point up to the next one, keys below this sequence number
are covered": each new interval is merged into the points, with a point of
sequence number 0 at its end. Lookups then find the point at or before the key,
by binary search or by moving a remembered position forwards or backwards.

## Design notes

* The user comparator is the bytewise one; keys are byte lists.
* A `std::multimap` is a sorted list of entries (`SortedMultimap`), an iterator a
  position in it. The position a stripe remembers is an `Option`, `none` for
  `end()`: unlike a position, `end()` stays `end()` when entries are inserted.
  In collapsed mode the values are `RangeTombstone(Slice(), Slice(), seq)`, as
  in the source.
* The stripe map is a `std::map` from snapshot to stripe, a list without
  repeated snapshots in ascending order.
* The pinned iterators and the added-file set only keep memory alive and are
  left out; so are `AddToBuilder` and `IsRangeOverlapped`.
* The merge loop of `AddTombstone` runs with fuel: each iteration moves past a
  new point or an existing one, and inserts at most one point.
-/

namespace RocksDB

/-- `RangeTombstone`. -/
structure RangeTombstone where
  startKey : List UInt8
  endKey : List UInt8
  seq : Nat
  deriving DecidableEq, Repr

/-- `RangeTombstone(parsed_key, value)`: the start key and sequence number of
the internal key, the end key in the value. -/
def RangeTombstone.ofParsed (parsed : ParsedInternalKey (List UInt8)) (value : List UInt8) :
    RangeTombstone :=
  ⟨parsed.userKey, value, parsed.sequence⟩

/-- `TombstoneMap`: start key (or point) to tombstone. -/
abbrev TombstoneMap := List (List UInt8 × RangeTombstone)

/-- `PositionalTombstoneMap`: a stripe and the position `ShouldDelete` last saw,
`none` for `end()`, which stays `end()` when entries are inserted. -/
structure PositionalTombstoneMap where
  rawMap : TombstoneMap
  iter : Option Nat
  deriving DecidableEq, Repr

/-- `PositionalTombstoneMap(TombstoneMap(...))`: an empty stripe, positioned at
its end. -/
def PositionalTombstoneMap.empty : PositionalTombstoneMap := ⟨[], none⟩

/-- `RangePositioningMode`. -/
inductive RangePositioningMode where
  | fullScan
  | forwardTraversal
  | backwardTraversal
  | binarySearch
  deriving DecidableEq, Repr

/-- `RangeDelAggregator`: the stripes, once `InitRep` has run. -/
structure RangeDelAggregator where
  upperBound : Nat
  collapseDeletions : Bool
  rep : Option (List (Nat × PositionalTombstoneMap))
  deriving DecidableEq, Repr

namespace RangeDelAggregator

/-- `InitRep(snapshots)`: a stripe for each snapshot and the catch-all stripe
`kMaxSequenceNumber`. -/
def initRep (snapshots : List Nat) : List (Nat × PositionalTombstoneMap) :=
  (snapshots ++ [kMaxSequenceNumber]).foldl
    (fun stripes snapshot => SortedMultimap.emplaceUnique compare stripes snapshot .empty) []

/-- `RangeDelAggregator(icmp, snapshots, collapse_deletions)`. -/
def create (snapshots : List Nat) (collapseDeletions : Bool) : RangeDelAggregator :=
  ⟨kMaxSequenceNumber, collapseDeletions, some (initRep snapshots)⟩

/-- `RangeDelAggregator(icmp, upper_bound, collapse_deletions)`: the stripes are
made by the first `AddTombstones`. -/
def createForRead (upperBound : Nat) (collapseDeletions : Bool) : RangeDelAggregator :=
  ⟨upperBound, collapseDeletions, none⟩

/-- `GetPositionalTombstoneMap(seq)`: the position of the stripe of `seq`, the
first snapshot at or above it. -/
def stripeIndex (stripes : List (Nat × PositionalTombstoneMap)) (seq : Nat) : Nat :=
  if seq > 0 then SortedMultimap.upperBound compare stripes (seq - 1) else 0

end RangeDelAggregator

namespace TombstoneMap

/-- The key and the sequence number at position `i`. -/
def keyAt (m : TombstoneMap) (i : Nat) : List UInt8 := (m.getD i ([], ⟨[], [], 0⟩)).1

def seqAt (m : TombstoneMap) (i : Nat) : Nat := (m.getD i ([], ⟨[], [], 0⟩)).2.seq

/-- `tombstone_map_iter->second.seq_ = seq`. -/
def setSeq (m : TombstoneMap) (i seq : Nat) : TombstoneMap :=
  m.modify i fun p => (p.1, { p.2 with seq })

/-- `emplace(key, RangeTombstone(Slice(), Slice(), seq))`. -/
def emplacePoint (m : TombstoneMap) (key : List UInt8) (seq : Nat) : TombstoneMap × Nat :=
  SortedMultimap.emplace bytewiseCompare m key ⟨[], [], seq⟩

/-- The state of the merge loop of `AddTombstone`: the map, the positions in
the map and in the new points, and `untermed_seq`. -/
structure MergeState where
  map : TombstoneMap
  tombstoneMapIter : Nat
  newRangeDelsIter : Nat
  untermedSeq : Nat
  deriving DecidableEq, Repr

/-- One iteration of the merge loop of `AddTombstone` against the new points
`newRangeDels`. -/
def mergeStep (newRangeDels : List RangeTombstone) (st : MergeState) : MergeState :=
  let m := st.map
  let i := st.tombstoneMapIter
  let new := newRangeDels.getD st.newRangeDelsIter ⟨[], [], 0⟩
  let tombstoneMapIterEnd := if i + 1 < m.length then some (m.keyAt (i + 1)) else none
  let newRangeDelsIterEnd := (newRangeDels[st.newRangeDelsIter + 1]?).map RangeTombstone.startKey
  let newToOldStartCmp := bytewiseCompare new.startKey (m.keyAt i)
  -- a missing end extends infinitely rightwards
  let newToOldEndCmp : Ordering :=
    match newRangeDelsIterEnd, tombstoneMapIterEnd with
    | none, none => .eq
    | none, some _ => .gt
    | some _, none => .lt
    | some a, some b => bytewiseCompare a b
  let (m, i, untermedSeq) :=
    match newToOldStartCmp with
    | .lt =>
      -- the existing left endpoint comes after: raise or delete it if covered
      if m.seqAt i < new.seq then
        if i ≠ 0 ∧ m.seqAt (i - 1) = new.seq then (m.eraseIdx i, i - 1, m.seqAt i)
        else (m.setSeq i new.seq, i, m.seqAt i)
      else (m, i, st.untermedSeq)
    | .gt =>
      if st.untermedSeq ≠ kMaxSequenceNumber ∨ m.seqAt i < new.seq then
        let seq := m.seqAt i
        let (m, i) := m.emplacePoint new.startKey
          (max (if st.untermedSeq = kMaxSequenceNumber then 0 else st.untermedSeq) new.seq)
        (m, i, seq)
      else (m, i, st.untermedSeq)
    | .eq =>
      -- the left endpoints coincide: raise the existing one if needed
      if m.seqAt i < new.seq then (m.setSeq i new.seq, i, m.seqAt i)
      else (m, i, st.untermedSeq)
  -- advance whichever ends earlier, or both
  match newToOldEndCmp with
  | .lt => ⟨m, i, st.newRangeDelsIter + 1, untermedSeq⟩
  | .gt => ⟨m, i + 1, st.newRangeDelsIter, kMaxSequenceNumber⟩
  | .eq => ⟨m, i + 1, st.newRangeDelsIter + 1, kMaxSequenceNumber⟩

/-- The merge loop, for at most `fuel` iterations. -/
def mergeLoop (newRangeDels : List RangeTombstone) : Nat → MergeState → MergeState
  | 0, st => st
  | fuel + 1, st =>
    if st.tombstoneMapIter < st.map.length ∧ st.newRangeDelsIter < newRangeDels.length then
      mergeLoop newRangeDels fuel (mergeStep newRangeDels st)
    else st

/-- `emplace` of the new points from position `j` on. -/
def emplaceRest (newRangeDels : List RangeTombstone) (m : TombstoneMap) (j : Nat) :
    TombstoneMap :=
  (newRangeDels.drop j).foldl (fun m t => (m.emplacePoint t.startKey t.seq).1) m

/-- `AddTombstone` in collapsed mode: the interval and a point of sequence
number 0 at its end, merged into the points. -/
def addCollapsed (m : TombstoneMap) (tombstone : RangeTombstone) : TombstoneMap :=
  let newRangeDels := [tombstone, ⟨tombstone.endKey, [], 0⟩]
  match m with
  -- an empty map: insert every new point
  | [] => emplaceRest newRangeDels m 0
  | (tombstoneMapBegin, _) :: _ =>
    -- the new points before the first existing one
    let before := (newRangeDels.takeWhile fun t =>
      bytewiseCompare t.startKey tombstoneMapBegin = .lt).length
    let m := emplaceRest (newRangeDels.take before) m 0
    if before = newRangeDels.length then m
    else
      -- the loop above advances one too far
      let j := before - 1
      let start := (newRangeDels.getD j ⟨[], [], 0⟩).startKey
      let i := SortedMultimap.upperBound bytewiseCompare m start - 1
      let st := mergeLoop newRangeDels (2 * (m.length + newRangeDels.length) + 2)
        ⟨m, i, j, kMaxSequenceNumber⟩
      emplaceRest newRangeDels st.map st.newRangeDelsIter

end TombstoneMap

namespace RangeDelAggregator

/-- `AddTombstone`: the tombstone joins the stripe of its sequence number. -/
def addTombstone (agg : RangeDelAggregator) (stripes : List (Nat × PositionalTombstoneMap))
    (tombstone : RangeTombstone) : List (Nat × PositionalTombstoneMap) :=
  let k := stripeIndex stripes tombstone.seq
  stripes.modify k fun (snapshot, ptm) =>
    let rawMap := if agg.collapseDeletions then ptm.rawMap.addCollapsed tombstone
      else (SortedMultimap.emplace bytewiseCompare ptm.rawMap tombstone.startKey tombstone).1
    (snapshot, { ptm with rawMap })

/-- `InvalidateTombstoneMapPositions`: every stripe positioned at its end. -/
def invalidate (stripes : List (Nat × PositionalTombstoneMap)) :
    List (Nat × PositionalTombstoneMap) :=
  stripes.map fun (snapshot, ptm) => (snapshot, { ptm with iter := none })

/-- The loop of `AddTombstones` over the range-deletion entries of the input. -/
def addTombstonesLoop (agg : RangeDelAggregator) (stripes : List (Nat × PositionalTombstoneMap)) :
    List (List UInt8 × List UInt8) → List (Nat × PositionalTombstoneMap) × Status
  | [] => (stripes, .ok)
  | (key, value) :: rest =>
    match parseInternalKey key with
    | none => (stripes, .corruption "Unable to parse range tombstone InternalKey")
    | some parsed =>
      addTombstonesLoop agg (agg.addTombstone stripes (.ofParsed parsed value)) rest

/-- `AddTombstones(input)` on the entries `(key, value)` of the input iterator. -/
def addTombstones (agg : RangeDelAggregator) (input : List (List UInt8 × List UInt8)) :
    RangeDelAggregator × Status :=
  match input with
  | [] => (agg, .ok)
  | _ :: _ =>
    let stripes := match agg.rep with
      | none => initRep [agg.upperBound]
      | some stripes => invalidate stripes
    let (stripes, s) := agg.addTombstonesLoop stripes input
    ({ agg with rep := some stripes }, s)

/-- `InvalidateTombstoneMapPositions`: after a seek of the iterator that asks,
every stripe needs a reseek. -/
def invalidateTombstoneMapPositions (agg : RangeDelAggregator) : RangeDelAggregator :=
  match agg.rep with
  | none => agg
  | some stripes => { agg with rep := some (invalidate stripes) }

end RangeDelAggregator

namespace PositionalTombstoneMap

/-- The scan of `kFullScan` from position `i`, for at most `fuel` entries. -/
def fullScan (m : TombstoneMap) (u : List UInt8) (s : Nat) : Nat → Nat → Bool × Nat
  | 0, i => (false, i)
  | fuel + 1, i =>
    if i < m.length then
      let tombstone := (m.getD i ([], ⟨[], [], 0⟩)).2
      if bytewiseCompare u tombstone.startKey = .lt then (false, i)
      else if s < tombstone.seq ∧ bytewiseCompare u tombstone.endKey = .lt then (true, i)
      else fullScan m u s fuel (i + 1)
    else (false, i)

/-- The forward moves of `kForwardTraversal`: on while the next point is not
above the key. -/
def forward (m : TombstoneMap) (u : List UInt8) : Nat → Nat → Nat
  | 0, i => i
  | fuel + 1, i =>
    if i + 1 < m.length ∧ bytewiseCompare (m.keyAt (i + 1)) u ≠ .gt then forward m u fuel (i + 1)
    else i

/-- The backward moves of `kBackwardTraversal`: back while the point is above
the key. -/
def backward (m : TombstoneMap) (u : List UInt8) : Nat → Nat → Nat
  | 0, i => i
  | fuel + 1, i =>
    if i ≠ 0 ∧ bytewiseCompare u (m.keyAt i) = .lt then backward m u fuel (i - 1) else i

/-- `ShouldDeleteImpl` on one stripe: the answer and the new position. -/
def shouldDelete (ptm : PositionalTombstoneMap) (parsed : ParsedInternalKey (List UInt8))
    (mode : RangePositioningMode) : Bool × PositionalTombstoneMap :=
  let m := ptm.rawMap
  let u := parsed.userKey
  if m.isEmpty then (false, ptm)
  else
    -- an invalidated position needs a reseek
    let mode := if ptm.iter = none ∧
        (mode = .forwardTraversal ∨ mode = .backwardTraversal) then .binarySearch else mode
    let iter := ptm.iter.getD m.length
    let covered := fun i => (decide (parsed.sequence < m.seqAt i), { ptm with iter := some i })
    match mode with
    | .fullScan =>
      let (found, i) := fullScan m u parsed.sequence m.length 0
      (found, { ptm with iter := if i < m.length then some i else none })
    | .forwardTraversal =>
      if iter = 0 ∧ bytewiseCompare u (m.keyAt 0) = .lt then (false, ptm)
      else covered (forward m u m.length iter)
    | .backwardTraversal =>
      let i := backward m u m.length iter
      if i = 0 ∧ bytewiseCompare u (m.keyAt 0) = .lt then (false, { ptm with iter := some i })
      else covered i
    | .binarySearch =>
      let i := SortedMultimap.upperBound bytewiseCompare m u
      -- before the start of the deletion intervals
      if i = 0 then (false, { ptm with iter := some i })
      else covered (i - 1)

end PositionalTombstoneMap

namespace RangeDelAggregator

/-- `ShouldDelete(parsed, mode)`: whether a tombstone of the key's stripe covers
it, and the aggregator with that stripe's new position. -/
def shouldDelete (agg : RangeDelAggregator) (parsed : ParsedInternalKey (List UInt8))
    (mode : RangePositioningMode) : Bool × RangeDelAggregator :=
  match agg.rep with
  | none => (false, agg)
  | some stripes =>
    let k := stripeIndex stripes parsed.sequence
    let (snapshot, ptm) := stripes.getD k (0, .empty)
    let (covered, ptm) := ptm.shouldDelete parsed mode
    (covered, { agg with rep := some (stripes.set k (snapshot, ptm)) })

end RangeDelAggregator

/-! ## The meaning of the tombstones -/

/-- The stripe of a sequence number: the first snapshot at or above it, or
`kMaxSequenceNumber`. -/
def stripeOf (snapshots : List Nat) (seq : Nat) : Nat :=
  ((snapshots.filter fun snapshot => seq ≤ snapshot).head?).getD kMaxSequenceNumber

/-- A key at sequence number `s` is covered by the tombstones when one of its
stripe has `start ≤ u < end` and a sequence number above `s`. -/
def coveredByTombstones (snapshots : List Nat) (tombstones : List RangeTombstone)
    (u : List UInt8) (s : Nat) : Bool :=
  tombstones.any fun t =>
    stripeOf snapshots t.seq = stripeOf snapshots s ∧ bytewiseCompare t.startKey u ≠ .gt ∧
      bytewiseCompare u t.endKey = .lt ∧ s < t.seq

/-- The range-deletion entry of a tombstone: its start key and sequence number
as an internal key, its end key as the value. -/
def RangeTombstone.serialize (t : RangeTombstone) : List UInt8 × List UInt8 :=
  (appendInternalKey [] ⟨t.startKey, t.seq, .rangeDeletion⟩, t.endKey)

/-! ## An empty tombstone inside a collapsed interval -/

namespace TombstoneMap

/-- Into an empty stripe, a tombstone `[start, end)` goes in as its two points. -/
theorem addCollapsed_nil (t : RangeTombstone) (h : bytewiseCompare t.endKey t.startKey ≠ .lt) :
    addCollapsed [] t = [(t.startKey, ⟨[], [], t.seq⟩), (t.endKey, ⟨[], [], 0⟩)] := by
  simp [addCollapsed, emplaceRest, emplacePoint, SortedMultimap.emplace,
    SortedMultimap.upperBound_cons_of_ne bytewiseCompare h]

/-- An empty tombstone `[b, b)` at `s₂` inside the points of `[a, c)` at a lower
`s₁`: the merge raises `b` to `s₂` and never lowers it again, since its end
point coincides with the point it has just inserted. -/
theorem addCollapsed_empty_inside (a b c : List UInt8) (s₁ s₂ : Nat)
    (hab : bytewiseCompare a b = .lt) (hbc : bytewiseCompare b c = .lt) (hs : s₁ < s₂) :
    addCollapsed [(a, ⟨[], [], s₁⟩), (c, ⟨[], [], 0⟩)] ⟨b, b, s₂⟩ =
      [(a, ⟨[], [], s₁⟩), (b, ⟨[], [], s₂⟩), (c, ⟨[], [], 0⟩)] := by
  have hba : bytewiseCompare b a = .gt := by rw [bytewiseCompare_swap, hab]; rfl
  simp [addCollapsed, hba, SortedMultimap.upperBound, List.findIdx_cons, hbc, mergeLoop,
    mergeStep, keyAt, seqAt, hs, emplacePoint, SortedMultimap.emplace, emplaceRest]

end TombstoneMap

namespace RangeDelAggregator

theorem initRep_nil : initRep [] = [(kMaxSequenceNumber, .empty)] := by
  simp [initRep, SortedMultimap.emplaceUnique, SortedMultimap.emplace]

/-- With no snapshots every sequence number falls in the catch-all stripe. -/
theorem stripeIndex_catchAll (p : PositionalTombstoneMap) {seq : Nat}
    (hseq : seq ≤ kMaxSequenceNumber) : stripeIndex [(kMaxSequenceNumber, p)] seq = 0 := by
  by_cases h : seq > 0
  · have hlt : compare (seq - 1) kMaxSequenceNumber = .lt := compare_lt_iff_lt.mpr (by omega)
    simp [stripeIndex, h, SortedMultimap.upperBound_cons_of_lt compare hlt]
  · simp [stripeIndex, h]

end RangeDelAggregator

theorem rangeDelAggregator_collapsed_deletes_under_empty_tombstone (a b c : List UInt8)
    (s₁ s₂ s : Nat) (hab : bytewiseCompare a b = .lt) (hbc : bytewiseCompare b c = .lt)
    (hs₁ : s₁ ≤ s) (hs₂ : s < s₂) (hmax : s₂ ≤ kMaxSequenceNumber) :
    (((RangeDelAggregator.create [] true).addTombstones
        ([⟨a, c, s₁⟩, ⟨b, b, s₂⟩].map RangeTombstone.serialize)).1.shouldDelete
        ⟨b, s, .value⟩ .binarySearch).1 = true ∧
      (((RangeDelAggregator.create [] false).addTombstones
        ([⟨a, c, s₁⟩, ⟨b, b, s₂⟩].map RangeTombstone.serialize)).1.shouldDelete
        ⟨b, s, .value⟩ .fullScan).1 = false ∧
      coveredByTombstones [] [⟨a, c, s₁⟩, ⟨b, b, s₂⟩] b s = false := by
  have hba : bytewiseCompare b a = .gt := by rw [bytewiseCompare_swap, hab]; rfl
  have hca : bytewiseCompare c a = .gt := by
    rw [bytewiseCompare_swap, bytewiseCompare_trans hab hbc]; rfl
  have hs₁max : s₁ ≤ kMaxSequenceNumber := by omega
  have hsmax : s ≤ kMaxSequenceNumber := by omega
  -- both range-deletion entries parse back
  have hparse₁ := parseInternalKey_appendInternalKey a s₁ .rangeDeletion hs₁max rfl
  have hparse₂ := parseInternalKey_appendInternalKey b s₂ .rangeDeletion hmax rfl
  have hstripe := fun p => RangeDelAggregator.stripeIndex_catchAll p hsmax
  have hstripe₁ := fun p => RangeDelAggregator.stripeIndex_catchAll p hs₁max
  have hstripe₂ := fun p => RangeDelAggregator.stripeIndex_catchAll p hmax
  -- the collapsed stripe: `[b, c)` covered below `s₂`
  have hcollapsed : ((RangeDelAggregator.create [] true).addTombstones
      ([⟨a, c, s₁⟩, ⟨b, b, s₂⟩].map RangeTombstone.serialize)).1.rep =
      some [(kMaxSequenceNumber,
        ⟨[(a, ⟨[], [], s₁⟩), (b, ⟨[], [], s₂⟩), (c, ⟨[], [], 0⟩)], none⟩)] := by
    have hend : bytewiseCompare c a ≠ .lt := by rw [hca]; decide
    simp [RangeDelAggregator.addTombstones, RangeDelAggregator.addTombstonesLoop,
      RangeTombstone.serialize, hparse₁, hparse₂, RangeDelAggregator.create,
      RangeDelAggregator.initRep_nil, RangeDelAggregator.invalidate,
      RangeDelAggregator.addTombstone, hstripe₁, hstripe₂, RangeTombstone.ofParsed,
      PositionalTombstoneMap.empty,
      TombstoneMap.addCollapsed_nil ⟨a, c, s₁⟩ hend,
      TombstoneMap.addCollapsed_empty_inside a b c s₁ s₂ hab hbc (by omega)]
  -- the plain stripe: both tombstones by their start keys
  have hplain : ((RangeDelAggregator.create [] false).addTombstones
      ([⟨a, c, s₁⟩, ⟨b, b, s₂⟩].map RangeTombstone.serialize)).1.rep =
      some [(kMaxSequenceNumber, ⟨[(a, ⟨a, c, s₁⟩), (b, ⟨b, b, s₂⟩)], none⟩)] := by
    simp [RangeDelAggregator.addTombstones, RangeDelAggregator.addTombstonesLoop,
      RangeTombstone.serialize, hparse₁, hparse₂, RangeDelAggregator.create,
      RangeDelAggregator.initRep_nil, RangeDelAggregator.invalidate,
      RangeDelAggregator.addTombstone, hstripe₁, hstripe₂, RangeTombstone.ofParsed,
      PositionalTombstoneMap.empty, SortedMultimap.emplace, SortedMultimap.upperBound,
      List.findIdx_cons, hba]
  refine ⟨?_, ?_, ?_⟩
  · simp only [RangeDelAggregator.shouldDelete, hcollapsed]
    simp [hstripe, PositionalTombstoneMap.shouldDelete, SortedMultimap.upperBound, List.findIdx_cons, hba,
      hbc, TombstoneMap.seqAt, hs₂]
  · simp only [RangeDelAggregator.shouldDelete, hplain]
    simp [hstripe, PositionalTombstoneMap.shouldDelete, PositionalTombstoneMap.fullScan, hba,
      Nat.not_lt.mpr hs₁]
  · simp [coveredByTombstones, Nat.not_lt.mpr hs₁]

/-- `[a, c)` at 5 and the empty `[b, b)` at 10: the collapsed aggregator deletes
`b` at 7, which no tombstone covers. -/
theorem rangeDelAggregator_empty_tombstone_sample :
    bytewiseCompare [97] [98] = .lt ∧ bytewiseCompare [98] [99] = .lt ∧ 5 ≤ 7 ∧ 7 < 10 ∧
      10 ≤ kMaxSequenceNumber ∧
      (((RangeDelAggregator.create [] true).addTombstones
          ([⟨[97], [99], 5⟩, ⟨[98], [98], 10⟩].map RangeTombstone.serialize)).1.shouldDelete
          ⟨[98], 7, .value⟩ .binarySearch).1 = true ∧
        (((RangeDelAggregator.create [] false).addTombstones
          ([⟨[97], [99], 5⟩, ⟨[98], [98], 10⟩].map RangeTombstone.serialize)).1.shouldDelete
          ⟨[98], 7, .value⟩ .fullScan).1 = false ∧
        coveredByTombstones [] [⟨[97], [99], 5⟩, ⟨[98], [98], 10⟩] [98] 7 = false :=
  ⟨by decide, by decide, by decide, by decide, by decide,
    rangeDelAggregator_collapsed_deletes_under_empty_tombstone [97] [98] [99] 5 10 7
      (by decide) (by decide) (by decide) (by decide) (by decide)⟩

end RocksDB
