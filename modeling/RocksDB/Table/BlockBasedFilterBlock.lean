import Mathlib
import RocksDB.Util.Bloom

/-!
# The filter block of the block-based format (`table/block_based_filter_block.cc`)

The builder keeps one filter for every `kFilterBase` (2 KiB) of data-block
offsets. `StartBlock(o)` closes filters until the one of index `o / kFilterBase`
is the next to be generated; `Add` collects the key (with whole-key filtering)
and its prefix (with a prefix extractor, not repeating the previous prefix) for
that filter. `Finish` appends the array of the filters' offsets, the offset of
that array and `kFilterBaseLg`. The reader finds filter `o >> base_lg` between
two adjacent words of the offset array, the last one being the array's own
offset.

## Main results

* `blockBasedFilterBlock_no_false_negatives`: for a policy without false
  negatives and non-decreasing block offsets, the reader matches every key and
  prefix added after `StartBlock(o)` at `o`, when the filter block is shorter
  than `2 ^ 32` bytes.
* `blockBasedFilterBlock_misses_key_past_two_pow_32`: a filter block of
  `2 ^ 32` bytes of filter data stores its offsets modulo `2 ^ 32` and the
  reader misses a key it holds.

## Design notes

* `FilterPolicy::CreateFilter` appends to its `dst`; the model's policy gives
  the bytes appended.
* `entries_` and `start_` together hold the keys of the next filter; the model
  keeps the list of those keys, and `prevPrefix` for the slice
  `prev_prefix_start_`/`prev_prefix_size_` points at in `entries_`.
* `base_lg_` is read as an unsigned byte.
-/

namespace RocksDB

/-- A `FilterPolicy`: `CreateFilter`, as the bytes it appends for its keys, and
`KeyMayMatch(key, filter)`. -/
structure FilterPolicy where
  createFilter : List (List UInt8) → List UInt8
  keyMayMatch : List UInt8 → List UInt8 → Bool

namespace FilterPolicy

/-- The contract of a filter policy: a filter matches every key it was built
from. -/
def NoFalseNegatives (policy : FilterPolicy) : Prop :=
  ∀ keys, ∀ key ∈ keys, policy.keyMayMatch key (policy.createFilter keys) = true

end FilterPolicy

/-- `BloomFilterPolicy` with the block-based builder. -/
def BloomFilterPolicy.toFilterPolicy (p : BloomFilterPolicy) : FilterPolicy :=
  ⟨p.createFilter, BloomFilterPolicy.keyMayMatch⟩

theorem BloomFilterPolicy.noFalseNegatives (p : BloomFilterPolicy) :
    p.toFilterPolicy.NoFalseNegatives := fun _ _ hkey => p.keyMayMatch_createFilter hkey

/-- A `SliceTransform`: `Transform` and `InDomain`. -/
structure SliceTransform where
  transform : List UInt8 → List UInt8
  inDomain : List UInt8 → Bool

/-- `kFilterBaseLg`: a new filter every 2 KiB of data. -/
def kFilterBaseLg : Nat := 11

/-- `kFilterBase`. -/
def kFilterBase : Nat := 1 <<< kFilterBaseLg

/-- `BlockBasedFilterBlockBuilder`; `entries` are the keys of the next
filter. -/
structure BlockBasedFilterBlockBuilder where
  policy : FilterPolicy
  prefixExtractor : Option SliceTransform
  wholeKeyFiltering : Bool
  entries : List (List UInt8)
  prevPrefix : List UInt8
  result : List UInt8
  filterOffsets : List UInt32

namespace BlockBasedFilterBlockBuilder

/-- `BlockBasedFilterBlockBuilder(prefix_extractor, table_opt)`. -/
def create (prefixExtractor : Option SliceTransform) (policy : FilterPolicy)
    (wholeKeyFiltering : Bool) : BlockBasedFilterBlockBuilder :=
  ⟨policy, prefixExtractor, wholeKeyFiltering, [], [], [], []⟩

/-- `GenerateFilter`: the filter of the keys collected, or an empty one, at
the current end of `result_`. -/
def generateFilter (b : BlockBasedFilterBlockBuilder) : BlockBasedFilterBlockBuilder :=
  if b.entries.length = 0 then
    -- fast path if there are no keys for this filter
    { b with filterOffsets := b.filterOffsets ++ [UInt32.ofNat b.result.length] }
  else
    { b with filterOffsets := b.filterOffsets ++ [UInt32.ofNat b.result.length],
             result := b.result ++ b.policy.createFilter b.entries,
             entries := [], prevPrefix := [] }

/-- The loop of `StartBlock`, for at most `fuel` filters. -/
def startBlockLoop (filterIndex : Nat) : Nat → BlockBasedFilterBlockBuilder →
    BlockBasedFilterBlockBuilder
  | 0, b => b
  | fuel + 1, b =>
    if filterIndex > b.filterOffsets.length then startBlockLoop filterIndex fuel b.generateFilter
    else b

/-- `StartBlock(block_offset)`; each pass of the loop adds one filter, so
`filter_index` passes are enough. -/
def startBlock (b : BlockBasedFilterBlockBuilder) (blockOffset : UInt64) :
    BlockBasedFilterBlockBuilder :=
  let filterIndex := (blockOffset / UInt64.ofNat kFilterBase).toNat
  startBlockLoop filterIndex filterIndex b

/-- `AddKey(key)`. -/
def addKey (b : BlockBasedFilterBlockBuilder) (key : List UInt8) : BlockBasedFilterBlockBuilder :=
  { b with entries := b.entries ++ [key] }

/-- `AddPrefix(key)`: the prefix, unless it is the previous one. -/
def addPrefix (b : BlockBasedFilterBlockBuilder) (extractor : SliceTransform)
    (key : List UInt8) : BlockBasedFilterBlockBuilder :=
  let prev := b.prevPrefix
  let keyPrefix := extractor.transform key
  if prev.length = 0 ∨ keyPrefix ≠ prev then { b.addKey keyPrefix with prevPrefix := keyPrefix }
  else b

/-- `Add(key)`. -/
def add (b : BlockBasedFilterBlockBuilder) (key : List UInt8) : BlockBasedFilterBlockBuilder :=
  let b := match b.prefixExtractor with
    | some extractor => if extractor.inDomain key then b.addPrefix extractor key else b
    | none => b
  if b.wholeKeyFiltering then b.addKey key else b

/-- `Finish`: the last filter, the offset array, its offset and
`kFilterBaseLg`. -/
def finish (b : BlockBasedFilterBlockBuilder) : List UInt8 × BlockBasedFilterBlockBuilder :=
  let b := if b.entries.length ≠ 0 then b.generateFilter else b
  let arrayOffset := UInt32.ofNat b.result.length
  let result := b.filterOffsets.foldl putFixed32 b.result
  let result := putFixed32 result arrayOffset ++ [UInt8.ofNat kFilterBaseLg]
  (result, { b with result })

/-- `StartBlock(o)` and then `Add` of each key, for every block `(o, keys)` in
turn. -/
def addBlocks (b : BlockBasedFilterBlockBuilder) (blocks : List (UInt64 × List (List UInt8))) :
    BlockBasedFilterBlockBuilder :=
  blocks.foldl (fun b block => block.2.foldl add (b.startBlock block.1)) b

end BlockBasedFilterBlockBuilder

/-- `BlockBasedFilterBlockReader`: the filter block, the position of its
offset array (`offset_ - data_`), the number of filters and `base_lg_`. -/
structure BlockBasedFilterBlockReader where
  policy : FilterPolicy
  prefixExtractor : Option SliceTransform
  wholeKeyFiltering : Bool
  contents : List UInt8
  offset : Nat
  num : Nat
  baseLg : Nat

namespace BlockBasedFilterBlockReader

/-- `BlockBasedFilterBlockReader(prefix_extractor, table_opt, whole_key_filtering,
contents)`: no filters when the block is too short or its array offset too
large. -/
def create (prefixExtractor : Option SliceTransform) (policy : FilterPolicy)
    (wholeKeyFiltering : Bool) (contents : List UInt8) : BlockBasedFilterBlockReader :=
  let n := contents.length
  let r : BlockBasedFilterBlockReader := ⟨policy, prefixExtractor, wholeKeyFiltering, contents, 0, 0, 0⟩
  -- 1 byte for base_lg_ and 4 for the start of the offset array
  if n < 5 then r
  else
    let baseLg := (contents.getD (n - 1) 0).toNat
    let lastWord := decodeFixed32 (contents.drop (n - 5))
    if lastWord.toNat > n - 5 then { r with baseLg }
    else { r with baseLg, offset := lastWord.toNat, num := (n - 5 - lastWord.toNat) / 4 }

/-- `MayMatch(entry, block_offset)`: the filter between two adjacent words of
the offset array; errors are treated as potential matches. -/
def mayMatch (r : BlockBasedFilterBlockReader) (entry : List UInt8) (blockOffset : UInt64) :
    Bool :=
  let index := (blockOffset >>> UInt64.ofNat r.baseLg).toNat
  if index < r.num then
    let start := decodeFixed32 (r.contents.drop (r.offset + index * 4))
    let limit := decodeFixed32 (r.contents.drop (r.offset + index * 4 + 4))
    if start ≤ limit ∧ limit ≤ UInt32.ofNat r.offset then
      r.policy.keyMayMatch entry ((r.contents.drop start.toNat).take (limit - start).toNat)
    -- empty filters do not match any entries
    else if start = limit then false
    else true
  else true

/-- `KeyMayMatch(key, block_offset)`. -/
def keyMayMatch (r : BlockBasedFilterBlockReader) (key : List UInt8) (blockOffset : UInt64) :
    Bool :=
  if !r.wholeKeyFiltering then true else r.mayMatch key blockOffset

/-- `PrefixMayMatch(prefix, block_offset)`. -/
def prefixMayMatch (r : BlockBasedFilterBlockReader) (keyPrefix : List UInt8)
    (blockOffset : UInt64) : Bool :=
  if r.prefixExtractor.isNone then true else r.mayMatch keyPrefix blockOffset

end BlockBasedFilterBlockReader

/-! ## The layout of a finished filter block

A builder that has generated the filters `filters` holds their concatenation
in `result_`, and `filter_offsets_` holds the start of each. The words of the
offset array together with the array offset are the first `filters.length + 1`
of the cumulative lengths `boundWords filters`. -/

/-- The first `n` cumulative filter lengths, as 32-bit words. -/
def boundWords (filters : List (List UInt8)) (n : Nat) : List UInt32 :=
  (List.range n).map fun j => UInt32.ofNat (filters.take j).flatten.length

@[simp] theorem length_boundWords (filters : List (List UInt8)) (n : Nat) :
    (boundWords filters n).length = n := by
  simp [boundWords]

theorem getElem_boundWords (filters : List (List UInt8)) {n j : Nat}
    (hj : j < (boundWords filters n).length) :
    (boundWords filters n)[j] = UInt32.ofNat (filters.take j).flatten.length := by
  simp [boundWords]

theorem boundWords_succ (filters : List (List UInt8)) (n : Nat) :
    boundWords filters (n + 1) =
      boundWords filters n ++ [UInt32.ofNat (filters.take n).flatten.length] := by
  simp [boundWords, List.range_succ]

/-- Filters generated later do not move the starts of the earlier ones. -/
theorem boundWords_append (filters more : List (List UInt8)) {n : Nat}
    (hn : n ≤ filters.length + 1) : boundWords (filters ++ more) n = boundWords filters n := by
  refine List.map_congr_left fun j hj => ?_
  rw [List.take_append_of_le_length (by simp at hj; omega)]

/-- The bytes of a finished filter block of the filters `filters`. -/
def encodedFilterBlock (filters : List (List UInt8)) : List UInt8 :=
  filters.flatten ++ (boundWords filters (filters.length + 1)).flatMap encodeFixed32 ++
    [UInt8.ofNat kFilterBaseLg]

theorem flatten_take_succ (filters : List (List UInt8)) {j : Nat} (hj : j < filters.length) :
    (filters.take (j + 1)).flatten = (filters.take j).flatten ++ filters[j] := by
  rw [List.take_add_one, List.getElem?_eq_getElem hj, Option.toList_some, List.flatten_append,
    List.flatten_singleton]

/-- Filter `j` is the slice between the cumulative lengths `j` and `j + 1`. -/
theorem slice_flatten (filters : List (List UInt8)) (rest : List UInt8) {j : Nat}
    (hj : j < filters.length) :
    ((filters.flatten ++ rest).drop (filters.take j).flatten.length).take filters[j].length =
      filters[j] := by
  have hsplit : filters.flatten =
      (filters.take j).flatten ++ (filters[j] ++ (filters.drop (j + 1)).flatten) := by
    rw [← List.append_assoc, ← flatten_take_succ filters hj, ← List.flatten_append,
      List.take_append_drop]
  rw [hsplit, List.append_assoc, List.drop_left, List.append_assoc, List.take_left]

theorem length_flatten_take_le (filters : List (List UInt8)) {i j : Nat} (hij : i ≤ j) :
    (filters.take i).flatten.length ≤ (filters.take j).flatten.length := by
  have : filters.take i = (filters.take j).take i := by
    rw [List.take_take, Nat.min_eq_left hij]
  rw [this]
  exact (List.take_prefix _ _).flatten.length_le

theorem length_encodedFilterBlock (filters : List (List UInt8)) :
    (encodedFilterBlock filters).length = filters.flatten.length + 4 * (filters.length + 1) + 1 := by
  simp [encodedFilterBlock, List.length_flatMap]
  omega

/-- Word `i` of the offset array, the last one being the array offset. -/
theorem decodeFixed32_drop_encodedFilterBlock (filters : List (List UInt8)) {i : Nat}
    (hi : i < filters.length + 1) :
    decodeFixed32 ((encodedFilterBlock filters).drop (filters.flatten.length + 4 * i)) =
      UInt32.ofNat (filters.take i).flatten.length := by
  have hdrop : (encodedFilterBlock filters).drop (filters.flatten.length + 4 * i) =
      ((boundWords filters (filters.length + 1)).flatMap encodeFixed32 ++
        [UInt8.ofNat kFilterBaseLg]).drop (4 * i) := by
    rw [encodedFilterBlock, List.append_assoc, List.drop_append, List.drop_eq_nil_of_le (by omega),
      List.nil_append, Nat.add_sub_cancel_left]
  rw [hdrop, decodeFixed32_drop_flatMap _ _ (by simpa using hi), getElem_boundWords]

/-- Every cumulative filter length is below a block of fewer than `2 ^ 32`
bytes, so its word is exact. -/
theorem toNat_boundWord {filters : List (List UInt8)}
    (hsize : (encodedFilterBlock filters).length < 2 ^ 32) (i : Nat) :
    (UInt32.ofNat (filters.take i).flatten.length).toNat = (filters.take i).flatten.length := by
  have hle : (filters.take i).flatten.length ≤ filters.flatten.length :=
    (List.take_prefix _ _).flatten.length_le
  rw [length_encodedFilterBlock] at hsize
  exact UInt32.toNat_ofNat_of_lt' (by rw [UInt32.size]; omega)

namespace BlockBasedFilterBlockReader

/-- The reader of a finished filter block of fewer than `2 ^ 32` bytes finds
the offset array after the filters, and one filter for each of its words but
the last. -/
theorem create_encodedFilterBlock (prefixExtractor : Option SliceTransform)
    (policy : FilterPolicy) (wholeKeyFiltering : Bool) (filters : List (List UInt8))
    (hsize : (encodedFilterBlock filters).length < 2 ^ 32) :
    create prefixExtractor policy wholeKeyFiltering (encodedFilterBlock filters) =
      ⟨policy, prefixExtractor, wholeKeyFiltering, encodedFilterBlock filters,
        filters.flatten.length, filters.length, kFilterBaseLg⟩ := by
  have hlen := length_encodedFilterBlock filters
  have hlast : (encodedFilterBlock filters).getD
      ((encodedFilterBlock filters).length - 1) 0 = UInt8.ofNat kFilterBaseLg := by
    unfold encodedFilterBlock
    rw [List.length_append, List.length_singleton, Nat.add_sub_cancel,
      List.getD_append_right _ _ _ _ le_rfl, Nat.sub_self]
    rfl
  have hword : decodeFixed32 ((encodedFilterBlock filters).drop
      ((encodedFilterBlock filters).length - 5)) = UInt32.ofNat filters.flatten.length := by
    rw [show (encodedFilterBlock filters).length - 5 =
        filters.flatten.length + 4 * filters.length by omega,
      decodeFixed32_drop_encodedFilterBlock filters (by omega), List.take_length]
  have hoff : (UInt32.ofNat filters.flatten.length).toNat = filters.flatten.length := by
    simpa using toNat_boundWord hsize filters.length
  simp only [create, if_neg (show ¬(encodedFilterBlock filters).length < 5 by omega), hlast,
    hword, hoff, if_neg (show ¬filters.flatten.length > (encodedFilterBlock filters).length - 5
      by omega)]
  congr 1
  omega

@[simp] theorem options_create (prefixExtractor : Option SliceTransform) (policy : FilterPolicy)
    (wholeKeyFiltering : Bool) (contents : List UInt8) :
    (create prefixExtractor policy wholeKeyFiltering contents).policy = policy ∧
      (create prefixExtractor policy wholeKeyFiltering contents).prefixExtractor =
        prefixExtractor ∧
      (create prefixExtractor policy wholeKeyFiltering contents).wholeKeyFiltering =
        wholeKeyFiltering := by
  unfold create
  dsimp only
  split_ifs <;> exact ⟨rfl, rfl, rfl⟩

/-- `KeyMayMatch` answers as `MayMatch` with whole-key filtering, and
matches everything without it. -/
theorem keyMayMatch_eq (r : BlockBasedFilterBlockReader) (key : List UInt8) (o : UInt64) :
    r.keyMayMatch key o = (!r.wholeKeyFiltering || r.mayMatch key o) := by
  unfold keyMayMatch
  cases r.wholeKeyFiltering <;> rfl

/-- `PrefixMayMatch` answers as `MayMatch` with a prefix extractor, and
matches everything without one. -/
theorem prefixMayMatch_eq (r : BlockBasedFilterBlockReader) (keyPrefix : List UInt8)
    (o : UInt64) :
    r.prefixMayMatch keyPrefix o = (r.prefixExtractor.isNone || r.mayMatch keyPrefix o) := by
  unfold prefixMayMatch
  cases r.prefixExtractor.isNone <;> rfl

theorem toNat_shiftRight_kFilterBaseLg (o : UInt64) :
    (o >>> UInt64.ofNat kFilterBaseLg).toNat = o.toNat / kFilterBase := by
  rw [UInt64.toNat_shiftRight, Nat.shiftRight_eq_div_pow]
  rfl

/-- What `MayMatch` reads from a finished filter block of fewer than `2 ^ 32`
bytes: filter `o / kFilterBase` when there is one, and a potential match past
the last filter. -/
theorem mayMatch_encodedFilterBlock (prefixExtractor : Option SliceTransform)
    (policy : FilterPolicy) (wholeKeyFiltering : Bool) (filters : List (List UInt8))
    (hsize : (encodedFilterBlock filters).length < 2 ^ 32) (entry : List UInt8) (o : UInt64) :
    (create prefixExtractor policy wholeKeyFiltering (encodedFilterBlock filters)).mayMatch
        entry o =
      if hj : o.toNat / kFilterBase < filters.length then
        policy.keyMayMatch entry filters[o.toNat / kFilterBase]
      else true := by
  rw [create_encodedFilterBlock _ _ _ _ hsize]
  unfold mayMatch
  simp only [toNat_shiftRight_kFilterBaseLg]
  generalize o.toNat / kFilterBase = j
  by_cases hj : j < filters.length
  · -- the two words around filter j are its start and the start of the next
    have hstart := decodeFixed32_drop_encodedFilterBlock filters (i := j) (by omega)
    have hlimit := decodeFixed32_drop_encodedFilterBlock filters (i := j + 1) (by omega)
    rw [show filters.flatten.length + 4 * (j + 1) = filters.flatten.length + j * 4 + 4 by omega]
      at hlimit
    rw [show filters.flatten.length + 4 * j = filters.flatten.length + j * 4 by omega] at hstart
    have hmono := length_flatten_take_le filters (Nat.le_succ j)
    have hend : (filters.take (j + 1)).flatten.length ≤ filters.flatten.length :=
      (List.take_prefix _ _).flatten.length_le
    have hlen : (filters.take (j + 1)).flatten.length - (filters.take j).flatten.length =
        filters[j].length := by
      rw [flatten_take_succ filters hj, List.length_append]
      omega
    have hS := toNat_boundWord hsize j
    have hS' := toNat_boundWord hsize (j + 1)
    have hF : (UInt32.ofNat filters.flatten.length).toNat = filters.flatten.length := by
      simpa using toNat_boundWord hsize filters.length
    have hcond : UInt32.ofNat (filters.take j).flatten.length ≤
          UInt32.ofNat (filters.take (j + 1)).flatten.length ∧
        UInt32.ofNat (filters.take (j + 1)).flatten.length ≤
          UInt32.ofNat filters.flatten.length := by
      simp only [UInt32.le_iff_toNat_le, hS, hS', hF]
      exact ⟨hmono, hend⟩
    simp only [if_pos hj, dif_pos hj, hstart, hlimit, if_pos hcond]
    rw [UInt32.toNat_sub_of_le _ _ hcond.1, hS, hS', hlen, encodedFilterBlock,
      List.append_assoc, slice_flatten filters _ hj]
  · simp only [if_neg hj, dif_neg hj]

end BlockBasedFilterBlockReader

/-! ## The builder's invariant

`Inv b filters need`: `b` has generated the filters `filters`, and every
obligation `need e j` (the entry `e` must match filter `j`) is met by a
generated filter, or is one for the next filter and `e` is among the keys
collected for it. -/

namespace BlockBasedFilterBlockBuilder

/-- `Add(key)` puts `e` in the next filter: the key itself with whole-key
filtering, its prefix when the extractor has the key in its domain. -/
def AddsEntry (prefixExtractor : Option SliceTransform) (wholeKeyFiltering : Bool)
    (key e : List UInt8) : Prop :=
  (wholeKeyFiltering = true ∧ e = key) ∨
    ∃ extractor, prefixExtractor = some extractor ∧ extractor.inDomain key = true ∧
      e = extractor.transform key

structure Inv (b : BlockBasedFilterBlockBuilder) (filters : List (List UInt8))
    (need : List UInt8 → Nat → Prop) : Prop where
  result : b.result = filters.flatten
  offsets : b.filterOffsets = boundWords filters filters.length
  done : ∀ e j (hj : j < filters.length), need e j → b.policy.keyMayMatch e filters[j] = true
  pending : ∀ e j, need e j → filters.length ≤ j → j = filters.length ∧ e ∈ b.entries
  prev : b.prevPrefix ≠ [] → b.prevPrefix ∈ b.entries

theorem Inv.length_filterOffsets {b : BlockBasedFilterBlockBuilder} {filters need}
    (h : Inv b filters need) : b.filterOffsets.length = filters.length := by
  rw [h.offsets, length_boundWords]

theorem inv_create (prefixExtractor : Option SliceTransform) (policy : FilterPolicy)
    (wholeKeyFiltering : Bool) :
    Inv (create prefixExtractor policy wholeKeyFiltering) [] (fun _ _ => False) where
  result := rfl
  offsets := rfl
  done := fun _ _ _ h => h.elim
  pending := fun _ _ h => h.elim
  prev := fun h => (h rfl).elim

@[simp] theorem options_generateFilter (b : BlockBasedFilterBlockBuilder) :
    b.generateFilter.policy = b.policy ∧ b.generateFilter.prefixExtractor = b.prefixExtractor ∧
      b.generateFilter.wholeKeyFiltering = b.wholeKeyFiltering := by
  unfold generateFilter
  split <;> exact ⟨rfl, rfl, rfl⟩

/-- `GenerateFilter` closes the next filter: its obligations are met when the
policy has no false negatives. -/
theorem Inv.generateFilter {b : BlockBasedFilterBlockBuilder} {filters need}
    (hpolicy : b.policy.NoFalseNegatives) (h : Inv b filters need) :
    ∃ filter, Inv b.generateFilter (filters ++ [filter]) need ∧ b.generateFilter.entries = [] := by
  -- the obligations on the new filter, number filters.length, were all pending
  have hdone : ∀ filter, (∀ e, e ∈ b.entries → b.policy.keyMayMatch e filter = true) →
      ∀ e j (hj : j < (filters ++ [filter]).length), need e j →
        b.policy.keyMayMatch e (filters ++ [filter])[j] = true := by
    intro filter hfilter e j hj hneed
    rcases Nat.lt_or_ge j filters.length with hlt | hge
    · rw [List.getElem_append_left hlt]
      exact h.done e j hlt hneed
    · obtain ⟨rfl, he⟩ := h.pending e j hneed hge
      simpa using hfilter e he
  have hpending (filter : List UInt8) :
      ∀ e j, need e j → (filters ++ [filter]).length ≤ j → False := by
    intro e j hneed hj
    have := (h.pending e j hneed (by simp at hj; omega)).1
    simp at hj
    omega
  have hoffsets (filter : List UInt8) : b.filterOffsets ++ [UInt32.ofNat b.result.length] =
      boundWords (filters ++ [filter]) (filters ++ [filter]).length := by
    rw [List.length_append, List.length_singleton, boundWords_append _ _ le_rfl, boundWords_succ,
      List.take_length, h.offsets, h.result]
  by_cases hnil : b.entries.length = 0
  · -- the fast path: an empty filter, and no key was waiting for it
    have hentries : b.entries = [] := List.eq_nil_of_length_eq_zero hnil
    rw [BlockBasedFilterBlockBuilder.generateFilter, if_pos hnil]
    refine ⟨[], ⟨?_, hoffsets [], hdone [] (by simp [hentries]), fun e j hneed hj =>
      (hpending [] e j hneed hj).elim, h.prev⟩, hentries⟩
    simp [h.result]
  · rw [BlockBasedFilterBlockBuilder.generateFilter, if_neg hnil]
    refine ⟨b.policy.createFilter b.entries, ⟨?_, hoffsets _,
      hdone _ fun e he => hpolicy _ e he, fun e j hneed hj => (hpending _ e j hneed hj).elim,
      fun hne => (hne rfl).elim⟩, rfl⟩
    simp [h.result]

@[simp] theorem options_startBlockLoop (filterIndex fuel : Nat) (b : BlockBasedFilterBlockBuilder) :
    (startBlockLoop filterIndex fuel b).policy = b.policy ∧
      (startBlockLoop filterIndex fuel b).prefixExtractor = b.prefixExtractor ∧
      (startBlockLoop filterIndex fuel b).wholeKeyFiltering = b.wholeKeyFiltering := by
  induction fuel generalizing b with
  | zero => exact ⟨rfl, rfl, rfl⟩
  | succ fuel ih =>
    unfold startBlockLoop
    split
    · simpa using ih b.generateFilter
    · exact ⟨rfl, rfl, rfl⟩

/-- The loop of `StartBlock` generates filters until `filterIndex` of them are
there, when its fuel is enough for that. -/
theorem Inv.startBlockLoop {filterIndex : Nat} {need : List UInt8 → Nat → Prop} :
    ∀ (fuel : Nat) (b : BlockBasedFilterBlockBuilder) (filters : List (List UInt8)),
      b.policy.NoFalseNegatives → Inv b filters need → filters.length ≤ filterIndex →
      filterIndex ≤ filters.length + fuel →
      ∃ filters', Inv (startBlockLoop filterIndex fuel b) filters' need ∧
        filters'.length = filterIndex
  | 0, b, filters, _, h, hle, hfuel => ⟨filters, h, by omega⟩
  | fuel + 1, b, filters, hpolicy, h, hle, hfuel => by
    unfold BlockBasedFilterBlockBuilder.startBlockLoop
    by_cases hgt : filterIndex > b.filterOffsets.length
    · -- one more filter, and the loop goes on with one fuel less
      rw [if_pos hgt]
      rw [h.length_filterOffsets] at hgt
      obtain ⟨filter, h', -⟩ := h.generateFilter hpolicy
      exact Inv.startBlockLoop fuel _ _ (by simpa using hpolicy) h' (by simp; omega)
        (by simp; omega)
    · rw [if_neg hgt]
      rw [h.length_filterOffsets] at hgt
      exact ⟨filters, h, by omega⟩

@[simp] theorem options_startBlock (b : BlockBasedFilterBlockBuilder) (blockOffset : UInt64) :
    (b.startBlock blockOffset).policy = b.policy ∧
      (b.startBlock blockOffset).prefixExtractor = b.prefixExtractor ∧
      (b.startBlock blockOffset).wholeKeyFiltering = b.wholeKeyFiltering :=
  options_startBlockLoop _ _ b

theorem toNat_div_kFilterBase (blockOffset : UInt64) :
    (blockOffset / UInt64.ofNat kFilterBase).toNat = blockOffset.toNat / kFilterBase := by
  rw [UInt64.toNat_div]
  rfl

/-- `StartBlock(o)` with `o` at or past the filters generated leaves
`o / kFilterBase` filters generated. -/
theorem Inv.startBlock {b : BlockBasedFilterBlockBuilder} {filters need}
    (hpolicy : b.policy.NoFalseNegatives) (h : Inv b filters need) {blockOffset : UInt64}
    (hle : filters.length ≤ blockOffset.toNat / kFilterBase) :
    ∃ filters', Inv (b.startBlock blockOffset) filters' need ∧
      filters'.length = blockOffset.toNat / kFilterBase := by
  unfold BlockBasedFilterBlockBuilder.startBlock
  rw [toNat_div_kFilterBase]
  exact Inv.startBlockLoop _ _ _ hpolicy h hle (by omega)

theorem Inv.mono {b : BlockBasedFilterBlockBuilder} {filters need need'}
    (h : Inv b filters need) (himp : ∀ e j, need' e j → need e j) : Inv b filters need' :=
  ⟨h.result, h.offsets, fun e j hj hneed => h.done e j hj (himp e j hneed),
    fun e j hneed hle => h.pending e j (himp e j hneed) hle, h.prev⟩

/-- A step that only collects keys for the next filter keeps the invariant,
with obligations on the next filter for the keys it collects. -/
theorem Inv.collect {b b' : BlockBasedFilterBlockBuilder} {filters need need'}
    (h : Inv b filters need) (hresult : b'.result = b.result)
    (hoffsets : b'.filterOffsets = b.filterOffsets) (hpolicy : b'.policy = b.policy)
    (hentries : b.entries ⊆ b'.entries) (hprev : b'.prevPrefix ≠ [] → b'.prevPrefix ∈ b'.entries)
    (hneed : ∀ e j, need' e j → need e j ∨ (j = filters.length ∧ e ∈ b'.entries)) :
    Inv b' filters need' where
  result := hresult ▸ h.result
  offsets := hoffsets ▸ h.offsets
  done e j hj hneed' := by
    rcases hneed e j hneed' with hneed | ⟨rfl, -⟩
    · exact hpolicy ▸ h.done e j hj hneed
    · exact absurd hj (lt_irrefl _)
  pending e j hneed' hle := by
    rcases hneed e j hneed' with hneed | hnext
    · obtain ⟨hj, he⟩ := h.pending e j hneed hle
      exact ⟨hj, hentries he⟩
    · exact hnext
  prev := hprev

@[simp] theorem entries_addKey (b : BlockBasedFilterBlockBuilder) (key : List UInt8) :
    (b.addKey key).entries = b.entries ++ [key] := rfl

theorem Inv.addKey {b : BlockBasedFilterBlockBuilder} {filters need} (h : Inv b filters need)
    (key : List UInt8) :
    Inv (b.addKey key) filters (fun e j => need e j ∨ (j = filters.length ∧ e = key)) :=
  h.collect rfl rfl rfl (List.subset_append_left _ _)
    (fun hne => List.mem_append_left _ (h.prev hne))
    (fun e j hneed => hneed.imp_right fun ⟨hj, he⟩ => ⟨hj, by simp [he]⟩)

/-- `AddPrefix` collects the prefix, or finds it collected already as the
previous prefix. -/
theorem Inv.addPrefix {b : BlockBasedFilterBlockBuilder} {filters need} (h : Inv b filters need)
    (extractor : SliceTransform) (key : List UInt8) :
    Inv (b.addPrefix extractor key) filters
      (fun e j => need e j ∨ (j = filters.length ∧ e = extractor.transform key)) := by
  unfold BlockBasedFilterBlockBuilder.addPrefix
  by_cases hadd : b.prevPrefix.length = 0 ∨ extractor.transform key ≠ b.prevPrefix
  · rw [if_pos hadd]
    exact h.collect rfl rfl rfl (List.subset_append_left _ _) (fun _ => by simp)
      (fun e j hneed => hneed.imp_right fun ⟨hj, he⟩ => ⟨hj, by simp [he]⟩)
  · -- the prefix is the previous one, which is not empty and was collected
    rw [if_neg hadd]
    push Not at hadd
    obtain ⟨hlen, hsame⟩ := hadd
    have hprev : b.prevPrefix ∈ b.entries := h.prev (List.ne_nil_of_length_pos (by omega))
    exact h.collect rfl rfl rfl (List.Subset.refl _) h.prev
      (fun e j hneed => hneed.imp_right fun ⟨hj, he⟩ => ⟨hj, he ▸ hsame ▸ hprev⟩)

@[simp] theorem options_addKey (b : BlockBasedFilterBlockBuilder) (key : List UInt8) :
    (b.addKey key).policy = b.policy ∧ (b.addKey key).prefixExtractor = b.prefixExtractor ∧
      (b.addKey key).wholeKeyFiltering = b.wholeKeyFiltering := ⟨rfl, rfl, rfl⟩

@[simp] theorem options_addPrefix (b : BlockBasedFilterBlockBuilder) (extractor : SliceTransform)
    (key : List UInt8) :
    (b.addPrefix extractor key).policy = b.policy ∧
      (b.addPrefix extractor key).prefixExtractor = b.prefixExtractor ∧
      (b.addPrefix extractor key).wholeKeyFiltering = b.wholeKeyFiltering := by
  unfold addPrefix
  dsimp only
  split_ifs <;> exact ⟨rfl, rfl, rfl⟩

@[simp] theorem options_add (b : BlockBasedFilterBlockBuilder) (key : List UInt8) :
    (b.add key).policy = b.policy ∧ (b.add key).prefixExtractor = b.prefixExtractor ∧
      (b.add key).wholeKeyFiltering = b.wholeKeyFiltering := by
  unfold add
  dsimp only
  split <;> split_ifs <;> simp_all

/-- `Add(key)` keeps the invariant, with obligations on the next filter for
the entries it collects. -/
theorem Inv.add {b : BlockBasedFilterBlockBuilder} {filters need} (h : Inv b filters need)
    (key : List UInt8) :
    Inv (b.add key) filters (fun e j => need e j ∨
      (j = filters.length ∧ AddsEntry b.prefixExtractor b.wholeKeyFiltering key e)) := by
  -- the prefix first, then the whole key
  have hprefix : ∃ b₁ : BlockBasedFilterBlockBuilder,
      (match b.prefixExtractor with
        | some extractor => if extractor.inDomain key then b.addPrefix extractor key else b
        | none => b) = b₁ ∧ b₁.wholeKeyFiltering = b.wholeKeyFiltering ∧
      Inv b₁ filters (fun e j => need e j ∨ (j = filters.length ∧
        ∃ extractor, b.prefixExtractor = some extractor ∧ extractor.inDomain key = true ∧
          e = extractor.transform key)) := by
    cases hpe : b.prefixExtractor with
    | none => exact ⟨b, rfl, rfl, h.mono fun e j hneed => by simpa using hneed⟩
    | some extractor =>
      by_cases hin : extractor.inDomain key = true
      · refine ⟨_, if_pos hin, (options_addPrefix b extractor key).2.2,
          (h.addPrefix extractor key).mono fun e j hneed => ?_⟩
        exact hneed.imp_right fun ⟨hj, _, hsome, hin, he⟩ => ⟨hj, by cases hsome; exact he⟩
      · exact ⟨b, if_neg hin, rfl, h.mono fun e j hneed => hneed.elim id
          fun ⟨_, _, hsome, hin', _⟩ => by cases hsome; exact absurd hin' hin⟩
  obtain ⟨b₁, hb₁, hwhole, h₁⟩ := hprefix
  unfold BlockBasedFilterBlockBuilder.add
  simp only [hb₁]
  by_cases hw : b.wholeKeyFiltering = true
  · rw [if_pos (hwhole ▸ hw)]
    refine (h₁.addKey key).mono fun e j hneed => ?_
    rcases hneed with hneed | ⟨hj, hwk | hpre⟩
    · exact Or.inl (Or.inl hneed)
    · exact Or.inr ⟨hj, hwk.2⟩
    · exact Or.inl (Or.inr ⟨hj, hpre⟩)
  · rw [if_neg (hwhole ▸ hw)]
    refine h₁.mono fun e j hneed => ?_
    rcases hneed with hneed | ⟨hj, hwk | hpre⟩
    · exact Or.inl hneed
    · exact absurd hwk.1 hw
    · exact Or.inr ⟨hj, hpre⟩

@[simp] theorem options_foldl_add (keys : List (List UInt8)) (b : BlockBasedFilterBlockBuilder) :
    (keys.foldl add b).policy = b.policy ∧ (keys.foldl add b).prefixExtractor = b.prefixExtractor ∧
      (keys.foldl add b).wholeKeyFiltering = b.wholeKeyFiltering := by
  induction keys generalizing b with
  | nil => exact ⟨rfl, rfl, rfl⟩
  | cons key keys ih => simpa using ih (b.add key)

/-- The keys added after one `StartBlock` all go to the next filter. -/
theorem Inv.foldl_add {need : List UInt8 → Nat → Prop} (keys : List (List UInt8)) :
    ∀ {b : BlockBasedFilterBlockBuilder} {filters}, Inv b filters need →
      Inv (keys.foldl BlockBasedFilterBlockBuilder.add b) filters (fun e j => need e j ∨
        (j = filters.length ∧
        ∃ key ∈ keys, AddsEntry b.prefixExtractor b.wholeKeyFiltering key e)) := by
  induction keys generalizing need with
  | nil => exact fun h => h.mono fun e j hneed =>
      hneed.elim id fun ⟨_, _, hkey, _⟩ => absurd hkey List.not_mem_nil
  | cons key keys ih =>
    intro b filters h
    have h' := ih (h.add key)
    simp only [options_add] at h'
    refine h'.mono fun e j hneed => ?_
    rcases hneed with hneed | ⟨hj, k, hk, hadds⟩
    · exact Or.inl (Or.inl hneed)
    · rcases List.mem_cons.mp hk with rfl | hk
      · exact Or.inl (Or.inr ⟨hj, hadds⟩)
      · exact Or.inr ⟨hj, k, hk, hadds⟩

@[simp] theorem options_addBlocks (blocks : List (UInt64 × List (List UInt8)))
    (b : BlockBasedFilterBlockBuilder) :
    (b.addBlocks blocks).policy = b.policy ∧
      (b.addBlocks blocks).prefixExtractor = b.prefixExtractor ∧
      (b.addBlocks blocks).wholeKeyFiltering = b.wholeKeyFiltering := by
  induction blocks generalizing b with
  | nil => exact ⟨rfl, rfl, rfl⟩
  | cons block blocks ih =>
    have := ih (block.2.foldl add (b.startBlock block.1))
    simpa [addBlocks] using this

theorem addBlocks_cons (b : BlockBasedFilterBlockBuilder) (block : UInt64 × List (List UInt8))
    (blocks : List (UInt64 × List (List UInt8))) :
    b.addBlocks (block :: blocks) = (block.2.foldl add (b.startBlock block.1)).addBlocks blocks :=
  rfl

/-- The run over blocks of non-decreasing offsets, none of them before the
filters already generated: every key of a block `(o, keys)` goes to filter
`o / kFilterBase`. -/
theorem Inv.addBlocks (blocks : List (UInt64 × List (List UInt8))) :
    ∀ {b : BlockBasedFilterBlockBuilder} {filters need}, b.policy.NoFalseNegatives →
      Inv b filters need → (blocks.map Prod.fst).Pairwise (· ≤ ·) →
      (∀ block ∈ blocks, filters.length ≤ block.1.toNat / kFilterBase) →
      ∃ filters', Inv (b.addBlocks blocks) filters' (fun e j => need e j ∨
        ∃ block ∈ blocks, j = block.1.toNat / kFilterBase ∧
          ∃ key ∈ block.2, AddsEntry b.prefixExtractor b.wholeKeyFiltering key e) := by
  induction blocks with
  | nil => exact fun _ h _ _ => ⟨_, h.mono fun e j hneed =>
      hneed.elim id fun ⟨_, hb, _⟩ => absurd hb List.not_mem_nil⟩
  | cons block blocks ih =>
    intro b filters need hpolicy h hsorted hle
    obtain ⟨filters₁, h₁, hlen₁⟩ := h.startBlock hpolicy (hle block List.mem_cons_self)
    have h₂ := h₁.foldl_add block.2
    rw [List.map_cons, List.pairwise_cons] at hsorted
    -- the later blocks are at or past this one's filter
    have hle' : ∀ block' ∈ blocks, filters₁.length ≤ block'.1.toNat / kFilterBase := by
      intro block' hblock'
      have hoff : block.1 ≤ block'.1 := hsorted.1 _ (List.mem_map_of_mem hblock')
      rw [hlen₁]
      exact Nat.div_le_div_right (UInt64.le_iff_toNat_le.mp hoff)
    obtain ⟨filters', h'⟩ := ih (by simpa using hpolicy) h₂ hsorted.2 hle'
    refine ⟨filters', ?_⟩
    rw [addBlocks_cons]
    simp only [options_foldl_add, options_startBlock] at h'
    refine h'.mono fun e j hneed => ?_
    rcases hneed with hneed | ⟨block', hb', hj, hkeys⟩
    · exact Or.inl (Or.inl hneed)
    · rcases List.mem_cons.mp hb' with rfl | hb'
      · exact Or.inl (Or.inr ⟨hj.trans hlen₁.symm, hkeys⟩)
      · exact Or.inr ⟨block', hb', hj, hkeys⟩

/-- `Finish` generates the last filter: every obligation is met by a filter of
the finished block. -/
theorem Inv.finish {b : BlockBasedFilterBlockBuilder} {filters need}
    (hpolicy : b.policy.NoFalseNegatives) (h : Inv b filters need) :
    ∃ filters', b.finish.1 = encodedFilterBlock filters' ∧
      ∀ e j, need e j → ∃ hj : j < filters'.length, b.policy.keyMayMatch e filters'[j] = true := by
  have hlast : ∃ filters₁, Inv (if b.entries.length ≠ 0 then b.generateFilter else b)
      filters₁ need ∧ (if b.entries.length ≠ 0 then b.generateFilter else b).entries = [] ∧
      (if b.entries.length ≠ 0 then b.generateFilter else b).policy = b.policy := by
    by_cases hne : b.entries.length ≠ 0
    · obtain ⟨filter, h₁, hnil⟩ := h.generateFilter hpolicy
      rw [if_pos hne]
      exact ⟨_, h₁, hnil, (options_generateFilter b).1⟩
    · rw [if_neg hne]
      exact ⟨filters, h, List.eq_nil_of_length_eq_zero (not_not.mp hne), rfl⟩
  unfold BlockBasedFilterBlockBuilder.finish
  generalize (if b.entries.length ≠ 0 then b.generateFilter else b) = b₁ at hlast ⊢
  obtain ⟨filters₁, h₁, hnil, hpol⟩ := hlast
  refine ⟨filters₁, ?_, fun e j hneed => ?_⟩
  · simp only [foldl_putFixed32, putFixed32, encodedFilterBlock, h₁.result, h₁.offsets,
      boundWords_succ, List.take_length, List.flatMap_append, List.flatMap_singleton,
      List.append_assoc]
  · -- nothing is left pending, the keys collected being none
    have hj : j < filters₁.length := by
      by_contra hge
      have := (h₁.pending e j hneed (by omega)).2
      simp [hnil] at this
    exact ⟨hj, hpol ▸ h₁.done e j hj hneed⟩

/-- A builder that has collected keys and generated no filter finishes with
one filter, at offset zero. -/
theorem finish_of_first_filter (b : BlockBasedFilterBlockBuilder) (hentries : b.entries ≠ [])
    (hresult : b.result = []) (hoffsets : b.filterOffsets = []) :
    b.finish.1 = b.policy.createFilter b.entries ++ (encodeFixed32 0 ++
      (encodeFixed32 (UInt32.ofNat (b.policy.createFilter b.entries).length) ++
        [UInt8.ofNat kFilterBaseLg])) := by
  unfold finish generateFilter
  have hlen : b.entries.length ≠ 0 := fun h => hentries (List.eq_nil_of_length_eq_zero h)
  simp only [if_pos hlen, if_neg hlen, hresult, hoffsets, foldl_putFixed32, putFixed32]
  simp

end BlockBasedFilterBlockBuilder

/-! ## No false negatives -/

/-- For a policy without false negatives, `StartBlock(o)` at non-decreasing
offsets each followed by `Add` of keys, and a finished filter block shorter
than `2 ^ 32` bytes, the reader matches every key added after `StartBlock(o)`
at `o`, and the prefix of every such key in the extractor's domain. -/
theorem blockBasedFilterBlock_no_false_negatives (policy : FilterPolicy)
    (hpolicy : policy.NoFalseNegatives) (prefixExtractor : Option SliceTransform)
    (wholeKeyFiltering : Bool) (blocks : List (UInt64 × List (List UInt8)))
    (hsorted : (blocks.map Prod.fst).Pairwise (· ≤ ·))
    (hsize : ((BlockBasedFilterBlockBuilder.create prefixExtractor policy
      wholeKeyFiltering).addBlocks blocks).finish.1.length < 2 ^ 32) :
    ∀ block ∈ blocks, ∀ key ∈ block.2,
      (BlockBasedFilterBlockReader.create prefixExtractor policy wholeKeyFiltering
        ((BlockBasedFilterBlockBuilder.create prefixExtractor policy
          wholeKeyFiltering).addBlocks blocks).finish.1).keyMayMatch key block.1 = true ∧
      ∀ extractor, prefixExtractor = some extractor → extractor.inDomain key = true →
        (BlockBasedFilterBlockReader.create prefixExtractor policy wholeKeyFiltering
          ((BlockBasedFilterBlockBuilder.create prefixExtractor policy
            wholeKeyFiltering).addBlocks blocks).finish.1).prefixMayMatch
          (extractor.transform key) block.1 = true := by
  obtain ⟨filters, hinv⟩ := (BlockBasedFilterBlockBuilder.inv_create prefixExtractor policy
    wholeKeyFiltering).addBlocks blocks hpolicy hsorted (fun _ _ => Nat.zero_le _)
  have hpolicy' : ((BlockBasedFilterBlockBuilder.create prefixExtractor policy
      wholeKeyFiltering).addBlocks blocks).policy = policy :=
    (BlockBasedFilterBlockBuilder.options_addBlocks _ _).1
  obtain ⟨filters', hfinish, hmatch⟩ := hinv.finish (hpolicy'.symm ▸ hpolicy)
  rw [hfinish] at hsize ⊢
  intro block hblock key hkey
  -- every entry `Add(key)` collects is matched at the block's offset
  have hentry : ∀ e, BlockBasedFilterBlockBuilder.AddsEntry prefixExtractor wholeKeyFiltering
      key e → (BlockBasedFilterBlockReader.create prefixExtractor policy wholeKeyFiltering
        (encodedFilterBlock filters')).mayMatch e block.1 = true := by
    intro e hadds
    obtain ⟨hj, hm⟩ := hmatch e (block.1.toNat / kFilterBase)
      (Or.inr ⟨block, hblock, rfl, key, hkey, hadds⟩)
    rw [BlockBasedFilterBlockReader.mayMatch_encodedFilterBlock _ _ _ _ hsize, dif_pos hj]
    exact hpolicy' ▸ hm
  refine ⟨?_, fun extractor hpe hin => ?_⟩
  · rw [BlockBasedFilterBlockReader.keyMayMatch_eq,
      (BlockBasedFilterBlockReader.options_create _ _ _ _).2.2]
    cases wholeKeyFiltering
    · rfl
    · rw [hentry key (Or.inl ⟨rfl, rfl⟩), Bool.or_true]
  · rw [BlockBasedFilterBlockReader.prefixMayMatch_eq,
      hentry _ (Or.inr ⟨extractor, hpe, hin, rfl⟩), Bool.or_true]

/-- Two blocks with the Bloom policy, the second one filter past an empty one. -/
theorem blockBasedFilterBlock_no_false_negatives_sample :
    (BloomFilterPolicy.mk 10 6 (by decide) (by decide)).toFilterPolicy.NoFalseNegatives ∧
      (([(0, [[1, 2, 3]]), (4096, [[4]])] : List (UInt64 × List (List UInt8))).map
        Prod.fst).Pairwise (· ≤ ·) ∧
      ((BlockBasedFilterBlockBuilder.create none
        (BloomFilterPolicy.mk 10 6 (by decide) (by decide)).toFilterPolicy true).addBlocks
          [(0, [[1, 2, 3]]), (4096, [[4]])]).finish.1.length < 2 ^ 32 ∧
      ∀ block ∈ ([(0, [[1, 2, 3]]), (4096, [[4]])] : List (UInt64 × List (List UInt8))),
        ∀ key ∈ block.2,
          (BlockBasedFilterBlockReader.create none
            (BloomFilterPolicy.mk 10 6 (by decide) (by decide)).toFilterPolicy true
            ((BlockBasedFilterBlockBuilder.create none
              (BloomFilterPolicy.mk 10 6 (by decide) (by decide)).toFilterPolicy true).addBlocks
                [(0, [[1, 2, 3]]), (4096, [[4]])]).finish.1).keyMayMatch key block.1 = true ∧
          ∀ extractor, (none : Option SliceTransform) = some extractor →
            extractor.inDomain key = true →
            (BlockBasedFilterBlockReader.create none
              (BloomFilterPolicy.mk 10 6 (by decide) (by decide)).toFilterPolicy true
              ((BlockBasedFilterBlockBuilder.create none
                (BloomFilterPolicy.mk 10 6 (by decide) (by decide)).toFilterPolicy true).addBlocks
                  [(0, [[1, 2, 3]]), (4096, [[4]])]).finish.1).prefixMayMatch
              (extractor.transform key) block.1 = true :=
  ⟨BloomFilterPolicy.noFalseNegatives _, by decide, by decide,
    blockBasedFilterBlock_no_false_negatives _ (BloomFilterPolicy.noFalseNegatives _) none true
      _ (by decide) (by decide)⟩

/-- A policy whose filters are `2 ^ 32` zero bytes and match every key but on
an empty filter. -/
def paddedFilterPolicy : FilterPolicy :=
  ⟨fun _ => List.replicate (2 ^ 32) 0, fun _ filter => !filter.isEmpty⟩

/-- With a filter of `2 ^ 32` bytes the array offset wraps to zero: the reader
takes the first filter to end where it starts, and the key it was built from
does not match. -/
theorem blockBasedFilterBlock_misses_key_past_two_pow_32 :
    paddedFilterPolicy.NoFalseNegatives ∧
      (BlockBasedFilterBlockReader.create none paddedFilterPolicy true
        ((BlockBasedFilterBlockBuilder.create none paddedFilterPolicy true).addBlocks
          [(0, [[0]])]).finish.1).keyMayMatch [0] 0 = false := by
  refine ⟨fun keys key _ => ?_, ?_⟩
  · show (!(List.replicate (2 ^ 32) (0 : UInt8)).isEmpty) = true
    rw [List.isEmpty_replicate]
    decide
  have hrun : (BlockBasedFilterBlockBuilder.create none paddedFilterPolicy true).addBlocks
      [(0, [[0]])] = ⟨paddedFilterPolicy, none, true, [[0]], [], [], []⟩ := rfl
  rw [hrun, BlockBasedFilterBlockBuilder.finish_of_first_filter _ (List.cons_ne_nil _ _) rfl rfl]
  -- the filter's length and its first two words, before it is made opaque
  have hfilter : paddedFilterPolicy.createFilter [[0]] =
      List.replicate 4 0 ++ List.replicate (2 ^ 32 - 4) 0 := by
    rw [← List.replicate_add]
    rfl
  have hlen : (paddedFilterPolicy.createFilter [[0]]).length = 2 ^ 32 := List.length_replicate
  have hdec : ∀ rest, decodeFixed32 (paddedFilterPolicy.createFilter [[0]] ++ rest) = 0 := by
    intro rest
    rw [hfilter, List.append_assoc]
    exact decodeFixed32_replicate_zero le_rfl _
  have hdec4 : ∀ rest,
      decodeFixed32 ((paddedFilterPolicy.createFilter [[0]] ++ rest).drop 4) = 0 := by
    intro rest
    rw [hfilter, List.append_assoc, List.drop_left' (by simp)]
    exact decodeFixed32_replicate_zero (by norm_num) _
  simp only [hlen]
  rw [show UInt32.ofNat (2 ^ 32) = 0 by decide]
  generalize paddedFilterPolicy.createFilter [[0]] = F at hlen hdec hdec4
  generalize hC : F ++ (encodeFixed32 0 ++ (encodeFixed32 0 ++ [UInt8.ofNat kFilterBaseLg])) = C
  -- the reader: an offset array at zero, whose first two words are both zero
  have hn : C.length = 2 ^ 32 + 9 := by
    rw [← hC]
    simp [hlen]
  have hbase : C.getD (2 ^ 32 + 9 - 1) 0 = UInt8.ofNat kFilterBaseLg := by
    rw [← hC, List.getD_append_right _ _ _ _ (by omega), hlen]
    rfl
  have hword : decodeFixed32 (C.drop (2 ^ 32 + 9 - 5)) = 0 := by
    rw [← hC, List.drop_append, List.drop_eq_nil_of_le (by omega), hlen]
    rfl
  have hcreate : BlockBasedFilterBlockReader.create none paddedFilterPolicy true C =
      ⟨paddedFilterPolicy, none, true, C, 0, (2 ^ 32 + 4) / 4, kFilterBaseLg⟩ := by
    unfold BlockBasedFilterBlockReader.create
    simp only [hn, hbase, hword, UInt32.toNat_zero]
    rw [if_neg (by norm_num), if_neg (by norm_num)]
    rfl
  have hstart : decodeFixed32 (C.drop (0 + 0 * 4)) = 0 := by
    rw [Nat.zero_mul, Nat.add_zero, List.drop_zero, ← hC]
    exact hdec _
  have hlimit : decodeFixed32 (C.drop (0 + 0 * 4 + 4)) = 0 := by
    rw [Nat.zero_mul, Nat.add_zero, ← hC]
    exact hdec4 _
  rw [hcreate, BlockBasedFilterBlockReader.keyMayMatch_eq]
  unfold BlockBasedFilterBlockReader.mayMatch
  simp only [BlockBasedFilterBlockReader.toNat_shiftRight_kFilterBaseLg, UInt64.toNat_zero,
    Nat.zero_div, hstart, hlimit]
  rw [if_pos (by norm_num), if_pos (by decide)]
  rfl

end RocksDB