import Mathlib
import RocksDB.Db.FilePicker
import RocksDB.Db.VersionBuilder
import RocksDB.Db.InternalKeyComparator
import RocksDB.Lib.BinarySearch

/-!
# The searches over the files of one level in `db/version_set.cc`

A level above 0 holds files with disjoint key ranges, sorted by key, so the
searches over it are binary searches: `FindFile` finds the first file whose
largest key is not below a key; `SomeFileOverlapsRange` looks at the one file
`FindFile` names for the smallest user key of a range, where on level 0 it tests
every file; `GetOverlappingInputs` finds one file that meets a user-key range by
`GetOverlappingInputsRangeBinarySearch`, then extends the run of files around it
(`ExtendFileRangeOverlappingInterval`), where on level 0, or without both bounds,
it tests every file and, with `expand_range`, widens the range on level 0 by each
file it takes and starts over. `GetCleanInputsWithinInterval` keeps of that run
the files within the range that share no user key with a file outside it
(`ExtendFileRangeWithinInterval`).

The results below say that on a level whose files are disjoint and sorted each
binary search answers what the plain scan answers: `FindFile` is
`List.findIdx` (`findFile_eq_findIdx`), `SomeFileOverlapsRange` agrees with its
own scan (`someFileOverlapsRange_sorted_eq_scan`), and `GetOverlappingInputs`
takes the files its loop takes, which are the files that meet the range
(`getOverlappingInputs_binarySearch_eq_scan`).

## Design notes

* A `LevelFilesBrief` copies each file's keys; the model reads the level's
  `FileMetaData` list, `VersionStorageInfo.levelFiles`, in its place, and
  `files_[level][i]` and `level_files_brief_[level].files[i]` are one file.
* The pointers the functions take become options: a missing user key
  (`nullptr`) is `none`, and so is a missing `file_index`. The inputs vector is
  the list the function returns with the new `*file_index`.
* The user comparator is a parameter `c`, a total preorder (`Std.TransCmp`),
  and the internal key comparator is `InternalKeyComparator.compare c`; the
  sample levels are compared bytewise (`bytewiseComparator`).
* `GetOverlappingInputsRangeBinarySearch` searches with
  `BinarySearch.find` on the predicates of its loop; its `(min + max) / 2`
  rounds towards zero in C++ and down in Lean, which agree because the loop
  only runs with `0 ≤ min ≤ max`.
* The loops run with fuel: the binary search and the extending loops halve or
  walk a level, so its length bounds them. The loop of `GetOverlappingInputs`
  restarts on level 0 whenever a file widens the range, which each file can do
  at most once for each end, so `overlappingInputsFuel` passes over the level
  bound it.
-/

namespace RocksDB

variable {c : Comparator} [Std.TransCmp c.compare]

/-! ## `FindFile` and `SomeFileOverlapsRange` -/

/-- `FindFile`: the first file of the level whose largest key is not below
`key`, or the number of files, which it casts to `uint32_t`. -/
def findFile (c : Comparator) (files : List FileMetaData) (key : List UInt8) : Nat :=
  (findFileInRange c files key (files.length + 1) 0 (UInt32.ofNat files.length)).toNat

/-- `AfterFile`: `userKey` lies after every key of `f`; a missing key lies
before all keys and so never after a file. -/
def afterFile (c : Comparator) (userKey : Option (List UInt8)) (f : FileMetaData) : Bool :=
  userKey.any fun u => c.compare u f.largest.userKey = .gt

/-- `BeforeFile`: `userKey` lies before every key of `f`; a missing key lies
after all keys and so never before a file. -/
def beforeFile (c : Comparator) (userKey : Option (List UInt8)) (f : FileMetaData) : Bool :=
  userKey.any fun u => c.compare u f.smallest.userKey = .lt

/-- `InternalKey::SetMinPossibleForUserKey`: the first internal key of `u`, with
the largest sequence number and the largest type. -/
def minPossibleForUserKey (u : List UInt8) : List UInt8 :=
  appendInternalKey [] ⟨u, kMaxSequenceNumber, kValueTypeForSeek⟩

/-- `SomeFileOverlapsRange`: whether some file of the level meets the user-key
range from `smallestUserKey` to `largestUserKey`. -/
def someFileOverlapsRange (c : Comparator) (disjointSortedFiles : Bool) (files : List FileMetaData)
    (smallestUserKey largestUserKey : Option (List UInt8)) : Bool :=
  if !disjointSortedFiles then
    -- need to check against all files
    files.any fun f => !(afterFile c smallestUserKey f || beforeFile c largestUserKey f)
  else
    -- binary search over the file list, for the leftmost possible internal key
    -- of the smallest user key
    let index := match smallestUserKey with
      | some u => findFile c files (minPossibleForUserKey u)
      | none => 0
    if index ≥ files.length then false
    else !beforeFile c largestUserKey (files.getD index .empty)

/-! ## The run of files that meets a range -/

/-- The probe of `GetOverlappingInputsRangeBinarySearch` that moves `min` up:
file `mid` ends before the range, or, within an interval, starts before it. -/
def rangeProbeBefore (c : Comparator) (files : List FileMetaData) (userBegin : List UInt8)
    (withinInterval : Bool) (mid : Int) : Bool :=
  let f := files.getD mid.toNat .empty
  (!withinInterval && c.compare f.largest.userKey userBegin == .lt) ||
    (withinInterval && c.compare f.smallest.userKey userBegin == .lt)

/-- The probe of `GetOverlappingInputsRangeBinarySearch` that moves `max` down:
file `mid` starts after the range, or, within an interval, ends after it. -/
def rangeProbeAfter (c : Comparator) (files : List FileMetaData) (userEnd : List UInt8)
    (withinInterval : Bool) (mid : Int) : Bool :=
  let f := files.getD mid.toNat .empty
  (!withinInterval && c.compare userEnd f.smallest.userKey == .lt) ||
    (withinInterval && c.compare userEnd f.largest.userKey == .lt)

/-- The backward loop of `ExtendFileRangeOverlappingInterval` from file `i`
down: `startIndex` moves to every file whose largest user key is not below
`userBegin`, until one is. -/
def extendStartIndex (c : Comparator) (files : List FileMetaData) (userBegin : List UInt8) :
    Nat → Int → Int
  | 0, startIndex =>
    if c.compare (files.getD 0 .empty).largest.userKey userBegin ≠ .lt then 0
    else startIndex
  | i + 1, startIndex =>
    if c.compare (files.getD (i + 1) .empty).largest.userKey userBegin ≠ .lt then
      extendStartIndex c files userBegin i (i + 1)
    else startIndex

/-- The forward loop of `ExtendFileRangeOverlappingInterval` from file `i` on,
for at most `fuel` files: `endIndex` moves to every file whose smallest user
key is not above `userEnd`, until one is. -/
def extendEndIndex (c : Comparator) (files : List FileMetaData) (userEnd : List UInt8) :
    Nat → Nat → Int → Int
  | 0, _, endIndex => endIndex
  | fuel + 1, i, endIndex =>
    if i < files.length then
      if c.compare (files.getD i .empty).smallest.userKey userEnd ≠ .gt then
        extendEndIndex c files userEnd fuel (i + 1) i
      else endIndex
    else endIndex

/-- `ExtendFileRangeOverlappingInterval`: the run of files around `midIndex`
that meet the range, as `(start_index, end_index)`. -/
def extendFileRangeOverlappingInterval (c : Comparator) (files : List FileMetaData)
    (userBegin userEnd : List UInt8) (midIndex : Nat) : Int × Int :=
  (extendStartIndex c files userBegin midIndex (midIndex + 1),
    extendEndIndex c files userEnd files.length (midIndex + 1) midIndex)

/-- The first loop of `ExtendFileRangeWithinInterval`, for at most `fuel` files:
`left` moves past files that start before `userBegin` or whose first user key
is the previous file's last. -/
def shrinkLeft (c : Comparator) (files : List FileMetaData) (userBegin : List UInt8) :
    Nat → Int → Int → Int
  | 0, left, _ => left
  | fuel + 1, left, right =>
    if left ≤ right then
      let firstKeyInRange := (files.getD left.toNat .empty).smallest.userKey
      if c.compare firstKeyInRange userBegin = .lt then
        shrinkLeft c files userBegin fuel (left + 1) right
      else if left > 0 ∧ c.compare firstKeyInRange
          (files.getD (left.toNat - 1) .empty).largest.userKey = .eq then
        -- the first user key in range overlaps with the previous file's last key
        shrinkLeft c files userBegin fuel (left + 1) right
      else left
    else left

/-- The second loop of `ExtendFileRangeWithinInterval`, for at most `fuel`
files: `right` moves back past files that end after `userEnd` or whose last
user key is the next file's first. -/
def shrinkRight (c : Comparator) (files : List FileMetaData) (userEnd : List UInt8) :
    Nat → Int → Int → Int
  | 0, _, right => right
  | fuel + 1, left, right =>
    if left ≤ right then
      let lastKeyInRange := (files.getD right.toNat .empty).largest.userKey
      if c.compare lastKeyInRange userEnd = .gt then
        shrinkRight c files userEnd fuel left (right - 1)
      else if right < (files.length : Int) - 1 ∧ c.compare lastKeyInRange
          (files.getD (right.toNat + 1) .empty).smallest.userKey = .eq then
        -- the last user key in range overlaps with the next file's first key
        shrinkRight c files userEnd fuel left (right - 1)
      else right
    else right

/-- `ExtendFileRangeWithinInterval`: the run around `midIndex`, shrunk at both
ends to a clean cut within the range. -/
def extendFileRangeWithinInterval (c : Comparator) (files : List FileMetaData) (userBegin userEnd : List UInt8)
    (midIndex : Nat) : Int × Int :=
  let (startIndex, endIndex) := extendFileRangeOverlappingInterval c files userBegin userEnd midIndex
  let left := shrinkLeft c files userBegin (files.length + 1) startIndex endIndex
  let right := shrinkRight c files userEnd (files.length + 1) left endIndex
  (left, right)

/-- The files `start_index` to `end_index`, both included. -/
def filesBetween (files : List FileMetaData) (startIndex endIndex : Int) : List FileMetaData :=
  (files.drop startIndex.toNat).take (endIndex + 1 - startIndex).toNat

/-- The file `GetOverlappingInputsRangeBinarySearch` extends from: `hintIndex`
when the caller already knows a file that overlaps, else the first file its
binary search finds, if any. -/
def findOverlappingFile (c : Comparator) (files : List FileMetaData) (userBegin userEnd : List UInt8)
    (hintIndex : Int) (withinInterval : Bool) : Option Int :=
  if hintIndex ≠ -1 then some hintIndex
  else BinarySearch.find (fun mid => rangeProbeBefore c files userBegin withinInterval mid)
    (fun mid => rangeProbeAfter c files userEnd withinInterval mid) files.length 0
    ((files.length : Int) - 1)

/-- `GetOverlappingInputsRangeBinarySearch`: the run of files around a file that
meets the range, appended to `inputs`; `fileIndex` is set to the file found. -/
def getOverlappingInputsRangeBinarySearch (c : Comparator) (files : List FileMetaData)
    (userBegin userEnd : List UInt8) (inputs : List FileMetaData) (hintIndex : Int)
    (fileIndex : Option Int) (withinInterval : Bool) : List FileMetaData × Option Int :=
  match findOverlappingFile c files userBegin userEnd hintIndex withinInterval with
  | none => (inputs, fileIndex)  -- no overlapping files
  | some mid =>
    let (startIndex, endIndex) :=
      if withinInterval then extendFileRangeWithinInterval c files userBegin userEnd mid.toNat
      else extendFileRangeOverlappingInterval c files userBegin userEnd mid.toNat
    (inputs ++ filesBetween files startIndex endIndex, fileIndex.map fun _ => mid)

/-- The loop of `GetOverlappingInputs` from file `i`, for at most `fuel` files:
it takes every file that meets the range; on level 0 with `expandRange`, a file
that widens the range restarts the loop from the first file with the wider
range, and elsewhere `fileIndex` moves to the last file taken. -/
def overlappingInputsLoop (c : Comparator) (files : List FileMetaData) (level : Nat) (expandRange : Bool) :
    Nat → Nat → Option (List UInt8) → Option (List UInt8) → List FileMetaData → Option Int →
      List FileMetaData × Option Int
  | 0, _, _, _, inputs, fileIndex => (inputs, fileIndex)
  | fuel + 1, i, userBegin, userEnd, inputs, fileIndex =>
    if i < files.length then
      let f := files.getD i .empty
      let fileStart := f.smallest.userKey
      let fileLimit := f.largest.userKey
      if userBegin.any fun u => c.compare fileLimit u = .lt then
        -- `f` is completely before the range
        overlappingInputsLoop c files level expandRange fuel (i + 1) userBegin userEnd inputs
          fileIndex
      else if userEnd.any fun u => c.compare fileStart u = .gt then
        -- `f` is completely after the range
        overlappingInputsLoop c files level expandRange fuel (i + 1) userBegin userEnd inputs
          fileIndex
      else if level = 0 ∧ expandRange then
        -- level-0 files may overlap each other: a file that widens the range
        -- restarts the search
        if userBegin.any fun u => c.compare fileStart u = .lt then
          overlappingInputsLoop c files level expandRange fuel 0 (some fileStart) userEnd []
            fileIndex
        else if userEnd.any fun u => c.compare fileLimit u = .gt then
          overlappingInputsLoop c files level expandRange fuel 0 userBegin (some fileLimit) []
            fileIndex
        else
          overlappingInputsLoop c files level expandRange fuel (i + 1) userBegin userEnd
            (inputs ++ [f]) fileIndex
      else
        overlappingInputsLoop c files level expandRange fuel (i + 1) userBegin userEnd
          (inputs ++ [f]) (fileIndex.map fun _ => (i : Int))
    else (inputs, fileIndex)

/-- Passes over a level of `n` files enough for the loop of
`GetOverlappingInputs`: one, and one more for each time a file widens either end
of the range. -/
def overlappingInputsFuel (n : Nat) : Nat := (2 * n + 1) * (n + 1)

/-- The test of the loop of `GetOverlappingInputs`: `f` is neither wholly
before `userBegin` nor wholly after `userEnd`; a missing bound tests nothing. -/
def overlapsRange (c : Comparator) (userBegin userEnd : Option (List UInt8)) (f : FileMetaData) : Bool :=
  !(userBegin.any fun u => c.compare f.largest.userKey u = .lt) &&
    !(userEnd.any fun u => c.compare f.smallest.userKey u = .gt)

namespace VersionStorageInfo

/-- `OverlapInLevel`: the files of the levels above 0 are disjoint and sorted. -/
def overlapInLevel (c : Comparator) (v : VersionStorageInfo) (level : Nat)
    (smallestUserKey largestUserKey : Option (List UInt8)) : Bool :=
  if level ≥ numNonEmptyLevels v.files then false  -- empty level, no overlap
  else someFileOverlapsRange c (decide (level > 0)) (v.levelFiles level) smallestUserKey
    largestUserKey

/-- `GetOverlappingInputs`: the files of `level` that meet `[begin, end]`, and
`*file_index`; an empty level leaves both as they were. -/
def getOverlappingInputs (c : Comparator) (v : VersionStorageInfo) (level : Nat)
    (beginKey endKey : Option InternalKey) (inputs : List FileMetaData) (hintIndex : Int)
    (fileIndex : Option Int) (expandRange : Bool) : List FileMetaData × Option Int :=
  if level ≥ numNonEmptyLevels v.files then (inputs, fileIndex)
  else
    let files := v.levelFiles level
    let userBegin := beginKey.map InternalKey.userKey
    let userEnd := endKey.map InternalKey.userKey
    let fileIndex := fileIndex.map fun _ => -1
    let scan := overlappingInputsLoop c files level expandRange
      (overlappingInputsFuel files.length) 0 userBegin userEnd [] fileIndex
    match userBegin, userEnd with
    | some ub, some ue =>
      if level > 0 then getOverlappingInputsRangeBinarySearch c files ub ue [] hintIndex fileIndex false
      else scan
    | _, _ => scan

/-- `GetCleanInputsWithinInterval`: the files of `level` within `[begin, end]`
with a clean cut to the files around them, and `*file_index`; a missing bound
is the level's first or last user key. -/
def getCleanInputsWithinInterval (c : Comparator) (v : VersionStorageInfo) (level : Nat)
    (beginKey endKey : Option InternalKey) (hintIndex : Int) (fileIndex : Option Int) :
    List FileMetaData × Option Int :=
  let fileIndex := fileIndex.map fun _ => -1
  let files := v.levelFiles level
  if level ≥ numNonEmptyLevels v.files ∨ level = 0 ∨ files.length = 0 then ([], fileIndex)
  else
    let userBegin := match beginKey with
      | some b => b.userKey
      | none => (files.getD 0 .empty).smallest.userKey
    let userEnd := match endKey with
      | some e => e.userKey
      | none => (files.getD (files.length - 1) .empty).largest.userKey
    getOverlappingInputsRangeBinarySearch c files userBegin userEnd [] hintIndex fileIndex true

end VersionStorageInfo

/-! ## Levels of disjoint sorted files -/

/-- The files of a level above 0 as `VersionStorageInfo` keeps them: each
file's smallest key is not above its largest, and each file ends below where
the next one starts, in the internal key order. Neighbouring files may share a
user key. -/
structure DisjointSorted (c : Comparator) (files : List FileMetaData) : Prop where
  smallest_le_largest : ∀ i (hi : i < files.length),
    InternalKeyComparator.compare c files[i].smallest.rep files[i].largest.rep ≠ .gt
  largest_lt_smallest : ∀ i (hi : i < files.length - 1),
    InternalKeyComparator.compare c files[i].largest.rep files[i + 1].smallest.rep = .lt

/-- The boundary keys of a level in order: the smallest key of file `k / 2`
for even `k`, its largest for odd `k`. -/
def levelBoundaryKey (files : List FileMetaData) (k : Nat) : List UInt8 :=
  if k % 2 = 0 then (files.getD (k / 2) .empty).smallest.rep
  else (files.getD (k / 2) .empty).largest.rep

theorem levelBoundaryKey_smallest (files : List FileMetaData) (i : Nat) :
    levelBoundaryKey files (2 * i) = (files.getD i .empty).smallest.rep := by
  rw [levelBoundaryKey, if_pos (by omega), Nat.mul_div_cancel_left i (by decide)]

theorem levelBoundaryKey_largest (files : List FileMetaData) (i : Nat) :
    levelBoundaryKey files (2 * i + 1) = (files.getD i .empty).largest.rep := by
  rw [levelBoundaryKey, if_neg (by omega), show (2 * i + 1) / 2 = i by omega]

namespace DisjointSorted

open CmpOrder

variable {files : List FileMetaData}

omit [Std.TransCmp c.compare] in
/-- Neighbouring boundary keys are in order. -/
theorem levelBoundaryKey_le_succ (hs : DisjointSorted c files) {k : Nat}
    (hk : k + 1 < 2 * files.length) :
    Le (InternalKeyComparator.compare c) (levelBoundaryKey files k) (levelBoundaryKey files (k + 1)) := by
  rcases Nat.even_or_odd' k with ⟨m, rfl | rfl⟩
  · -- from the smallest key of file `m` to its largest
    rw [levelBoundaryKey_smallest, levelBoundaryKey_largest, List.getD_eq_getElem _ _ (by omega)]
    exact hs.smallest_le_largest m (by omega)
  · -- from the largest key of file `m` to the smallest of file `m + 1`
    rw [levelBoundaryKey_largest, show 2 * m + 1 + 1 = 2 * (m + 1) by omega, levelBoundaryKey_smallest,
      List.getD_eq_getElem _ _ (by omega), List.getD_eq_getElem _ _ (by omega),
      Le, hs.largest_lt_smallest m (by omega)]
    decide

/-- The boundary keys of a level ascend. -/
theorem levelBoundaryKey_le (hs : DisjointSorted c files) {k l : Nat} (hkl : k ≤ l)
    (hl : l < 2 * files.length) :
    Le (InternalKeyComparator.compare c) (levelBoundaryKey files k) (levelBoundaryKey files l) :=
  @le_of_le_succ _ (InternalKeyComparator.compare c) _ (levelBoundaryKey files) (2 * files.length - 1)
    (fun _ hj => hs.levelBoundaryKey_le_succ (by omega)) k l hkl (by omega)

theorem largest_le_largest (hs : DisjointSorted c files) {i j : Nat} (hij : i ≤ j)
    (hj : j < files.length) :
    Le (InternalKeyComparator.compare c) (files.getD i .empty).largest.rep (files.getD j .empty).largest.rep := by
  rw [← levelBoundaryKey_largest, ← levelBoundaryKey_largest]
  exact hs.levelBoundaryKey_le (by omega) (by omega)

/-- The largest user keys of a level ascend. -/
theorem limit_le_limit (hs : DisjointSorted c files) {i j : Nat} (hij : i ≤ j)
    (hj : j < files.length) :
    Le c.compare (files.getD i .empty).largest.userKey (files.getD j .empty).largest.userKey :=
  InternalKeyComparator.userKey_ne_gt_of_ne_gt (hs.largest_le_largest hij hj)

/-- The smallest user keys of a level ascend. -/
theorem start_le_start (hs : DisjointSorted c files) {i j : Nat} (hij : i ≤ j)
    (hj : j < files.length) :
    Le c.compare (files.getD i .empty).smallest.userKey
      (files.getD j .empty).smallest.userKey := by
  apply InternalKeyComparator.userKey_ne_gt_of_ne_gt
  rw [← levelBoundaryKey_smallest, ← levelBoundaryKey_smallest]
  exact hs.levelBoundaryKey_le (by omega) (by omega)

/-- Each file's smallest user key is not above its largest. -/
theorem start_le_limit (hs : DisjointSorted c files) {i : Nat} (hi : i < files.length) :
    Le c.compare (files.getD i .empty).smallest.userKey
      (files.getD i .empty).largest.userKey := by
  apply InternalKeyComparator.userKey_ne_gt_of_ne_gt
  rw [← levelBoundaryKey_smallest, ← levelBoundaryKey_largest]
  exact hs.levelBoundaryKey_le (by omega) (by omega)

end DisjointSorted

/-- The levels from `num_non_empty_levels_` on are empty. -/
theorem levelFiles_eq_nil_of_numNonEmptyLevels_le {v : VersionStorageInfo} {level : Nat}
    (h : numNonEmptyLevels v.files ≤ level) : v.levelFiles level = [] := by
  unfold numNonEmptyLevels at h
  unfold VersionStorageInfo.levelFiles
  by_cases hl : level < v.files.length
  · rw [List.getD_eq_getElem _ _ hl]
    have ht : v.files.length - 1 - level < (v.files.reverse.takeWhile List.isEmpty).length := by
      omega
    -- the level sits in the run of empty levels at the end
    have hempty := List.mem_takeWhile_imp (List.getElem_mem ht)
    rw [(List.takeWhile_prefix _).getElem ht, List.getElem_reverse] at hempty
    have hidx : v.files.length - 1 - (v.files.length - 1 - level) = level := by omega
    simp only [hidx, List.isEmpty_iff] at hempty
    exact hempty
  · exact List.getD_eq_default _ _ (by omega)

/-- Level 1 holds file 1 from `a@3` to `b@9`, file 2 from `b@7` to `d@1`, which
shares the user key `b` with file 1, and file 3 from `f@2` to `g@2`. -/
def sharedBoundaryLevels : List (List FileMetaData) :=
  [[], [sampleFile 1 (boundaryKey [97] 3) (boundaryKey [98] 9),
        sampleFile 2 (boundaryKey [98] 7) (boundaryKey [100] 1),
        sampleFile 3 (boundaryKey [102] 2) (boundaryKey [103] 2)]]

theorem disjointSorted_sharedBoundaryLevels :
    DisjointSorted bytewiseComparator (VersionStorageInfo.levelFiles ⟨sharedBoundaryLevels⟩ 1) :=
  ⟨by decide, by decide⟩

/-! ## `FindFile` is the first file not below the key -/

omit [Std.TransCmp c.compare] in
/-- While `right` stays below `2^31`, the `uint32_t` sum `left + right` does not wrap,
and `FindFileInRange` is the binary search on numbers. -/
theorem findFileInRange_toNat (files : List FileMetaData) (key : List UInt8) (fuel : Nat)
    (left right : UInt32) (hright : right.toNat < 2 ^ 31) :
    (findFileInRange c files key fuel left right).toNat =
      BinarySearch.lowerBound
        (fun i => !decide (InternalKeyComparator.compare c (files.getD i .empty).largest.rep key ≠ .lt))
        fuel left.toNat right.toNat := by
  induction fuel generalizing left right with
  | zero => rfl
  | succ fuel ih =>
    unfold findFileInRange BinarySearch.lowerBound
    by_cases hlt : left < right
    · have hlt' : left.toNat < right.toNat := UInt32.lt_iff_toNat_lt.mp hlt
      -- both bounds are below `2^31`, so their sum fits in 32 bits
      have hmid : ((left + right) / 2).toNat = (left.toNat + right.toNat) / 2 := by
        rw [UInt32.toNat_div, UInt32.toNat_add, Nat.mod_eq_of_lt (by omega)]
        rfl
      have hsucc : ((left + right) / 2 + 1).toNat = (left.toNat + right.toNat) / 2 + 1 := by
        rw [UInt32.toNat_add, hmid, UInt32.toNat_one, Nat.mod_eq_of_lt (by omega)]
      rw [if_pos hlt, if_pos hlt']
      dsimp only
      rw [hmid]
      by_cases hcmp : InternalKeyComparator.compare c
          (files.getD ((left.toNat + right.toNat) / 2) .empty).largest.rep key = .lt
      · rw [if_pos hcmp, if_pos (by rw [hcmp]; decide), ih _ _ hright, hsucc]
      · rw [if_neg hcmp, if_neg (by rw [decide_eq_true hcmp]; decide), ih _ _ (by omega), hmid]
    · rw [if_neg hlt, if_neg (fun h => hlt (UInt32.lt_iff_toNat_lt.mpr h))]

omit [Std.TransCmp c.compare] in
/-- On a level of fewer than `2^31` files, the cast of the number of files keeps it and
`FindFile` is the binary search over the level. -/
theorem findFile_eq_lowerBound {files : List FileMetaData} (hlen : files.length < 2 ^ 31)
    (key : List UInt8) :
    findFile c files key =
      BinarySearch.lowerBound
        (fun i => !decide (InternalKeyComparator.compare c (files.getD i .empty).largest.rep key ≠ .lt))
        (files.length + 1) 0 files.length := by
  have hn : (UInt32.ofNat files.length).toNat = files.length := by
    rw [UInt32.toNat_ofNat', Nat.mod_eq_of_lt (by omega)]
  rw [findFile, findFileInRange_toNat _ _ _ _ _ (by rw [hn]; exact hlen), hn, UInt32.toNat_zero]

/-- On a level of disjoint sorted files `FindFile` returns the index of the
first file whose largest internal key is not below `key`, or the number of
files when there is none. -/
theorem findFile_eq_findIdx {files : List FileMetaData} (hs : DisjointSorted c files)
    (hlen : files.length < 2 ^ 31) (key : List UInt8) :
    findFile c files key = files.findIdx fun f => decide (InternalKeyComparator.compare c f.largest.rep key ≠ .lt) := by
  -- a file at or after one that is not below `key` is not below it either
  have hmono : ∀ i j (hij : i ≤ j) (hj : j < files.length),
      decide (InternalKeyComparator.compare c files[i].largest.rep key ≠ .lt) = true →
        decide (InternalKeyComparator.compare c files[j].largest.rep key ≠ .lt) = true := by
    intro i j hij hj hi
    have hle := hs.largest_le_largest hij hj
    rw [List.getD_eq_getElem _ _ (by omega), List.getD_eq_getElem _ _ hj] at hle
    simp only [ne_eq, decide_eq_true_eq] at hi ⊢
    exact fun hlt => hi (Std.TransCmp.lt_of_le_of_lt hle hlt)
  rw [findFile_eq_lowerBound hlen]
  exact @BinarySearch.lowerBound_eq_findIdx _ files
    (fun f => decide (InternalKeyComparator.compare c f.largest.rep key ≠ .lt)) FileMetaData.empty hmono _
    (Nat.le_succ _)

/-- The first file of the sample level not below the first key of `b` is file 1,
which ends at `b@9`. -/
theorem findFile_eq_findIdx_shared_boundary :
    findFile bytewiseComparator (VersionStorageInfo.levelFiles ⟨sharedBoundaryLevels⟩ 1) (minPossibleForUserKey [98]) =
      (VersionStorageInfo.levelFiles ⟨sharedBoundaryLevels⟩ 1).findIdx
        (fun f => decide (InternalKeyComparator.compare bytewiseComparator f.largest.rep (minPossibleForUserKey [98]) ≠ .lt)) ∧
    findFile bytewiseComparator (VersionStorageInfo.levelFiles ⟨sharedBoundaryLevels⟩ 1)
      (minPossibleForUserKey [98]) = 0 :=
  ⟨findFile_eq_findIdx disjointSorted_sharedBoundaryLevels (by decide) _, by decide⟩

/-- `FindFile` on a sorted level as an interval: every file before it ends below
`key`, and no file from it on does. -/
theorem findFile_lowerInv {files : List FileMetaData} (hs : DisjointSorted c files)
    (hlen : files.length < 2 ^ 31) (key : List UInt8) :
    BinarySearch.LowerInv
      (fun i => !decide (InternalKeyComparator.compare c (files.getD i .empty).largest.rep key ≠ .lt))
      files.length (findFile c files key) (findFile c files key) := by
  have hprefix : BinarySearch.PassesOnPrefix
      (fun i => !decide (InternalKeyComparator.compare c (files.getD i .empty).largest.rep key ≠ .lt))
      files.length := by
    intro i j hij hj hlt
    simp only [ne_eq, decide_not, Bool.not_not, decide_eq_true_eq] at hlt ⊢
    exact Std.TransCmp.lt_of_le_of_lt (hs.largest_le_largest hij hj) hlt
  rw [findFile_eq_lowerBound hlen]
  exact BinarySearch.lowerBound_inv hprefix _ 0 files.length (BinarySearch.lowerInv_init _)
    (by omega)

/-! ## `SomeFileOverlapsRange` agrees with its scan -/

/-- The facts `ParseInternalKey` checks of what it accepts: a sequence number of
56 bits and an extended value type. -/
theorem parseInternalKey_bounds {k : List UInt8} {p : ParsedInternalKey (List UInt8)}
    (h : parseInternalKey k = some p) :
    p.sequence ≤ kMaxSequenceNumber ∧ ValueType.IsExtendedValueType p.type = true := by
  simp only [parseInternalKey] at h
  split_ifs at h with hlen
  split at h
  · split_ifs at h with hext
    cases h
    have hlt := UInt64.toNat_lt (decodeFixed64 (k.drop (k.length - 8)))
    refine ⟨?_, hext⟩
    dsimp only
    unfold kMaxSequenceNumber
    omega
  · cases h

/-- A valid internal key never lies below the first internal key of its own user
key, so it lies below the first internal key of `u` exactly when its user key
lies below `u`. -/
theorem compare_minPossibleForUserKey {k : InternalKey} (hk : k.valid = true)
    (u : List UInt8) :
    InternalKeyComparator.compare c k.rep (minPossibleForUserKey u) = .lt ↔
      c.compare u k.userKey = .gt := by
  obtain ⟨p, hp⟩ := Option.isSome_iff_exists.mp hk
  obtain ⟨hseq, htype⟩ := parseInternalKey_bounds hp
  -- the type byte of an extended value type is at most that of `kValueTypeForSeek`
  have htb : p.type.toUInt8.toNat ≤ kValueTypeForSeek.toUInt8.toNat := by
    revert htype
    cases p.type <;> decide
  have hfk := InternalKeyComparator.footer_appendInternalKey_eq p hseq
  have hfm := InternalKeyComparator.footer_appendInternalKey_eq
    ⟨u, kMaxSequenceNumber, kValueTypeForSeek⟩ le_rfl
  rw [InternalKey.userKey, ← appendInternalKey_parseInternalKey hp,
    InternalKeyComparator.compare_eq_then, minPossibleForUserKey, extractUserKey_appendInternalKey,
    extractUserKey_appendInternalKey, hfk, hfm, Std.OrientedCmp.gt_iff_lt]
  cases c.compare p.userKey u with
  | lt => simp
  | gt => simp
  | eq =>
    -- the footer of the first key of a user key is the largest one
    have hfoot : ¬kMaxSequenceNumber * 256 + kValueTypeForSeek.toUInt8.toNat <
        p.sequence * 256 + p.type.toUInt8.toNat := by omega
    simp only [Ordering.eq_then, reduceCtorEq, iff_false]
    exact fun h => hfoot (Nat.compare_eq_lt.mp h)

omit [Std.TransCmp c.compare] in
/-- The scan of `SomeFileOverlapsRange`: some file lies neither after nor
before the range. -/
theorem someFileOverlapsRange_scan_iff (files : List FileMetaData)
    (smallestUserKey largestUserKey : Option (List UInt8)) :
    someFileOverlapsRange c false files smallestUserKey largestUserKey = true ↔
      ∃ j, j < files.length ∧ ¬afterFile c smallestUserKey (files.getD j .empty) = true ∧
        ¬beforeFile c largestUserKey (files.getD j .empty) = true := by
  simp only [someFileOverlapsRange, Bool.not_false, if_true, List.any_eq_true,
    List.mem_iff_getElem]
  constructor
  · rintro ⟨_, ⟨j, hj, rfl⟩, h⟩
    refine ⟨j, hj, ?_⟩
    rw [List.getD_eq_getElem _ _ hj]
    simpa using h
  · rintro ⟨j, hj, h⟩
    rw [List.getD_eq_getElem _ _ hj] at h
    exact ⟨_, ⟨j, hj, rfl⟩, by simpa using h⟩

/-- On a sorted level a key before one file is before every later file. -/
theorem DisjointSorted.beforeFile_mono {files : List FileMetaData} (hs : DisjointSorted c files)
    (userKey : Option (List UInt8)) {i j : Nat} (hij : i ≤ j) (hj : j < files.length)
    (h : beforeFile c userKey (files.getD i .empty) = true) :
    beforeFile c userKey (files.getD j .empty) = true := by
  cases userKey with
  | none => simp [beforeFile] at h
  | some u =>
    simp only [beforeFile, Option.any_some, decide_eq_true_eq] at h ⊢
    exact Std.TransCmp.lt_of_lt_of_le h (hs.start_le_start hij hj)

/-- On a sorted level whose largest keys are valid, the file the binary search
of `SomeFileOverlapsRange` looks at is the first that `smallestUserKey` does not
lie after. -/
theorem someFileOverlapsRange_sorted_index {files : List FileMetaData}
    (hs : DisjointSorted c files) (hlen : files.length < 2 ^ 31)
    (hvalid : ∀ f ∈ files, f.largest.valid = true) (smallestUserKey largestUserKey : Option (List UInt8)) :
    ∃ i, (∀ j, j < i → afterFile c smallestUserKey (files.getD j .empty) = true) ∧
      (i < files.length → ¬afterFile c smallestUserKey (files.getD i .empty) = true) ∧
      someFileOverlapsRange c true files smallestUserKey largestUserKey =
        (decide (i < files.length) && !beforeFile c largestUserKey (files.getD i .empty)) := by
  cases smallestUserKey with
  | none =>
    -- without a smallest key the search starts at the first file
    refine ⟨0, fun j hj => absurd hj (Nat.not_lt_zero j), fun _ => by simp [afterFile], ?_⟩
    cases files with
    | nil => rfl
    | cons f rest => simp [someFileOverlapsRange]
  | some u =>
    obtain ⟨-, hle, hbelow, habove⟩ := findFile_lowerInv hs hlen (minPossibleForUserKey u)
    -- a file whose largest key is valid ends below the first key of `u` exactly
    -- when `u` lies after it
    have hafter : ∀ j, j < files.length →
        (InternalKeyComparator.compare c (files.getD j .empty).largest.rep (minPossibleForUserKey u) = .lt ↔
          afterFile c (some u) (files.getD j .empty) = true) := by
      intro j hj
      rw [afterFile, Option.any_some, decide_eq_true_iff,
        compare_minPossibleForUserKey
          (hvalid _ (by rw [List.getD_eq_getElem _ _ hj]; exact List.getElem_mem hj))]
    refine ⟨findFile c files (minPossibleForUserKey u), fun j hj => ?_, fun hi => ?_, ?_⟩
    · have := hbelow j hj
      simp only [ne_eq, decide_not, Bool.not_not, decide_eq_true_eq] at this
      exact (hafter j (by omega)).mp this
    · have := habove _ le_rfl hi
      simp only [ne_eq, decide_not, Bool.not_not, decide_eq_false_iff_not] at this
      exact fun h => this ((hafter _ hi).mpr h)
    · by_cases hi : findFile c files (minPossibleForUserKey u) < files.length <;>
        simp [someFileOverlapsRange, hi]

/-- On a level whose files are disjoint and sorted and whose largest keys are
valid, the binary search of `SomeFileOverlapsRange` answers what its scan of
every file answers, for every pair of optional user-key bounds. -/
theorem someFileOverlapsRange_sorted_eq_scan {files : List FileMetaData}
    (hs : DisjointSorted c files) (hlen : files.length < 2 ^ 31)
    (hvalid : ∀ f ∈ files, f.largest.valid = true)
    (smallestUserKey largestUserKey : Option (List UInt8)) :
    someFileOverlapsRange c true files smallestUserKey largestUserKey =
      someFileOverlapsRange c false files smallestUserKey largestUserKey := by
  obtain ⟨i, hbelow, hfirst, heq⟩ :=
    someFileOverlapsRange_sorted_index hs hlen hvalid smallestUserKey largestUserKey
  -- a file the range meets lies between the files it is after and those it is before
  have hbetween := BinarySearch.exists_between_iff hbelow hfirst
    (fun j k hjk hk => hs.beforeFile_mono largestUserKey hjk hk)
  rw [Bool.eq_iff_iff, someFileOverlapsRange_scan_iff, hbetween, heq]
  simp

/-- `[c, e]` meets file 2 of the sample level, from `b@7` to `d@1`. -/
theorem someFileOverlapsRange_sorted_eq_scan_shared_boundary :
    someFileOverlapsRange bytewiseComparator true (VersionStorageInfo.levelFiles ⟨sharedBoundaryLevels⟩ 1)
        (some [99]) (some [101]) =
      someFileOverlapsRange bytewiseComparator false (VersionStorageInfo.levelFiles ⟨sharedBoundaryLevels⟩ 1)
        (some [99]) (some [101]) ∧
    someFileOverlapsRange bytewiseComparator true (VersionStorageInfo.levelFiles ⟨sharedBoundaryLevels⟩ 1)
      (some [99]) (some [101]) = true :=
  ⟨someFileOverlapsRange_sorted_eq_scan disjointSorted_sharedBoundaryLevels (by decide) (by decide)
      _ _,
    by decide⟩

/-! ## `GetOverlappingInputs` on a sorted level -/

omit [Std.TransCmp c.compare] in
/-- Where the range never widens, the loop of `GetOverlappingInputs` appends the
files from `i` on that meet the range. -/
theorem overlappingInputsLoop_fst (files : List FileMetaData) {level : Nat} {expandRange : Bool}
    (hfixed : ¬(level = 0 ∧ expandRange = true)) (userBegin userEnd : Option (List UInt8)) :
    ∀ fuel i inputs fileIndex, files.length - i < fuel →
      (overlappingInputsLoop c files level expandRange fuel i userBegin userEnd inputs
        fileIndex).1 = inputs ++ (files.drop i).filter (overlapsRange c userBegin userEnd) := by
  intro fuel
  induction fuel with
  | zero => intro i inputs fileIndex hfuel; omega
  | succ fuel ih =>
    intro i inputs fileIndex hfuel
    by_cases hi : i < files.length
    · rw [overlappingInputsLoop, if_pos hi, List.drop_eq_getElem_cons hi,
        List.getD_eq_getElem _ _ hi]
      dsimp only
      rw [if_neg hfixed]
      split_ifs with hb he
      · -- `f` is completely before the range
        rw [ih _ _ _ (by omega), List.filter_cons_of_neg (by simp [overlapsRange, hb])]
      · -- `f` is completely after the range
        rw [ih _ _ _ (by omega), List.filter_cons_of_neg (by simp [overlapsRange, he])]
      · rw [ih _ _ _ (by omega), List.filter_cons_of_pos (by simp [overlapsRange, hb, he]),
          List.append_assoc, List.singleton_append]
    · rw [overlappingInputsLoop, if_neg hi, List.drop_eq_nil_of_le (by omega)]
      simp

/-- The last file from `i` on that meets the range, if any. -/
def lastOverlappingFrom (c : Comparator) (files : List FileMetaData) (userBegin userEnd : Option (List UInt8))
    (i : Nat) : Option Nat :=
  ((List.range' i (files.length - i)).filter fun j =>
    overlapsRange c userBegin userEnd (files.getD j .empty)).getLast?

omit [Std.TransCmp c.compare] in
theorem lastOverlappingFrom_of_le {files : List FileMetaData} {i : Nat} (hi : files.length ≤ i)
    (userBegin userEnd : Option (List UInt8)) :
    lastOverlappingFrom c files userBegin userEnd i = none := by
  rw [lastOverlappingFrom, Nat.sub_eq_zero_of_le hi]
  rfl

omit [Std.TransCmp c.compare] in
/-- From a file that meets the range, the last such file is the last one after
it, or itself. -/
theorem lastOverlappingFrom_of_lt {files : List FileMetaData} {i : Nat} (hi : i < files.length)
    (userBegin userEnd : Option (List UInt8)) :
    lastOverlappingFrom c files userBegin userEnd i =
      if overlapsRange c userBegin userEnd files[i] then
        some ((lastOverlappingFrom c files userBegin userEnd (i + 1)).getD i)
      else lastOverlappingFrom c files userBegin userEnd (i + 1) := by
  rw [lastOverlappingFrom, show files.length - i = files.length - (i + 1) + 1 by omega,
    List.range'_succ, List.filter_cons, List.getD_eq_getElem _ _ hi]
  split
  · rw [List.getLast?_cons]
    rfl
  · rfl

omit [Std.TransCmp c.compare] in
/-- Where the range never widens, the loop of `GetOverlappingInputs` moves
`fileIndex` to the last file from `i` on that meets the range, and leaves it
where no file does. -/
theorem overlappingInputsLoop_snd (files : List FileMetaData) {level : Nat} {expandRange : Bool}
    (hfixed : ¬(level = 0 ∧ expandRange = true)) (userBegin userEnd : Option (List UInt8)) :
    ∀ fuel i inputs fileIndex, files.length - i < fuel →
      (overlappingInputsLoop c files level expandRange fuel i userBegin userEnd inputs
        fileIndex).2 =
          fileIndex.map fun k =>
            ((lastOverlappingFrom c files userBegin userEnd i).map fun j : Nat => (j : Int)).getD k := by
  intro fuel
  induction fuel with
  | zero => intro i inputs fileIndex hfuel; omega
  | succ fuel ih =>
    intro i inputs fileIndex hfuel
    by_cases hi : i < files.length
    · rw [overlappingInputsLoop, if_pos hi, List.getD_eq_getElem _ _ hi]
      dsimp only
      rw [if_neg hfixed]
      split_ifs with hb he
      · -- `f` is completely before the range
        rw [ih (i + 1) _ _ (by omega), lastOverlappingFrom_of_lt hi,
          if_neg (by simp [overlapsRange, hb])]
      · -- `f` is completely after the range
        rw [ih (i + 1) _ _ (by omega), lastOverlappingFrom_of_lt hi,
          if_neg (by simp [overlapsRange, he])]
      · -- `f` is taken and `fileIndex` moves to it
        rw [ih (i + 1) _ _ (by omega), lastOverlappingFrom_of_lt hi,
          if_pos (by simp [overlapsRange, hb, he])]
        cases fileIndex with
        | none => rfl
        | some k =>
          cases lastOverlappingFrom c files userBegin userEnd (i + 1) <;> rfl
    · rw [overlappingInputsLoop, if_neg hi, lastOverlappingFrom_of_le (by omega)]
      cases fileIndex <;> rfl

section RangeSearch

variable {files : List FileMetaData} {ub ue : List UInt8}

omit [Std.TransCmp c.compare] in
/-- The backward loop of `ExtendFileRangeOverlappingInterval` stops at a file
that ends before the range. -/
theorem extendStartIndex_stop {i : Nat}
    (h : c.compare (files.getD i .empty).largest.userKey ub = .lt) (s : Int) :
    extendStartIndex c files ub i s = s := by
  cases i with
  | zero => rw [extendStartIndex, if_neg (not_not.mpr h)]
  | succ i => rw [extendStartIndex, if_neg (not_not.mpr h)]

omit [Std.TransCmp c.compare] in
/-- When the files before `a` end before the range and the files from `a` on do
not, the backward loop from a file at or after `a` ends at `a`. -/
theorem extendStartIndex_eq {a : Nat}
    (hbefore : ∀ j, j < a → c.compare (files.getD j .empty).largest.userKey ub = .lt)
    (hafter : ∀ j, a ≤ j → j < files.length →
      c.compare (files.getD j .empty).largest.userKey ub ≠ .lt) :
    ∀ i, a ≤ i → i < files.length → ∀ s, extendStartIndex c files ub i s = a := by
  intro i
  induction i with
  | zero =>
    intro ha hi s
    rw [extendStartIndex, if_pos (hafter 0 ha hi)]
    omega
  | succ i ih =>
    intro ha hi s
    rw [extendStartIndex, if_pos (hafter (i + 1) ha hi)]
    rcases Nat.lt_or_ge i a with hia | hia
    · -- file `i` ends before the range: the loop stops with `i + 1 = a`
      obtain rfl : a = i + 1 := by omega
      rw [extendStartIndex_stop (hbefore i hia)]
      push_cast
      rfl
    · exact ih hia (by omega) _

omit [Std.TransCmp c.compare] in
/-- When the files before `b` start within the range and the files from `b` on
do not, the forward loop from a file before `b` ends at `b - 1`. -/
theorem extendEndIndex_eq {b : Nat} (hb : b ≤ files.length)
    (hin : ∀ j, j < b → c.compare (files.getD j .empty).smallest.userKey ue ≠ .gt)
    (hout : ∀ j, b ≤ j → j < files.length →
      c.compare (files.getD j .empty).smallest.userKey ue = .gt) :
    ∀ (fuel i : Nat) (e : Int), e + 1 = i → i ≤ b → b - i < fuel →
      extendEndIndex c files ue fuel i e = (b : Int) - 1 := by
  intro fuel
  induction fuel with
  | zero => intro i e he hib hfuel; omega
  | succ fuel ih =>
    intro i e he hib hfuel
    rw [extendEndIndex]
    by_cases hi : i < files.length
    · rw [if_pos hi]
      rcases Nat.lt_or_ge i b with hib' | hib'
      · rw [if_pos (hin i hib')]
        exact ih (i + 1) i (by push_cast; rfl) hib' (by omega)
      · -- file `b` starts after the range
        obtain rfl : i = b := by omega
        rw [if_neg (not_not.mpr (hout i le_rfl hi))]
        omega
    · rw [if_neg hi]
      omega

omit [Std.TransCmp c.compare] in
/-- `ExtendFileRangeOverlappingInterval` from a file between `a` and `b` is the
run `[a, b)`. -/
theorem extendFileRangeOverlappingInterval_eq {a b mid : Nat} (hamid : a ≤ mid) (hmidb : mid < b)
    (hb : b ≤ files.length)
    (hbefore : ∀ j, j < a → c.compare (files.getD j .empty).largest.userKey ub = .lt)
    (hafter : ∀ j, a ≤ j → j < files.length →
      c.compare (files.getD j .empty).largest.userKey ub ≠ .lt)
    (hin : ∀ j, j < b → c.compare (files.getD j .empty).smallest.userKey ue ≠ .gt)
    (hout : ∀ j, b ≤ j → j < files.length →
      c.compare (files.getD j .empty).smallest.userKey ue = .gt) :
    extendFileRangeOverlappingInterval c files ub ue mid = ((a : Int), (b : Int) - 1) := by
  rw [extendFileRangeOverlappingInterval,
    extendStartIndex_eq hbefore hafter mid hamid (by omega),
    extendEndIndex_eq hb hin hout _ (mid + 1) mid (by push_cast; rfl) hmidb (by omega)]

theorem filesBetween_run {a b : Nat} (hab : a ≤ b) :
    filesBetween files a ((b : Int) - 1) = (files.drop a).take (b - a) := by
  rw [filesBetween, Int.toNat_natCast]
  congr 1
  omega

omit [Std.TransCmp c.compare] in
theorem overlapsRange_some_iff (f : FileMetaData) :
    overlapsRange c (some ub) (some ue) f = true ↔
      c.compare f.largest.userKey ub ≠ .lt ∧ c.compare f.smallest.userKey ue ≠ .gt := by
  simp [overlapsRange]

/-- A file that meets a range meets every range around it. -/
theorem overlapsRange_mono {ub' ue' : List UInt8} (hb : CmpOrder.Le c.compare ub' ub)
    (he : CmpOrder.Le c.compare ue ue') {f : FileMetaData}
    (h : overlapsRange c (some ub) (some ue) f = true) :
    overlapsRange c (some ub') (some ue') f = true := by
  rw [overlapsRange_some_iff] at h ⊢
  obtain ⟨hlimit, hstart⟩ := h
  exact ⟨fun hlt => hlimit (Std.TransCmp.lt_of_lt_of_le hlt hb),
    fun hgt => hstart (Std.TransCmp.gt_of_gt_of_ge hgt
      fun hlt => he (Std.OrientedCmp.gt_iff_lt.mpr hlt))⟩

omit [Std.TransCmp c.compare] in
/-- The probes of the search outside an interval: file `mid` ends before the
range, or starts after it. -/
theorem rangeProbeBefore_false (mid : Int) :
    rangeProbeBefore c files ub false mid = true ↔
      c.compare (files.getD mid.toNat .empty).largest.userKey ub = .lt := by
  simp [rangeProbeBefore]

theorem rangeProbeAfter_false (mid : Int) :
    rangeProbeAfter c files ue false mid = true ↔
      c.compare (files.getD mid.toNat .empty).smallest.userKey ue = .gt := by
  simp only [rangeProbeAfter, Bool.not_false, Bool.true_and, Bool.false_and, Bool.or_false,
    beq_iff_eq]
  rw [Std.OrientedCmp.gt_iff_lt]

omit [Std.TransCmp c.compare] in
theorem rangeProbeBefore_true (mid : Int) :
    rangeProbeBefore c files ub true mid = true ↔
      c.compare (files.getD mid.toNat .empty).smallest.userKey ub = .lt := by
  simp [rangeProbeBefore]

theorem rangeProbeAfter_true (mid : Int) :
    rangeProbeAfter c files ue true mid = true ↔
      c.compare (files.getD mid.toNat .empty).largest.userKey ue = .gt := by
  simp only [rangeProbeAfter, Bool.not_true, Bool.false_and, Bool.true_and, Bool.false_or,
    beq_iff_eq]
  rw [Std.OrientedCmp.gt_iff_lt]

/-- Outside an interval, a file passes both probes exactly when it meets the
range. -/
theorem overlapsRange_iff_probes (k : Nat) :
    overlapsRange c (some ub) (some ue) (files.getD k .empty) = true ↔
      rangeProbeBefore c files ub false k = false ∧ rangeProbeAfter c files ue false k = false := by
  rw [overlapsRange_some_iff]
  simp only [Bool.eq_false_iff, ne_eq, rangeProbeBefore_false, rangeProbeAfter_false,
    Int.toNat_natCast]

omit [Std.TransCmp c.compare] in
/-- The file the search extends from passes both probes: the hint, when the
caller gives one that does, or the file the binary search finds. -/
theorem findOverlappingFile_some {w : Bool} {hint : Int}
    (hhint : hint = -1 ∨ ∃ k : Nat, hint = k ∧ k < files.length ∧
      rangeProbeBefore c files ub w k = false ∧ rangeProbeAfter c files ue w k = false) {mid : Int}
    (h : findOverlappingFile c files ub ue hint w = some mid) :
    ∃ m : Nat, mid = m ∧ m < files.length ∧
      rangeProbeBefore c files ub w m = false ∧ rangeProbeAfter c files ue w m = false := by
  rw [findOverlappingFile] at h
  split_ifs at h with hne
  · cases h
    obtain rfl | ⟨k, rfl, hk⟩ := hhint
    · exact absurd rfl hne
    · exact ⟨k, rfl, hk⟩
  · obtain ⟨hlo, hhi, hb, ha⟩ := BinarySearch.find_some h
    have hm : ((mid.toNat : Nat) : Int) = mid := Int.toNat_of_nonneg hlo
    refine ⟨mid.toNat, hm.symm, by omega, ?_⟩
    rw [hm]
    exact ⟨Bool.eq_false_iff.mpr hb, Bool.eq_false_iff.mpr ha⟩

/-- A hint that meets the range passes both probes outside an interval. -/
theorem probes_of_hint {hint : Int}
    (hhint : hint = -1 ∨ ∃ k : Nat, hint = k ∧ k < files.length ∧
      overlapsRange c (some ub) (some ue) (files.getD k .empty) = true) :
    hint = -1 ∨ ∃ k : Nat, hint = k ∧ k < files.length ∧
      rangeProbeBefore c files ub false k = false ∧ rangeProbeAfter c files ue false k = false := by
  rcases hhint with h | ⟨k, hk, hkn, hov⟩
  · exact Or.inl h
  · exact Or.inr ⟨k, hk, hkn, (overlapsRange_iff_probes k).mp hov⟩

/-- Outside an interval, `*file_index` ends as it was when no file meets the
range, and otherwise on a file that meets it. -/
theorem getOverlappingInputsRangeBinarySearch_snd {hint : Int}
    (hhint : hint = -1 ∨ ∃ k : Nat, hint = k ∧ k < files.length ∧
      overlapsRange c (some ub) (some ue) (files.getD k .empty) = true)
    (inputs : List FileMetaData) (fileIndex : Option Int) :
    (getOverlappingInputsRangeBinarySearch c files ub ue inputs hint fileIndex false).2 =
        fileIndex ∨
      ∃ m : Nat, (getOverlappingInputsRangeBinarySearch c files ub ue inputs hint fileIndex
          false).2 = fileIndex.map (fun _ => (m : Int)) ∧ m < files.length ∧
        overlapsRange c (some ub) (some ue) (files.getD m .empty) = true := by
  unfold getOverlappingInputsRangeBinarySearch
  rcases hfound : findOverlappingFile c files ub ue hint false with _ | mid
  · exact Or.inl rfl
  · obtain ⟨m, rfl, hm, hprobes⟩ := findOverlappingFile_some (probes_of_hint hhint) hfound
    exact Or.inr ⟨m, rfl, hm, (overlapsRange_iff_probes m).mpr hprobes⟩

variable (hs : DisjointSorted c files)
include hs

/-- On a sorted level both probes of the search, outside an interval or within
one, hold on a prefix and on a suffix of the files: the smallest and the
largest user keys both ascend. -/
theorem rangeProbe_monotone (w : Bool) :
    BinarySearch.Monotone (fun mid => rangeProbeBefore c files ub w mid = true)
      (fun mid => rangeProbeAfter c files ue w mid = true) 0 ((files.length : Int) - 1) := by
  intro i j hi hij hj
  have hle : i.toNat ≤ j.toNat := by omega
  have hjn : j.toNat < files.length := by omega
  have hstart := hs.start_le_start hle hjn
  have hlimit := hs.limit_le_limit hle hjn
  cases w with
  | false =>
    simp only [rangeProbeBefore_false, rangeProbeAfter_false]
    exact ⟨Std.TransCmp.lt_of_le_of_lt hlimit, CmpOrder.gt_of_le_of_gt hstart⟩
  | true =>
    simp only [rangeProbeBefore_true, rangeProbeAfter_true]
    exact ⟨Std.TransCmp.lt_of_le_of_lt hstart, CmpOrder.gt_of_le_of_gt hlimit⟩

/-- When the binary search finds nothing, every file fails a probe. -/
theorem findOverlappingFile_none {w : Bool} {hint : Int}
    (h : findOverlappingFile c files ub ue hint w = none) :
    ∀ j, j < files.length →
      rangeProbeBefore c files ub w j = true ∨ rangeProbeAfter c files ue w j = true := by
  rw [findOverlappingFile] at h
  split_ifs at h with hne
  intro j hj
  exact BinarySearch.find_eq_none (rangeProbe_monotone hs w) (by omega) h j (by omega) (by omega)

/-- On a sorted level, `GetOverlappingInputsRangeBinarySearch` outside an
interval appends the files that meet the range, from a hint that meets it or
by its own search. -/
theorem getOverlappingInputsRangeBinarySearch_fst {hint : Int}
    (hhint : hint = -1 ∨ ∃ k : Nat, hint = k ∧ k < files.length ∧
      overlapsRange c (some ub) (some ue) (files.getD k .empty) = true)
    (inputs : List FileMetaData) (fileIndex : Option Int) :
    (getOverlappingInputsRangeBinarySearch c files ub ue inputs hint fileIndex false).1 =
      inputs ++ files.filter (overlapsRange c (some ub) (some ue)) := by
  -- the files that end before the range come first, those that start within it
  -- come before the rest
  have hprefixA : ∀ i j, i ≤ j → j < files.length →
      c.compare (files.getD j .empty).largest.userKey ub = .lt →
        c.compare (files.getD i .empty).largest.userKey ub = .lt :=
    fun i j hij hj h => Std.TransCmp.lt_of_le_of_lt (hs.limit_le_limit hij hj) h
  have hprefixB : ∀ i j, i ≤ j → j < files.length →
      c.compare (files.getD j .empty).smallest.userKey ue ≠ .gt →
        c.compare (files.getD i .empty).smallest.userKey ue ≠ .gt :=
    fun i j hij hj h => Std.TransCmp.le_trans (hs.start_le_start hij hj) h
  obtain ⟨a, ha, hA⟩ := BinarySearch.exists_prefix_bound hprefixA
  obtain ⟨b, hb, hB⟩ := BinarySearch.exists_prefix_bound hprefixB
  -- the files that meet the range are the run `[a, b)`
  have hov : ∀ j, j < files.length →
      (overlapsRange c (some ub) (some ue) (files.getD j .empty) = true ↔ a ≤ j ∧ j < b) := by
    intro j hj
    rw [overlapsRange_some_iff, hB j hj, ne_eq, hA j hj]
    omega
  unfold getOverlappingInputsRangeBinarySearch
  rcases hfound : findOverlappingFile c files ub ue hint false with _ | mid
  · -- no file meets the range
    have hnone := findOverlappingFile_none hs hfound
    dsimp only
    rw [List.filter_eq_nil_iff.mpr, List.append_nil]
    intro f hf
    obtain ⟨j, hj, rfl⟩ := List.getElem_of_mem hf
    rw [← List.getD_eq_getElem _ FileMetaData.empty hj, overlapsRange_iff_probes]
    rcases hnone j hj with h | h <;> simp [h]
  · obtain ⟨m, rfl, hm, hprobes⟩ := findOverlappingFile_some (probes_of_hint hhint) hfound
    obtain ⟨ham, hmb⟩ := (hov m hm).mp ((overlapsRange_iff_probes m).mpr hprobes)
    have hext := extendFileRangeOverlappingInterval_eq ham hmb hb
      (fun j hj => (hA j (by omega)).mpr hj) (fun j hj hjn => (hA j hjn).not.mpr (by omega))
      (fun j hj => (hB j (by omega)).mpr hj)
      (fun j hj hjn => not_not.mp ((hB j hjn).not.mpr (by omega)))
    have hrun : ∀ j (hj : j < files.length),
        overlapsRange c (some ub) (some ue) files[j] = true ↔ a ≤ j ∧ j < b := by
      intro j hj
      rw [← List.getD_eq_getElem _ FileMetaData.empty hj]
      exact hov j hj
    simp only [Int.toNat_natCast, Bool.false_eq_true, if_false, hext]
    rw [filesBetween_run (show a ≤ b by omega),
      BinarySearch.filter_eq_take_drop (show a ≤ b by omega) hb hrun]

end RangeSearch

omit [Std.TransCmp c.compare] in
/-- Above level 0, with both bounds, `GetOverlappingInputs` is its binary
search on cleared inputs. -/
theorem getOverlappingInputs_eq_rangeBinarySearch {v : VersionStorageInfo} {level : Nat}
    (hlevel : 0 < level) (hne : level < numNonEmptyLevels v.files) (beginKey endKey : InternalKey)
    (inputs : List FileMetaData) (hintIndex : Int) (fileIndex : Option Int) (expandRange : Bool) :
    v.getOverlappingInputs c level (some beginKey) (some endKey) inputs hintIndex fileIndex
        expandRange =
      getOverlappingInputsRangeBinarySearch c (v.levelFiles level) beginKey.userKey endKey.userKey
        [] hintIndex (fileIndex.map fun _ => -1) false := by
  rw [VersionStorageInfo.getOverlappingInputs, if_neg (by omega)]
  simp only [Option.map_some, if_pos hlevel]

theorem lt_overlappingInputsFuel (n : Nat) : n < overlappingInputsFuel n :=
  Nat.lt_of_lt_of_le (Nat.lt_succ_self n) (Nat.le_mul_of_pos_left (n + 1) (by omega))

omit [Std.TransCmp c.compare] in
/-- At level 0 or with a missing bound, `GetOverlappingInputs` runs its loop
from the first file on cleared inputs. -/
theorem getOverlappingInputs_eq_scan {v : VersionStorageInfo} {level : Nat}
    (hne : level < numNonEmptyLevels v.files) {beginKey endKey : Option InternalKey}
    (hscan : level = 0 ∨ beginKey = none ∨ endKey = none) (inputs : List FileMetaData)
    (hintIndex : Int) (fileIndex : Option Int) (expandRange : Bool) :
    v.getOverlappingInputs c level beginKey endKey inputs hintIndex fileIndex expandRange =
      overlappingInputsLoop c (v.levelFiles level) level expandRange
        (overlappingInputsFuel (v.levelFiles level).length) 0 (beginKey.map InternalKey.userKey)
        (endKey.map InternalKey.userKey) [] (fileIndex.map fun _ => -1) := by
  rw [VersionStorageInfo.getOverlappingInputs, if_neg (by omega)]
  dsimp only
  split
  · -- both bounds are given, so the level is 0 and the binary search is not taken
    rename_i ub ue hub hue
    have hlevel : ¬level > 0 := by
      rcases hscan with h | h | h
      · omega
      · simp [h] at hub
      · simp [h] at hue
    rw [if_neg hlevel]
  · rfl

omit [Std.TransCmp c.compare] in
/-- Where it scans the level, at level 0 without `expand_range` or with a
missing bound, `GetOverlappingInputs` takes the files that meet `[begin, end]`,
in order, and sets `*file_index` to the last of them, or to `-1` where none
does. -/
theorem getOverlappingInputs_scan_fileIndex {v : VersionStorageInfo} {level : Nat}
    (hne : level < numNonEmptyLevels v.files) {beginKey endKey : Option InternalKey}
    (hscan : level = 0 ∨ beginKey = none ∨ endKey = none) {expandRange : Bool}
    (hfixed : ¬(level = 0 ∧ expandRange = true)) (inputs : List FileMetaData) (hintIndex : Int)
    (fileIndex : Option Int) :
    v.getOverlappingInputs c level beginKey endKey inputs hintIndex fileIndex expandRange =
      ((v.levelFiles level).filter
          (overlapsRange c (beginKey.map InternalKey.userKey) (endKey.map InternalKey.userKey)),
        fileIndex.map fun _ =>
          ((lastOverlappingFrom c (v.levelFiles level) (beginKey.map InternalKey.userKey)
            (endKey.map InternalKey.userKey) 0).map fun j : Nat => (j : Int)).getD (-1)) := by
  have hfuel := lt_overlappingInputsFuel (v.levelFiles level).length
  rw [getOverlappingInputs_eq_scan hne hscan]
  refine Prod.ext ?_ ?_
  · rw [overlappingInputsLoop_fst _ hfixed _ _ _ 0 [] _ (by omega), List.nil_append,
      List.drop_zero]
  · rw [overlappingInputsLoop_snd _ hfixed _ _ _ 0 [] _ (by omega), Option.map_map]
    rfl

/-- Without a lower bound, `[.., c]` on level 1 meets files 1 and 2: `*file_index`
ends on file 2, at index 1. -/
theorem getOverlappingInputs_scan_fileIndex_shared_boundary :
    1 < numNonEmptyLevels sharedBoundaryLevels ∧
      ((1 = 0 ∨ (none : Option InternalKey) = none ∨ some (boundaryKey [99] 5) = none) ∧
        ¬(1 = 0 ∧ false = true)) ∧
      VersionStorageInfo.getOverlappingInputs bytewiseComparator ⟨sharedBoundaryLevels⟩ 1 none
          (some (boundaryKey [99] 5)) [] (-1) (some 0) false =
        ((VersionStorageInfo.levelFiles ⟨sharedBoundaryLevels⟩ 1).filter
            (overlapsRange bytewiseComparator none (some (boundaryKey [99] 5).userKey)),
          (some 0 : Option Int).map fun _ =>
            ((lastOverlappingFrom bytewiseComparator (VersionStorageInfo.levelFiles ⟨sharedBoundaryLevels⟩ 1) none
              (some (boundaryKey [99] 5).userKey) 0).map fun j : Nat => (j : Int)).getD (-1)) ∧
      (VersionStorageInfo.getOverlappingInputs bytewiseComparator ⟨sharedBoundaryLevels⟩ 1 none
          (some (boundaryKey [99] 5)) [] (-1) (some 0) false).2 = some 1 :=
  ⟨by decide, ⟨Or.inr (Or.inl rfl), by decide⟩,
    getOverlappingInputs_scan_fileIndex (by decide) (Or.inr (Or.inl rfl)) (by decide) [] (-1)
      (some 0),
    by decide⟩

/-- On a level above 0 whose files are disjoint and sorted, `GetOverlappingInputs`
with both bounds takes by binary search, from a hint that meets the range or
from none, exactly the files its loop would take: the files of the level, in
order, whose user-key range meets `[begin, end]`. -/
theorem getOverlappingInputs_binarySearch_eq_scan {v : VersionStorageInfo} {level : Nat}
    (hs : DisjointSorted c (v.levelFiles level)) (hlevel : 0 < level)
    (hne : level < numNonEmptyLevels v.files) (beginKey endKey : InternalKey)
    (inputs : List FileMetaData) {hintIndex : Int}
    (hhint : hintIndex = -1 ∨ ∃ k : Nat, hintIndex = k ∧ k < (v.levelFiles level).length ∧
      overlapsRange c (some beginKey.userKey) (some endKey.userKey)
        ((v.levelFiles level).getD k .empty) = true)
    (fileIndex : Option Int) (expandRange : Bool) :
    (v.getOverlappingInputs c level (some beginKey) (some endKey) inputs hintIndex fileIndex
        expandRange).1 =
      (overlappingInputsLoop c (v.levelFiles level) level expandRange
        (overlappingInputsFuel (v.levelFiles level).length) 0 (some beginKey.userKey)
        (some endKey.userKey) [] (fileIndex.map fun _ => -1)).1 ∧
    (v.getOverlappingInputs c level (some beginKey) (some endKey) inputs hintIndex fileIndex
        expandRange).1 =
      (v.levelFiles level).filter (overlapsRange c (some beginKey.userKey) (some endKey.userKey)) := by
  have hbinary : (v.getOverlappingInputs c level (some beginKey) (some endKey) inputs hintIndex
      fileIndex expandRange).1 =
        (v.levelFiles level).filter
          (overlapsRange c (some beginKey.userKey) (some endKey.userKey)) := by
    rw [getOverlappingInputs_eq_rangeBinarySearch hlevel hne,
      getOverlappingInputsRangeBinarySearch_fst hs hhint, List.nil_append]
  refine ⟨?_, hbinary⟩
  -- above level 0 the loop never widens the range
  have hfuel := lt_overlappingInputsFuel (v.levelFiles level).length
  rw [hbinary, overlappingInputsLoop_fst (v.levelFiles level) (by omega) _ _
    (overlappingInputsFuel (v.levelFiles level).length) 0 [] _ (by omega), List.nil_append,
    List.drop_zero]

/-- `[b, c]` meets files 1 and 2 of level 1; the binary search takes both. -/
theorem getOverlappingInputs_binarySearch_eq_scan_shared_boundary :
    ((VersionStorageInfo.getOverlappingInputs bytewiseComparator ⟨sharedBoundaryLevels⟩ 1 (some (boundaryKey [98] 5))
        (some (boundaryKey [99] 5)) [] (-1) (some 0) false).1 =
      (overlappingInputsLoop bytewiseComparator (VersionStorageInfo.levelFiles ⟨sharedBoundaryLevels⟩ 1) 1 false
        (overlappingInputsFuel 3) 0 (some (boundaryKey [98] 5).userKey)
        (some (boundaryKey [99] 5).userKey) [] (some (-1))).1 ∧
    (VersionStorageInfo.getOverlappingInputs bytewiseComparator ⟨sharedBoundaryLevels⟩ 1 (some (boundaryKey [98] 5))
        (some (boundaryKey [99] 5)) [] (-1) (some 0) false).1 =
      (VersionStorageInfo.levelFiles ⟨sharedBoundaryLevels⟩ 1).filter
        (overlapsRange bytewiseComparator (some (boundaryKey [98] 5).userKey) (some (boundaryKey [99] 5).userKey))) ∧
    ((VersionStorageInfo.getOverlappingInputs bytewiseComparator ⟨sharedBoundaryLevels⟩ 1 (some (boundaryKey [98] 5))
        (some (boundaryKey [99] 5)) [] (-1) (some 0) false).1.map fun f => f.fd.getNumber) =
      [1, 2] :=
  ⟨getOverlappingInputs_binarySearch_eq_scan disjointSorted_sharedBoundaryLevels (by decide)
    (by decide) _ _ [] (Or.inl rfl) (some 0) false, by decide⟩

/-! ## `GetCleanInputsWithinInterval` takes the largest clean run -/

/-- Files `x` to `y - 1` of the level lie within `[userBegin, userEnd]` and
share no user key with the files around them: a clean cut, so that no
compaction of the run leaves part of a user key behind. -/
def CleanRunWithin (c : Comparator) (files : List FileMetaData) (userBegin userEnd : List UInt8) (x y : Nat) :
    Prop :=
  x < y ∧ y ≤ files.length ∧
    c.compare (files.getD x .empty).smallest.userKey userBegin ≠ .lt ∧
    c.compare (files.getD (y - 1) .empty).largest.userKey userEnd ≠ .gt ∧
    (0 < x → c.compare (files.getD x .empty).smallest.userKey
      (files.getD (x - 1) .empty).largest.userKey ≠ .eq) ∧
    (y < files.length → c.compare (files.getD (y - 1) .empty).largest.userKey
      (files.getD y .empty).smallest.userKey ≠ .eq)

/-- `inputs` is the largest clean run within the range: nothing when there is
no clean run, else a clean run that holds every other. -/
def LargestCleanRun (c : Comparator) (files : List FileMetaData) (userBegin userEnd : List UInt8)
    (inputs : List FileMetaData) : Prop :=
  (inputs = [] ∧ ∀ x y, ¬CleanRunWithin c files userBegin userEnd x y) ∨
    ∃ x y, CleanRunWithin c files userBegin userEnd x y ∧ inputs = (files.drop x).take (y - x) ∧
      ∀ x' y', CleanRunWithin c files userBegin userEnd x' y' → x ≤ x' ∧ y' ≤ y

/-- File `j` starts before `userBegin`, or with the last user key of the file
before it: the first loop of `ExtendFileRangeWithinInterval` moves past it. -/
def SkipsLeft (c : Comparator) (files : List FileMetaData) (userBegin : List UInt8) (j : Nat) : Prop :=
  c.compare (files.getD j .empty).smallest.userKey userBegin = .lt ∨
    0 < j ∧ c.compare (files.getD j .empty).smallest.userKey
      (files.getD (j - 1) .empty).largest.userKey = .eq

/-- File `j` ends after `userEnd`, or with the first user key of the file after
it: the second loop of `ExtendFileRangeWithinInterval` moves back past it. -/
def SkipsRight (c : Comparator) (files : List FileMetaData) (userEnd : List UInt8) (j : Nat) : Prop :=
  c.compare (files.getD j .empty).largest.userKey userEnd = .gt ∨
    j + 1 < files.length ∧ c.compare (files.getD j .empty).largest.userKey
      (files.getD (j + 1) .empty).smallest.userKey = .eq

omit [Std.TransCmp c.compare] in
/-- A clean run starts at a file the first loop stops at and ends at one the
second loop stops at. -/
theorem cleanRunWithin_iff {files : List FileMetaData} {ub ue : List UInt8} {x y : Nat} :
    CleanRunWithin c files ub ue x y ↔
      x < y ∧ y ≤ files.length ∧ ¬SkipsLeft c files ub x ∧ ¬SkipsRight c files ue (y - 1) := by
  unfold CleanRunWithin SkipsLeft SkipsRight
  constructor
  · rintro ⟨hxy, hy, hb, he, hl, hr⟩
    refine ⟨hxy, hy, ?_, ?_⟩
    · rintro (h | ⟨hx, h⟩)
      exacts [hb h, hl hx h]
    · rintro (h | ⟨hy', h⟩)
      · exact he h
      · exact hr (by omega) (by rwa [show y - 1 + 1 = y by omega] at h)
  · rintro ⟨hxy, hy, hl, hr⟩
    refine ⟨hxy, hy, fun h => hl (Or.inl h), fun h => hr (Or.inl h),
      fun hx h => hl (Or.inr ⟨hx, h⟩), fun hy' h => hr (Or.inr ⟨by omega, ?_⟩)⟩
    rwa [show y - 1 + 1 = y by omega]

section Shrink

variable {files : List FileMetaData} {ub ue : List UInt8}

omit [Std.TransCmp c.compare] in
/-- A turn of the first loop of `ExtendFileRangeWithinInterval` that moves
`left` past file `l`. -/
theorem shrinkLeft_succ_skip {fuel l : Nat} {r : Int} (hlr : (l : Int) ≤ r)
    (hskip : SkipsLeft c files ub l) :
    shrinkLeft c files ub (fuel + 1) l r = shrinkLeft c files ub fuel ((l + 1 : Nat) : Int) r := by
  rw [shrinkLeft, if_pos hlr]
  simp only [Int.toNat_natCast, gt_iff_lt, Nat.cast_pos, Nat.cast_add, Nat.cast_one]
  split_ifs with h₁ h₂
  · rfl
  · rfl
  · exact absurd hskip (by rintro (h | h); exacts [h₁ h, h₂ h])

omit [Std.TransCmp c.compare] in
/-- The turn of the first loop of `ExtendFileRangeWithinInterval` that ends it. -/
theorem shrinkLeft_succ_stop {fuel l : Nat} {r : Int}
    (hstop : ¬((l : Int) ≤ r ∧ SkipsLeft c files ub l)) :
    shrinkLeft c files ub (fuel + 1) l r = l := by
  rw [shrinkLeft]
  by_cases hlr : (l : Int) ≤ r
  · have hns : ¬SkipsLeft c files ub l := fun h => hstop ⟨hlr, h⟩
    rw [if_pos hlr]
    simp only [Int.toNat_natCast, gt_iff_lt, Nat.cast_pos]
    rw [if_neg fun h => hns (Or.inl h), if_neg fun h => hns (Or.inr h)]
  · rw [if_neg hlr]

omit [Std.TransCmp c.compare] in
/-- The first loop of `ExtendFileRangeWithinInterval` from `left = l` ends at
the first file from `l` on that it does not move past, or past `right`. -/
theorem shrinkLeft_spec (r : Int) :
    ∀ (fuel l : Nat), (r + 1 - l).toNat < fuel →
      ∃ L : Nat, shrinkLeft c files ub fuel l r = L ∧ l ≤ L ∧
        ((l : Int) ≤ r + 1 → (L : Int) ≤ r + 1) ∧
        (∀ j, l ≤ j → j < L → SkipsLeft c files ub j) ∧
        ((L : Int) ≤ r → ¬SkipsLeft c files ub L) := by
  intro fuel
  induction fuel with
  | zero => intro l hfuel; omega
  | succ fuel ih =>
    intro l hfuel
    by_cases hstep : (l : Int) ≤ r ∧ SkipsLeft c files ub l
    · -- `left` moves past file `l`
      obtain ⟨hlr, hskip⟩ := hstep
      obtain ⟨L, hL, hlL, hle, hskips, hstop⟩ := ih (l + 1) (by omega)
      rw [shrinkLeft_succ_skip hlr hskip]
      refine ⟨L, hL, by omega, fun _ => hle (by omega), fun j hj hjL => ?_, hstop⟩
      rcases Nat.eq_or_lt_of_le hj with rfl | hj'
      · exact hskip
      · exact hskips j hj' hjL
    · rw [shrinkLeft_succ_stop hstep]
      exact ⟨l, rfl, le_rfl, id, fun j hj hjl => absurd hjl (by omega),
        fun hlr hskip => hstep ⟨hlr, hskip⟩⟩

omit [Std.TransCmp c.compare] in
/-- A turn of the second loop of `ExtendFileRangeWithinInterval` that moves
`right` back past file `r`. -/
theorem shrinkRight_succ_skip {fuel : Nat} {l r : Int} (hlr : l ≤ r) (hl : 0 ≤ l)
    (hskip : SkipsRight c files ue r.toNat) :
    shrinkRight c files ue (fuel + 1) l r = shrinkRight c files ue fuel l (r - 1) := by
  -- `right < num_files - 1` is `right + 1 < num_files`
  have hlast : r < (files.length : Int) - 1 ↔ r.toNat + 1 < files.length := by omega
  rw [shrinkRight, if_pos hlr]
  simp only [hlast]
  split_ifs with h₁ h₂
  · rfl
  · rfl
  · exact absurd hskip (by rintro (h | h); exacts [h₁ h, h₂ h])

omit [Std.TransCmp c.compare] in
/-- The turn of the second loop of `ExtendFileRangeWithinInterval` that ends
it. -/
theorem shrinkRight_succ_stop {fuel : Nat} {l r : Int} (hl : 0 ≤ l)
    (hstop : ¬(l ≤ r ∧ SkipsRight c files ue r.toNat)) :
    shrinkRight c files ue (fuel + 1) l r = r := by
  rw [shrinkRight]
  by_cases hlr : l ≤ r
  · have hns : ¬SkipsRight c files ue r.toNat := fun h => hstop ⟨hlr, h⟩
    have hlast : r < (files.length : Int) - 1 ↔ r.toNat + 1 < files.length := by omega
    rw [if_pos hlr]
    simp only [hlast]
    rw [if_neg fun h => hns (Or.inl h), if_neg fun h => hns (Or.inr h)]
  · rw [if_neg hlr]

omit [Std.TransCmp c.compare] in
/-- The second loop of `ExtendFileRangeWithinInterval` from `right = r` ends at
the last file up to `r` that it does not move back past, or before `left`. -/
theorem shrinkRight_spec (l : Int) (hl : 0 ≤ l) :
    ∀ (fuel : Nat) (r : Int), (r + 1 - l).toNat < fuel →
      ∃ R : Int, shrinkRight c files ue fuel l r = R ∧ R ≤ r ∧ (l - 1 ≤ r → l - 1 ≤ R) ∧
        (∀ j : Nat, R < j → (j : Int) ≤ r → SkipsRight c files ue j) ∧
        (l ≤ R → ¬SkipsRight c files ue R.toNat) := by
  intro fuel
  induction fuel with
  | zero => intro r hfuel; omega
  | succ fuel ih =>
    intro r hfuel
    by_cases hstep : l ≤ r ∧ SkipsRight c files ue r.toNat
    · -- `right` moves back past file `r`
      obtain ⟨hlr, hskip⟩ := hstep
      obtain ⟨R, hR, hRr, hle, hskips, hstop⟩ := ih (r - 1) (by omega)
      rw [shrinkRight_succ_skip hlr hl hskip]
      refine ⟨R, hR, by omega, fun _ => hle (by omega), fun j hRj hjr => ?_, hstop⟩
      rcases lt_or_eq_of_le hjr with hj' | hj'
      · exact hskips j hRj (by omega)
      · rwa [show j = r.toNat by omega]
    · rw [shrinkRight_succ_stop hl hstep]
      exact ⟨r, rfl, le_rfl, fun _ => by omega, fun j h₁ h₂ => absurd h₂ (by omega),
        fun hlr hskip => hstep ⟨hlr, hskip⟩⟩

end Shrink

/-- On a sorted level, `GetOverlappingInputsRangeBinarySearch` within an
interval, from a hint that lies within the range or from none, takes the largest
clean run within the range. -/
theorem getOverlappingInputsRangeBinarySearch_within {files : List FileMetaData}
    {ub ue : List UInt8} (hs : DisjointSorted c files) {hint : Int}
    (hhint : hint = -1 ∨ ∃ k : Nat, hint = k ∧ k < files.length ∧
      c.compare (files.getD k .empty).smallest.userKey ub ≠ .lt ∧
      c.compare (files.getD k .empty).largest.userKey ue ≠ .gt)
    (fileIndex : Option Int) :
    LargestCleanRun c files ub ue
      (getOverlappingInputsRangeBinarySearch c files ub ue [] hint fileIndex true).1 := by
  -- along the level come the files that end before the range, those that start
  -- before it, those that end within it and those that start within it
  have hprefixA : ∀ i j, i ≤ j → j < files.length →
      c.compare (files.getD j .empty).largest.userKey ub = .lt →
        c.compare (files.getD i .empty).largest.userKey ub = .lt :=
    fun i j hij hj h => Std.TransCmp.lt_of_le_of_lt (hs.limit_le_limit hij hj) h
  have hprefixA' : ∀ i j, i ≤ j → j < files.length →
      c.compare (files.getD j .empty).smallest.userKey ub = .lt →
        c.compare (files.getD i .empty).smallest.userKey ub = .lt :=
    fun i j hij hj h => Std.TransCmp.lt_of_le_of_lt (hs.start_le_start hij hj) h
  have hprefixB : ∀ i j, i ≤ j → j < files.length →
      c.compare (files.getD j .empty).smallest.userKey ue ≠ .gt →
        c.compare (files.getD i .empty).smallest.userKey ue ≠ .gt :=
    fun i j hij hj h => Std.TransCmp.le_trans (hs.start_le_start hij hj) h
  have hprefixB' : ∀ i j, i ≤ j → j < files.length →
      c.compare (files.getD j .empty).largest.userKey ue ≠ .gt →
        c.compare (files.getD i .empty).largest.userKey ue ≠ .gt :=
    fun i j hij hj h => Std.TransCmp.le_trans (hs.limit_le_limit hij hj) h
  obtain ⟨a, ha, hA⟩ := BinarySearch.exists_prefix_bound hprefixA
  obtain ⟨a', ha', hA'⟩ := BinarySearch.exists_prefix_bound hprefixA'
  obtain ⟨b, hb, hB⟩ := BinarySearch.exists_prefix_bound hprefixB
  obtain ⟨b', hb', hB'⟩ := BinarySearch.exists_prefix_bound hprefixB'
  -- a clean run starts and ends within the range
  have hclean : ∀ x y, CleanRunWithin c files ub ue x y → a' ≤ x ∧ y ≤ b' := by
    rintro x y ⟨hxy, hy, hstart, hlimit, -, -⟩
    exact ⟨by have := (hA' x (by omega)).not.mp hstart; omega,
      by have := (hB' (y - 1) (by omega)).mp hlimit; omega⟩
  unfold getOverlappingInputsRangeBinarySearch
  rcases hfound : findOverlappingFile c files ub ue hint true with _ | mid
  · -- no file lies within the range, so no run does
    refine Or.inl ⟨rfl, fun x y hxy => ?_⟩
    obtain ⟨hxy', hy, hstart, hlimit, -, -⟩ := hxy
    have hnone := findOverlappingFile_none hs hfound (y - 1) (by omega)
    rw [rangeProbeBefore_true, rangeProbeAfter_true, Int.toNat_natCast] at hnone
    rcases hnone with h | h
    · exact hstart (Std.TransCmp.lt_of_le_of_lt (hs.start_le_start (by omega) (by omega)) h)
    · exact hlimit h
  · have hhint' : hint = -1 ∨ ∃ k : Nat, hint = k ∧ k < files.length ∧
        rangeProbeBefore c files ub true k = false ∧ rangeProbeAfter c files ue true k = false := by
      rcases hhint with h | ⟨k, hk, hkn, hkb, hke⟩
      · exact Or.inl h
      · refine Or.inr ⟨k, hk, hkn, ?_, ?_⟩
        · rw [Bool.eq_false_iff, ne_eq, rangeProbeBefore_true, Int.toNat_natCast]
          exact hkb
        · rw [Bool.eq_false_iff, ne_eq, rangeProbeAfter_true, Int.toNat_natCast]
          exact hke
    obtain ⟨m, rfl, hm, hbm, ham⟩ := findOverlappingFile_some hhint' hfound
    rw [Bool.eq_false_iff, ne_eq, rangeProbeBefore_true, Int.toNat_natCast] at hbm
    rw [Bool.eq_false_iff, ne_eq, rangeProbeAfter_true, Int.toNat_natCast] at ham
    -- file `m` lies within the range, so it meets it
    have hsl := hs.start_le_limit hm
    have ham' : a ≤ m := by
      by_contra hma
      exact hbm (Std.TransCmp.lt_of_le_of_lt hsl ((hA m hm).mpr (by omega)))
    have hmb : m < b := (hB m hm).mp (Std.TransCmp.le_trans hsl ham)
    have hext := extendFileRangeOverlappingInterval_eq ham' hmb hb
      (fun j hj => (hA j (by omega)).mpr hj) (fun j hj hjn => (hA j hjn).not.mpr (by omega))
      (fun j hj => (hB j (by omega)).mpr hj)
      (fun j hj hjn => not_not.mp ((hB j hjn).not.mpr (by omega)))
    simp only [Int.toNat_natCast, if_true, extendFileRangeWithinInterval, hext]
    -- the two shrinking loops
    obtain ⟨L, hL, haL, hLb, hskipsL, hstopL⟩ :=
      @shrinkLeft_spec c files ub ((b : Int) - 1) (files.length + 1) a (by omega)
    obtain ⟨R, hR, hRb, hLR', hskipsR, hstopR⟩ :=
      @shrinkRight_spec c files ue L (by omega) (files.length + 1) ((b : Int) - 1) (by omega)
    rw [hL, hR]
    -- a clean run starts at or after `L` and ends at or before `R`
    -- the files within the range lie among those that meet it
    have ha'a : a ≤ a' := by
      by_contra h
      have hlt := Std.TransCmp.lt_of_le_of_lt (hs.start_le_limit (show a' < files.length by omega))
        ((hA a' (by omega)).mpr (by omega))
      have := (hA' a' (by omega)).mp hlt
      omega
    have hb'b : b' ≤ b := by
      by_contra h
      have hle := Std.TransCmp.le_trans (hs.start_le_limit (show b < files.length by omega))
        ((hB' b (by omega)).mpr (by omega))
      have := (hB b (by omega)).mp hle
      omega
    have hbound : ∀ x y, CleanRunWithin c files ub ue x y → L ≤ x ∧ (y : Int) - 1 ≤ R := by
      intro x y hxy
      obtain ⟨hxa, hyb⟩ := hclean x y hxy
      obtain ⟨hlt, hy, hnl, hnr⟩ := cleanRunWithin_iff.mp hxy
      constructor
      · by_contra hxL
        exact hnl (hskipsL x (by omega) (by omega))
      · by_contra hyR
        exact hnr (hskipsR (y - 1) (by omega) (by omega))
    by_cases hLR : (L : Int) ≤ R
    · -- the run from `L` to `R` is clean and holds every clean run
      refine Or.inr ⟨L, R.toNat + 1, ?_, ?_, fun x' y' h => ?_⟩
      · rw [cleanRunWithin_iff, show R.toNat + 1 - 1 = R.toNat by omega]
        exact ⟨by omega, by omega, hstopL (by omega), hstopR hLR⟩
      · rw [filesBetween, Int.toNat_natCast, List.nil_append]
        congr 2
        omega
      · obtain ⟨h₁, h₂⟩ := hbound x' y' h
        exact ⟨h₁, by omega⟩
    · -- the loops crossed: no clean run
      refine Or.inl ⟨?_, fun x y hxy => ?_⟩
      · rw [filesBetween, List.nil_append, show (R + 1 - (L : Int)).toNat = 0 by omega,
          List.take_zero]
      · obtain ⟨h₁, h₂⟩ := hbound x y hxy
        have := hxy.1
        omega

/-- On a level above 0 whose files are disjoint and sorted,
`GetCleanInputsWithinInterval` with both bounds, from `hint_index` -1 or the
index of a file within the range, returns the largest clean run of files within
`[begin, end]`: a run of files within the range that shares no user key with the
files around it and holds every other such run, or nothing when there is none. -/
theorem getCleanInputsWithinInterval_largest_clean_run {v : VersionStorageInfo} {level : Nat}
    (hs : DisjointSorted c (v.levelFiles level)) (hlevel : 0 < level)
    (beginKey endKey : InternalKey) {hintIndex : Int}
    (hhint : hintIndex = -1 ∨ ∃ k : Nat, hintIndex = k ∧ k < (v.levelFiles level).length ∧
      c.compare ((v.levelFiles level).getD k .empty).smallest.userKey beginKey.userKey ≠
        .lt ∧
      c.compare ((v.levelFiles level).getD k .empty).largest.userKey endKey.userKey ≠ .gt)
    (fileIndex : Option Int) :
    LargestCleanRun c (v.levelFiles level) beginKey.userKey endKey.userKey
      (v.getCleanInputsWithinInterval c level (some beginKey) (some endKey) hintIndex
        fileIndex).1 := by
  rw [VersionStorageInfo.getCleanInputsWithinInterval]
  by_cases hempty : numNonEmptyLevels v.files ≤ level ∨ (v.levelFiles level).length = 0
  · -- an empty level has no run
    have hnil : (v.levelFiles level).length = 0 := by
      rcases hempty with h | h
      · rw [levelFiles_eq_nil_of_numNonEmptyLevels_le h]
        rfl
      · exact h
    rw [if_pos (by omega)]
    exact Or.inl ⟨rfl, fun x y hxy => by have := hxy.1; have := hxy.2.1; omega⟩
  · rw [if_neg (by omega)]
    exact getOverlappingInputsRangeBinarySearch_within hs hhint _

/-- `[b, e]` holds only file 2 of the sample level, which starts with `b`, the
last user key of file 1: no clean cut lies within the range, so nothing is
taken. -/
theorem getCleanInputsWithinInterval_largest_clean_run_shared_boundary :
    LargestCleanRun bytewiseComparator (VersionStorageInfo.levelFiles ⟨sharedBoundaryLevels⟩ 1) [98] [101]
      (VersionStorageInfo.getCleanInputsWithinInterval bytewiseComparator ⟨sharedBoundaryLevels⟩ 1
        (some (boundaryKey [98] 5)) (some (boundaryKey [101] 5)) (-1) none).1 ∧
    (VersionStorageInfo.getCleanInputsWithinInterval bytewiseComparator ⟨sharedBoundaryLevels⟩ 1
        (some (boundaryKey [98] 5)) (some (boundaryKey [101] 5)) (-1) none).1 = [] :=
  ⟨getCleanInputsWithinInterval_largest_clean_run disjointSorted_sharedBoundaryLevels
    (by decide) _ _ (Or.inl rfl) none, by decide⟩

end RocksDB
