import Mathlib
import RocksDB.Db.VersionEdit
import RocksDB.Util.Comparator

/-!
# `db/file_indexer.cc`: search hints from one level to the next

For every file of a level `1 ≤ level < numLevels - 1`, `FileIndexer.updateIndex`
(`UpdateIndex`) computes four indexes into the files of the next level, so that
a lookup that compared its key with the file's smallest and largest user keys
can narrow its binary search one level down. The two left bounds come from
`calculateLB`, a forward merge of the two levels, and the two right bounds from
`calculateRB`, a backward merge. `getNextLevelIndex` (`GetNextLevelIndex`) picks
the bounds for the outcome of the two comparisons.

## Design notes

* The user comparator `ucmp_` is a parameter `c`; `int` results of comparisons are
  `Ordering`s.
* The `int32_t` indexes are `Int`s: they stay between `-1` and the number of
  files, far from the limits of `int32_t`. An index into a level is read with
  `getD`, which the source's `assert`s make unnecessary.
* `IndexLevel` is the list of its units; `num_index` is its length.
-/

namespace RocksDB

/-- The user key of an internal key, `InternalKey::user_key`. -/
def InternalKey.userKey (k : InternalKey) : List UInt8 := extractUserKey k.rep

/-- `FileIndexer::IndexUnit`, with the source's initial values. -/
structure IndexUnit where
  smallestLb : Int := 0
  largestLb : Int := 0
  smallestRb : Int := -1
  largestRb : Int := -1
  deriving DecidableEq, Repr

/-- `FileIndexer`: for each level its units and `level_rb_`, the index of the
last file of each level. -/
structure FileIndexer where
  numLevels : Nat
  nextLevelIndex : List (List IndexUnit)
  levelRb : List Int
  deriving DecidableEq, Repr

namespace FileIndexer

/-- `kLevelMaxIndex`, `port::kMaxInt32`. -/
def kLevelMaxIndex : Int := 2 ^ 31 - 1

/-- The first loop of `CalculateLB`, a merge of the upper and the lower files
from the left: the upper index it stops at and the units set so far. -/
def calculateLBLoop (cmpOp : FileMetaData → FileMetaData → Ordering)
    (setIndex : IndexUnit → Int → IndexUnit) (upper lower : List FileMetaData) :
    Nat → Nat → Nat → List IndexUnit → Nat × List IndexUnit
  | 0, upperIdx, _, index => (upperIdx, index)
  | fuel + 1, upperIdx, lowerIdx, index =>
    if upperIdx < upper.length ∧ lowerIdx < lower.length then
      match cmpOp (upper.getD upperIdx .empty) (lower.getD lowerIdx .empty) with
      | .eq =>
        calculateLBLoop cmpOp setIndex upper lower fuel (upperIdx + 1) (lowerIdx + 1)
          (index.modify upperIdx (setIndex · lowerIdx))
      -- the lower file's key is smaller: a key won't hit in it
      | .gt => calculateLBLoop cmpOp setIndex upper lower fuel upperIdx (lowerIdx + 1) index
      | .lt =>
        calculateLBLoop cmpOp setIndex upper lower fuel (upperIdx + 1) lowerIdx
          (index.modify upperIdx (setIndex · lowerIdx))
    else (upperIdx, index)

/-- `CalculateLB`: the merge, then the lower size for the upper files left. -/
def calculateLB (cmpOp : FileMetaData → FileMetaData → Ordering)
    (setIndex : IndexUnit → Int → IndexUnit) (upper lower : List FileMetaData)
    (index : List IndexUnit) : List IndexUnit :=
  let (upperIdx, index) :=
    calculateLBLoop cmpOp setIndex upper lower (upper.length + lower.length) 0 0 index
  (List.range' upperIdx (upper.length - upperIdx)).foldl
    (fun index i => index.modify i (setIndex · lower.length)) index

/-- The first loop of `CalculateRB`, a merge of the upper and the lower files
from the right. -/
def calculateRBLoop (cmpOp : FileMetaData → FileMetaData → Ordering)
    (setIndex : IndexUnit → Int → IndexUnit) (upper lower : List FileMetaData) :
    Nat → Int → Int → List IndexUnit → Int × List IndexUnit
  | 0, upperIdx, _, index => (upperIdx, index)
  | fuel + 1, upperIdx, lowerIdx, index =>
    if upperIdx ≥ 0 ∧ lowerIdx ≥ 0 then
      match cmpOp (upper.getD upperIdx.toNat .empty) (lower.getD lowerIdx.toNat .empty) with
      | .eq =>
        calculateRBLoop cmpOp setIndex upper lower fuel (upperIdx - 1) (lowerIdx - 1)
          (index.modify upperIdx.toNat (setIndex · lowerIdx))
      -- the lower file's key is larger: a key won't hit in it
      | .lt => calculateRBLoop cmpOp setIndex upper lower fuel upperIdx (lowerIdx - 1) index
      | .gt =>
        calculateRBLoop cmpOp setIndex upper lower fuel (upperIdx - 1) lowerIdx
          (index.modify upperIdx.toNat (setIndex · lowerIdx))
    else (upperIdx, index)

/-- `CalculateRB`: the merge, then `-1` for the upper files left. -/
def calculateRB (cmpOp : FileMetaData → FileMetaData → Ordering)
    (setIndex : IndexUnit → Int → IndexUnit) (upper lower : List FileMetaData)
    (index : List IndexUnit) : List IndexUnit :=
  let (upperIdx, index) := calculateRBLoop cmpOp setIndex upper lower
    (upper.length + lower.length) (upper.length - 1) (lower.length - 1) index
  (List.range (upperIdx + 1).toNat).foldl (fun index i => index.modify i (setIndex · (-1))) index

/-- The units of one level: the four passes of `UpdateIndex` over the level and
the next one. -/
def levelIndex (c : Comparator) (upper lower : List FileMetaData) : List IndexUnit :=
  let index := List.replicate upper.length {}
  let index := calculateLB (fun a b => c.compare a.smallest.userKey b.largest.userKey)
    (fun u i => { u with smallestLb := i }) upper lower index
  let index := calculateLB (fun a b => c.compare a.largest.userKey b.largest.userKey)
    (fun u i => { u with largestLb := i }) upper lower index
  let index := calculateRB (fun a b => c.compare a.smallest.userKey b.smallest.userKey)
    (fun u i => { u with smallestRb := i }) upper lower index
  calculateRB (fun a b => c.compare a.largest.userKey b.smallest.userKey)
    (fun u i => { u with largestRb := i }) upper lower index

/-- `UpdateIndex(arena, num_levels, files)`. -/
def updateIndex (c : Comparator) (numLevels : Nat) (files : List (List FileMetaData)) :
    FileIndexer :=
  if numLevels = 0 then ⟨0, [], []⟩
  else
    let levelFiles := fun level => files.getD level []
    -- the levels `1 ≤ level < numLevels - 1` get units; the others stay empty
    let nextLevelIndex := (List.range numLevels).map fun level =>
      if 1 ≤ level ∧ level < numLevels - 1 then levelIndex c (levelFiles level) (levelFiles (level + 1))
      else []
    -- `level_rb_` is `-1` but for those levels and for the last one
    let levelRb := (List.range numLevels).map fun level =>
      if (1 ≤ level ∧ level < numLevels - 1) ∨ level = numLevels - 1 then
        ((levelFiles level).length : Int) - 1
      else -1
    ⟨numLevels, nextLevelIndex, levelRb⟩

/-- `GetNextLevelIndex`: the left and right bounds of the search one level below
`level`, from the comparisons of the key with the smallest and the largest user
key of file `fileIndex`. -/
def getNextLevelIndex (fi : FileIndexer) (level fileIndex : Nat)
    (cmpSmallest cmpLargest : Ordering) : Int × Int :=
  -- last level, no hint
  if level = fi.numLevels - 1 then (0, -1)
  else
    let indexUnits := fi.nextLevelIndex.getD level []
    let index := indexUnits.getD fileIndex {}
    match cmpSmallest, cmpLargest with
    | .lt, _ =>
      (if level > 0 ∧ fileIndex > 0 then (indexUnits.getD (fileIndex - 1) {}).largestLb else 0,
        index.smallestRb)
    | .eq, _ => (index.smallestLb, index.smallestRb)
    | .gt, .lt => (index.smallestLb, index.largestRb)
    | .gt, .eq => (index.largestLb, index.largestRb)
    | .gt, .gt => (index.largestLb, fi.levelRb.getD (level + 1) (-1))

end FileIndexer

end RocksDB
