import Mathlib
import RocksDB.Db.VersionEdit

/-!
# `db/version_builder.cc`: applying version edits to a version

A `VersionBuilder` keeps, for each level, the numbers of the files deleted by
the edits applied so far and a map from number to the files they added.
`VersionBuilder.apply` is `Rep::Apply`: a deletion records the number and drops
a pending addition of it, an addition drops a pending deletion and records the
file. `VersionBuilder.saveTo` is `Rep::SaveTo`: each level's added files, sorted
by the level's comparator, are merged into the base files, and `MaybeAddFile`
skips every file whose number is recorded as deleted.

## Design notes

* The model is the release build: the consistency checks run only under
  `force_consistency_checks`, and the `assert`s are compiled out.
* `std::unordered_set` and `std::unordered_map` are lists without repeated keys;
  their iteration order only matters through `SaveTo`'s sort, whose comparators
  break ties by file number, and added files have distinct numbers.
* `std::upper_bound` over the base files, which are sorted, is the longest
  prefix of files not above the added file (`List.span`).
* A level of the edits is an `int`; levels below `num_levels_` index
  `levels_`, the others go to `invalid_levels_`. A negative level is outside
  `levels_` in the source and is not modelled.
-/

namespace RocksDB

/-- The files of each level of a `VersionStorageInfo`, in the level's order. -/
structure VersionStorageInfo where
  files : List (List FileMetaData)
  deriving DecidableEq, Repr

namespace VersionStorageInfo

def numLevels (v : VersionStorageInfo) : Nat := v.files.length

/-- `LevelFiles(level)`. -/
def levelFiles (v : VersionStorageInfo) (level : Nat) : List FileMetaData :=
  v.files.getD level []

end VersionStorageInfo

/-- `NewestFirstBySeqNo`, the order of level 0. -/
def newestFirstBySeqNo (a b : FileMetaData) : Bool :=
  if a.largestSeqno ≠ b.largestSeqno then a.largestSeqno > b.largestSeqno
  else if a.smallestSeqno ≠ b.smallestSeqno then a.smallestSeqno > b.smallestSeqno
  -- ties are broken by file number
  else a.fd.getNumber > b.fd.getNumber

/-- `BySmallestKey`, the order of the other levels. -/
def bySmallestKey (a b : FileMetaData) : Bool :=
  match internalKeyCompare a.smallest.rep b.smallest.rep with
  | .eq => a.fd.getNumber < b.fd.getNumber
  | r => r = .lt

/-- `level_zero_cmp_` or `level_nonzero_cmp_`. -/
def fileComparator (level : Nat) : FileMetaData → FileMetaData → Bool :=
  if level = 0 then newestFirstBySeqNo else bySmallestKey

/-- `Rep::LevelState`. -/
structure LevelState where
  deletedFiles : List UInt64
  addedFiles : List (UInt64 × FileMetaData)
  deriving DecidableEq, Repr

namespace LevelState

def empty : LevelState := ⟨[], []⟩

/-- `deleted_files.insert(number)`. -/
def deleteNumber (s : LevelState) (number : UInt64) : LevelState :=
  { s with deletedFiles := if number ∈ s.deletedFiles then s.deletedFiles
                           else s.deletedFiles ++ [number] }

/-- `added_files.erase(number)`, the pending addition of a deleted file. -/
def dropAdded (s : LevelState) (number : UInt64) : LevelState :=
  { s with addedFiles := s.addedFiles.filter (fun p => p.1 ≠ number) }

/-- `deleted_files.erase(number)` then `added_files[number] = f`. -/
def addFile (s : LevelState) (f : FileMetaData) : LevelState :=
  let number := f.fd.getNumber
  { deletedFiles := s.deletedFiles.erase number,
    addedFiles := s.addedFiles.filter (fun p => p.1 ≠ number) ++ [(number, f)] }

end LevelState

/-- `VersionBuilder::Rep`. -/
structure VersionBuilder where
  base : VersionStorageInfo
  levels : List LevelState
  invalidLevels : List (Int32 × List UInt64)
  hasInvalidLevels : Bool
  deriving Repr

namespace VersionBuilder

/-- `Rep(..., base_vstorage)`: an empty state for each level of the base. -/
def create (base : VersionStorageInfo) : VersionBuilder :=
  ⟨base, List.replicate base.numLevels LevelState.empty, [], false⟩

def numLevels (b : VersionBuilder) : Nat := b.base.numLevels

def levelState (b : VersionBuilder) (level : Nat) : LevelState := b.levels.getD level .empty

/-- The numbers `invalid_levels_[level]` holds. -/
def invalidNumbers (b : VersionBuilder) (level : Int32) : List UInt64 :=
  ((b.invalidLevels.find? (fun p => p.1 = level)).map Prod.snd).getD []

def setInvalidNumbers (b : VersionBuilder) (level : Int32) (s : List UInt64) : VersionBuilder :=
  { b with invalidLevels := (level, s) :: b.invalidLevels.filter (fun p => p.1 ≠ level) }

/-- One deleted `(level, number)` pair of an edit. -/
def applyDelete (b : VersionBuilder) (d : Int32 × UInt64) : VersionBuilder :=
  let (level, number) := d
  if level.toInt < b.numLevels then
    let update := fun (s : LevelState) => (s.deleteNumber number).dropAdded number
    { b with levels := b.levels.modify level.toInt.toNat update }
  else if number ∈ b.invalidNumbers level then
    b.setInvalidNumbers level ((b.invalidNumbers level).erase number)
  else
    -- deleting a non-existing file on an invalid level
    { b with hasInvalidLevels := true }

/-- One new file of an edit. -/
def applyAdd (b : VersionBuilder) (nf : Int32 × FileMetaData) : VersionBuilder :=
  let (level, f) := nf
  if level.toInt < b.numLevels then
    { b with levels := b.levels.modify level.toInt.toNat (fun s => s.addFile f) }
  else if f.fd.getNumber ∈ b.invalidNumbers level then
    -- creating an already existing file on an invalid level
    { b with hasInvalidLevels := true }
  else b.setInvalidNumbers level (b.invalidNumbers level ++ [f.fd.getNumber])

/-- `Rep::Apply`: the deletions in the set's order, then the new files in order. -/
def apply (b : VersionBuilder) (edit : VersionEdit) : VersionBuilder :=
  edit.newFiles.foldl applyAdd (edit.deletedFiles.foldl applyDelete b)

/-- `Rep::MaybeAddFile`: a file whose number is deleted at the level is skipped. -/
def maybeAddFile (deleted : List UInt64) (out : List FileMetaData) (f : FileMetaData) :
    List FileMetaData :=
  if f.fd.getNumber ∈ deleted then out else out ++ [f]

/-- The merge loop of `SaveTo` for one level: before each added file, the base
files not above it; after the last one, the remaining base files. -/
def mergeLevel (cmp : FileMetaData → FileMetaData → Bool) (deleted : List UInt64) :
    List FileMetaData → List FileMetaData → List FileMetaData → List FileMetaData
  | out, base, [] => base.foldl (maybeAddFile deleted) out
  | out, base, added :: rest =>
    let (before, after) := base.span (fun f => !cmp added f)
    mergeLevel cmp deleted (maybeAddFile deleted (before.foldl (maybeAddFile deleted) out) added)
      after rest

/-- `std::sort(added_files, cmp)`. Any sorting algorithm stands for it: the
comparators order files with distinct numbers strictly. -/
def sortAdded (cmp : FileMetaData → FileMetaData → Bool) (added : List FileMetaData) :
    List FileMetaData :=
  added.insertionSort (fun a b => !cmp b a)

/-- The files `SaveTo` stores for one level. -/
def saveLevel (b : VersionBuilder) (level : Nat) : List FileMetaData :=
  let s := b.levelState level
  let cmp := fileComparator level
  mergeLevel cmp s.deletedFiles [] (b.base.levelFiles level)
    (sortAdded cmp (s.addedFiles.map Prod.snd))

/-- `Rep::SaveTo` into a fresh `VersionStorageInfo` with the base's levels. -/
def saveTo (b : VersionBuilder) : VersionStorageInfo :=
  ⟨(List.range b.numLevels).map b.saveLevel⟩

end VersionBuilder

end RocksDB
