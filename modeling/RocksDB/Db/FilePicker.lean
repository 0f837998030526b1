import Mathlib
import RocksDB.Db.FileIndexer
import RocksDB.Db.InternalKeyComparator

/-!
# `FilePicker` in `db/version_set.cc`: the files a point lookup reads

`Version::Get` asks a `FilePicker` for the files that may hold the lookup key,
level by level, newest level first, and reads them in that order until the key
is resolved. `FilePicker.getNextFile` (`GetNextFile`) walks the files of level
0 one by one and, on the other levels, starts at the first file whose largest
internal key is not below the lookup key, found by `findFileInRange`
(`FindFileInRange`) within the bounds that `FileIndexer.getNextLevelIndex`
derived from the last file compared on the level above.
`FilePicker.prepareNextLevel` (`PrepareNextLevel`) moves to the next level and
computes that start. `searchFiles` collects every file `GetNextFile` returns.

## Design notes

* A level's `LevelFilesBrief` copies each file's descriptor and the encodings of
  its smallest and largest keys, so the picker reads the `FileMetaData` list of
  the level directly.
* `curr_level_` starts at `-1` as an `unsigned int` and is incremented first;
  the model starts `prepareLevels` at the incremented level.
* The counters `hit_file_level_`, `returned_file_level_`,
  `is_hit_file_last_in_level_` and the debug-only `prev_file_` feed statistics
  and `assert`s only, and are left out.
* The loops run with fuel: each iteration of `GetNextFile` moves to the next
  file or the next level, or returns.
* The user comparator `user_comparator_` is a parameter `c`, and
  `internal_comparator_` is `InternalKeyComparator.compare c`.
-/

namespace RocksDB

/-- `FindFileInRange`: the first file in `[left, right)` whose largest key is not
below `key`, by binary search, for at most `fuel` halvings. `left`, `right` and `mid`
are `uint32_t`s, so `left + right` wraps; the `int` it returns is `right`, which its
callers store back in unsigned variables. -/
def findFileInRange (c : Comparator) (files : List FileMetaData) (key : List UInt8) :
    Nat → UInt32 → UInt32 → UInt32
  | 0, _, right => right
  | fuel + 1, left, right =>
    if left < right then
      let mid := (left + right) / 2
      if InternalKeyComparator.compare c (files.getD mid.toNat .empty).largest.rep key = .lt then
        -- all files at or before `mid` are uninteresting
        findFileInRange c files key fuel (mid + 1) right
      else findFileInRange c files key fuel left mid
    else right

/-- `FilePicker`: the lookup it serves and the state of its search. -/
structure FilePicker where
  numLevels : Nat
  levelFilesBrief : List (List FileMetaData)
  userKey : List UInt8
  ikey : List UInt8
  fileIndexer : FileIndexer
  currLevel : Nat
  searchLeftBound : Int
  searchRightBound : Int
  searchEnded : Bool
  currIndexInCurrLevel : Nat
  startIndexInCurrLevel : Nat
  deriving DecidableEq, Repr

namespace FilePicker

def levelFiles (p : FilePicker) (level : Nat) : List FileMetaData :=
  p.levelFilesBrief.getD level []

/-- The search moves on to the level below without a hint: all its files. -/
def skipLevel (p : FilePicker) : FilePicker :=
  { p with searchLeftBound := 0, searchRightBound := FileIndexer.kLevelMaxIndex,
           currLevel := p.currLevel + 1 }

/-- The search starts on the current level at file `startIndex`. -/
def startAt (p : FilePicker) (startIndex : Nat) : FilePicker :=
  { p with startIndexInCurrLevel := startIndex, currIndexInCurrLevel := startIndex }

/-- The loop of `PrepareNextLevel` from the level `currLevel` on, for at most
`fuel` levels: the picker and whether a level is left to search. -/
def prepareLevels (c : Comparator) : Nat → FilePicker → FilePicker × Bool
  | 0, p => (p, false)
  | fuel + 1, p =>
    if p.currLevel < p.numLevels then
      let files := p.levelFiles p.currLevel
      if files.length = 0 then
        -- an empty level: all files of the next one are searched
        prepareLevels c fuel p.skipLevel
      else if p.currLevel = 0 then (p.startAt 0, true)
      else if p.searchLeftBound = p.searchRightBound then
        (p.startAt p.searchLeftBound.toNat, true)
      else if p.searchLeftBound < p.searchRightBound then
        let right := if p.searchRightBound = FileIndexer.kLevelMaxIndex then
            (files.length : Int) - 1 else p.searchRightBound
        let p := { p with searchRightBound := right }
        (p.startAt (findFileInRange c files p.ikey (files.length + 1)
          (UInt32.ofInt p.searchLeftBound) (UInt32.ofInt right)).toNat, true)
      else
        -- the key does not exist in this level
        prepareLevels c fuel p.skipLevel
    else (p, false)

/-- `PrepareNextLevel`. -/
def prepareNextLevel (c : Comparator) (p : FilePicker) : FilePicker × Bool :=
  prepareLevels c (p.numLevels + 1) { p with currLevel := p.currLevel + 1 }

/-- `search_ended_ = !PrepareNextLevel()`. -/
def nextLevel (c : Comparator) (p : FilePicker) : FilePicker :=
  let (p, more) := p.prepareNextLevel c
  { p with searchEnded := !more }

/-- The constructor `FilePicker(files, user_key, ikey, file_levels, num_levels,
file_indexer, ...)`. -/
def create (c : Comparator) (levelFilesBrief : List (List FileMetaData)) (userKey ikey : List UInt8)
    (numLevels : Nat) (fileIndexer : FileIndexer) : FilePicker :=
  let p : FilePicker := ⟨numLevels, levelFilesBrief, userKey, ikey, fileIndexer, 0, 0,
    FileIndexer.kLevelMaxIndex, false, 0, 0⟩
  let (p, more) := prepareLevels c (numLevels + 1) p
  { p with searchEnded := !more }

/-- The loops of `GetNextFile` for at most `fuel` files and levels visited. -/
def getNextFileLoop (c : Comparator) : Nat → FilePicker → Option FileMetaData × FilePicker
  | 0, p => (none, p)
  | fuel + 1, p =>
    if p.searchEnded then (none, p)
    else
      let files := p.levelFiles p.currLevel
      if p.currIndexInCurrLevel < files.length then
        let f := files.getD p.currIndexInCurrLevel .empty
        -- key range filtering unless there is one level of at most 3 files
        let filter := decide (p.numLevels > 1 ∨ files.length > 3)
        let cmpSmallest := c.compare p.userKey f.smallest.userKey
        let cmpLargest := if filter ∧ cmpSmallest ≠ .lt then
            c.compare p.userKey f.largest.userKey else .lt
        let p := if filter ∧ p.currLevel > 0 then
            let (left, right) := p.fileIndexer.getNextLevelIndex p.currLevel
              p.currIndexInCurrLevel cmpSmallest cmpLargest
            { p with searchLeftBound := left, searchRightBound := right }
          else p
        if filter ∧ (cmpSmallest = .lt ∨ cmpLargest = .gt) then
          -- the key falls out of the file's range
          if p.currLevel = 0 then
            getNextFileLoop c fuel { p with currIndexInCurrLevel := p.currIndexInCurrLevel + 1 }
          else getNextFileLoop c fuel (p.nextLevel c)
        else if p.currLevel > 0 ∧ cmpLargest = .lt then
          -- no more files to search in this level
          (some f, p.nextLevel c)
        else (some f, { p with currIndexInCurrLevel := p.currIndexInCurrLevel + 1 })
      else getNextFileLoop c fuel (p.nextLevel c)

/-- The files and levels left to visit bound the iterations of `GetNextFile`. -/
def fuel (p : FilePicker) : Nat :=
  (p.levelFilesBrief.map List.length).sum + p.numLevels + 2

/-- `GetNextFile`. -/
def getNextFile (c : Comparator) (p : FilePicker) : Option FileMetaData × FilePicker :=
  getNextFileLoop c p.fuel p

/-- The files of the successive calls of `GetNextFile` until it returns
`nullptr`, for at most `fuel` calls. -/
def collect (c : Comparator) : Nat → FilePicker → List FileMetaData
  | 0, _ => []
  | fuel + 1, p =>
    match p.getNextFile c with
    | (some f, p) => f :: collect c fuel p
    | (none, _) => []

end FilePicker

/-- `UpdateNumNonEmptyLevels`: the levels up to the last non-empty one. -/
def numNonEmptyLevels (files : List (List FileMetaData)) : Nat :=
  files.length - (files.reverse.takeWhile List.isEmpty).length

/-- The internal key `LookupKey(user_key, s)` looks up: the user key with the
sequence number and `kValueTypeForSeek`. -/
def lookupKey (userKey : List UInt8) (s : Nat) : List UInt8 :=
  appendInternalKey [] ⟨userKey, s, kValueTypeForSeek⟩

/-- The files `Version::Get` reads for `(userKey, s)`, in order, when none of
them resolves the key: the picker over the non-empty levels with the file
indexer of `GenerateFileIndexer`. -/
def searchFiles (c : Comparator) (files : List (List FileMetaData)) (userKey : List UInt8)
    (s : Nat) : List FileMetaData :=
  let n := numNonEmptyLevels files
  let p := FilePicker.create c files userKey (lookupKey userKey s) n
    (FileIndexer.updateIndex c n files)
  FilePicker.collect c ((files.map List.length).sum + 1) p

/-! ## The level-by-level search the hints stand for -/

/-- The user-key range of `f` contains `u`. -/
def FileMetaData.containsUserKey (c : Comparator) (f : FileMetaData) (u : List UInt8) : Bool :=
  c.compare f.smallest.userKey u ≠ .gt ∧ c.compare u f.largest.userKey ≠ .gt

/-- The files of a level `≥ 1` that a plain search reads: from the first file
whose largest internal key is not below the lookup key, the files whose user-key
range contains the key. -/
def naiveLevelFiles (c : Comparator) (files : List FileMetaData) (u ikey : List UInt8) :
    List FileMetaData :=
  ((files.dropWhile fun f => InternalKeyComparator.compare c f.largest.rep ikey = .lt).takeWhile
    fun f => f.containsUserKey c u)

/-- A search level by level without hints: the files of level 0 whose range
contains the key (all of them when there is one level of at most 3 files), then
the files `naiveLevelFiles` gives on each level below. -/
def naiveSearchFiles (c : Comparator) (files : List (List FileMetaData)) (u : List UInt8)
    (s : Nat) : List FileMetaData :=
  let n := numNonEmptyLevels files
  let level0 := files.getD 0 []
  let level0 := if n ≤ 1 ∧ level0.length ≤ 3 then level0
    else level0.filter fun f => f.containsUserKey c u
  level0 ++ ((List.range n).drop 1).flatMap fun level =>
    naiveLevelFiles c (files.getD level []) u (lookupKey u s)

/-- The key `u` at sequence number `s` with a value, as a file boundary. -/
def boundaryKey (u : List UInt8) (s : Nat) : InternalKey := ⟨appendInternalKey [] ⟨u, s, .value⟩⟩

/-- File `number` of the sample version below, with its boundary keys. -/
def sampleFile (number : UInt64) (smallest largest : InternalKey) : FileMetaData :=
  { FileMetaData.empty with fd := FileDescriptor.make number 0 0, smallest, largest }

/-- Level 1 holds file 1 with only `b` (at 9 and 8) and file 2 from `b@7` to
`c@1`; level 2 holds file 3 from `a@1` to `b@5` and file 4 from `d@1` to `e@1`. -/
def repeatedBoundaryLevels : List (List FileMetaData) :=
  [[], [sampleFile 1 (boundaryKey [98] 9) (boundaryKey [98] 8),
        sampleFile 2 (boundaryKey [98] 7) (boundaryKey [99] 1)],
   [sampleFile 3 (boundaryKey [97] 1) (boundaryKey [98] 5),
    sampleFile 4 (boundaryKey [100] 1) (boundaryKey [101] 1)]]

/-- A lookup of `b` at sequence number 6 reads file 2 and then no file of
level 2, although file 3 holds `b@5`: `CalculateLB` moved past file 3 when it
matched file 1, so the left bound for file 2 lies after the right bound. -/
theorem filePicker_skips_file_below_repeated_boundary :
    (searchFiles bytewiseComparator repeatedBoundaryLevels [98] 6).map
        (fun f => f.fd.getNumber) = [2] ∧
      (naiveSearchFiles bytewiseComparator repeatedBoundaryLevels [98] 6).map
        (fun f => f.fd.getNumber) = [2, 3] :=
  ⟨by decide, by decide⟩

end RocksDB
