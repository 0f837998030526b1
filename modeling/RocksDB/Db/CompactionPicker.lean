import Mathlib
import RocksDB.Db.VersionSetOverlap
import RocksDB.Lib.IntervalClosure

/-!
# `ExpandInputsToCleanCut` in `db/compaction_picker.cc`

A compaction must not take some entries of a user key and leave the rest in the
level: a later read would find an older entry of the key in the files left
behind. `ExpandInputsToCleanCut` grows a set of input files of a level above 0
until no file outside it meets the user-key range of the set: it takes the
range of the inputs (`GetRange`), replaces the inputs by every file of the level
that meets it (`GetOverlappingInputs`, starting its binary search from the file
the last round found), and repeats while the inputs grow.

On a level whose files are disjoint and sorted, the inputs are always a run of
consecutive files, and one round maps the run `[x, y)` to `overlapRun`, the run
of files that meet the user-key range of `[x, y)`. That map only grows a run,
keeps inclusion and stays within the level, so `IntervalClosure.grow_spec`
applies: from any non-empty run, `ExpandInputsToCleanCut` ends on the least run
around it that holds every file meeting its range
(`expandInputsToCleanCut_least_closed_run`).

## Design notes

* `being_compacted` of each file is given as a function: the model of
  `FileMetaData` does not carry it, and `AreFilesInCompaction` only reads it.
* `hint_index` is passed both as the hint and as `file_index`, so the round
  reads the file the last one found; `GetOverlappingInputs` always writes
  `*file_index`, so the new hint is the `Option` it returns.
* The `do`-`while` loop runs with fuel: the inputs grow by a file at least in
  every round but the last, so the number of files of the level bounds it.
-/

namespace RocksDB

variable {c : Comparator} [Std.TransCmp c.compare]

/-- `CompactionPicker::GetRange` of the inputs of one level: their smallest and
largest internal keys. Level-0 files may overlap, so every file is compared;
above level 0 the first file starts and the last file ends the range. -/
def getRange (c : Comparator) (level : Nat) (inputs : List FileMetaData) : InternalKey × InternalKey :=
  if level = 0 then
    match inputs with
    | [] => (⟨[]⟩, ⟨[]⟩)
    | f :: rest =>
      rest.foldl (fun (r : InternalKey × InternalKey) g =>
        (if InternalKeyComparator.compare c g.smallest.rep r.1.rep = .lt then g.smallest else r.1,
          if InternalKeyComparator.compare c g.largest.rep r.2.rep = .gt then g.largest else r.2))
        (f.smallest, f.largest)
  else ((inputs.headD .empty).smallest, (inputs.getLastD .empty).largest)

/-- `CompactionPicker::AreFilesInCompaction`. -/
def areFilesInCompaction (beingCompacted : FileMetaData → Bool) (files : List FileMetaData) :
    Bool :=
  files.any beingCompacted

/-- The loop of `ExpandInputsToCleanCut`, for at most `fuel` rounds: the inputs
become the files that meet their range, from the hint the last round found,
until they stop growing. -/
def expandInputsLoop (c : Comparator) (v : VersionStorageInfo) (level : Nat) :
    Nat → List FileMetaData → Int → List FileMetaData × Int
  | 0, inputs, hintIndex => (inputs, hintIndex)
  | fuel + 1, inputs, hintIndex =>
    let oldSize := inputs.length
    let (smallest, largest) := getRange c level inputs
    let (inputs, fileIndex) :=
      v.getOverlappingInputs c level (some smallest) (some largest) [] hintIndex (some hintIndex)
        true
    let hintIndex := fileIndex.getD hintIndex
    if inputs.length > oldSize then expandInputsLoop c v level fuel inputs hintIndex
    else (inputs, hintIndex)

/-- `CompactionPicker::ExpandInputsToCleanCut`: the inputs grown to a clean cut,
and whether none of them is being compacted. -/
def expandInputsToCleanCut (c : Comparator) (beingCompacted : FileMetaData → Bool) (v : VersionStorageInfo)
    (level : Nat) (inputs : List FileMetaData) : Bool × List FileMetaData :=
  -- `GetOverlappingInputs` already expands level 0
  if level = 0 then (true, inputs)
  else
    let inputs := (expandInputsLoop c v level ((v.levelFiles level).length + 1) inputs (-1)).1
    (!areFilesInCompaction beingCompacted inputs, inputs)

/-! ## Runs of files -/

/-- The run of files of a sorted level that meet the user-key range of files
`I.1` to `I.2 - 1`: from the first file that does not end before the range to
the first file that starts after it. -/
def overlapRun (c : Comparator) (files : List FileMetaData) (I : Nat × Nat) : Nat × Nat :=
  (files.findIdx fun f =>
      c.compare f.largest.userKey (files.getD I.1 .empty).smallest.userKey ≠ .lt,
    files.findIdx fun f =>
      c.compare f.smallest.userKey (files.getD (I.2 - 1) .empty).largest.userKey = .gt)

/-- Files `x` to `y - 1` of the level hold every file of the level whose
user-key range meets theirs, from the smallest user key of file `x` to the
largest of file `y - 1`. -/
def ClosedRun (c : Comparator) (files : List FileMetaData) (x y : Nat) : Prop :=
  x < y ∧ y ≤ files.length ∧ ∀ j, j < files.length →
    overlapsRange c (some (files.getD x .empty).smallest.userKey)
      (some (files.getD (y - 1) .empty).largest.userKey) (files.getD j .empty) = true →
    x ≤ j ∧ j < y

/-- The files `I.1` to `I.2 - 1` of a level. -/
def runFiles (files : List FileMetaData) (I : Nat × Nat) : List FileMetaData :=
  (files.drop I.1).take (I.2 - I.1)

/-- A hint for the run `I`: none, or a file that meets the run's user-key
range. -/
def HintFor (c : Comparator) (files : List FileMetaData) (I : Nat × Nat) (hintIndex : Int) : Prop :=
  hintIndex = -1 ∨ ∃ k : Nat, hintIndex = k ∧ k < files.length ∧
    overlapsRange c (some (files.getD I.1 .empty).smallest.userKey)
      (some (files.getD (I.2 - 1) .empty).largest.userKey) (files.getD k .empty) = true

theorem length_runFiles (files : List FileMetaData) {I : Nat × Nat} (hI : I.2 ≤ files.length) :
    (runFiles files I).length = I.2 - I.1 := by
  simp only [runFiles, List.length_take, List.length_drop]
  omega

omit [Std.TransCmp c.compare] in
/-- `GetRange` of a run above level 0: the smallest key of its first file and
the largest of its last. -/
theorem getRange_runFiles {level : Nat} (hlevel : 0 < level) (files : List FileMetaData)
    {I : Nat × Nat} (hI : I.1 < I.2) (hI' : I.2 ≤ files.length) :
    getRange c level (runFiles files I) =
      ((files.getD I.1 .empty).smallest, (files.getD (I.2 - 1) .empty).largest) := by
  rw [getRange.eq_def, if_neg (by omega), runFiles]
  obtain ⟨k, hk⟩ : ∃ k, I.2 - I.1 = k + 1 := ⟨I.2 - I.1 - 1, by omega⟩
  rw [List.headD_eq_head?_getD, List.getLastD_eq_getLast?, hk, List.head?_take,
    List.getLast?_take, List.head?_drop, if_neg (by omega), List.getElem?_drop,
    show I.1 + (k + 1 - 1) = I.2 - 1 by omega, List.getElem?_eq_getElem (by omega),
    List.getElem?_eq_getElem (by omega), List.getD_eq_getElem _ _ (by omega),
    List.getD_eq_getElem _ _ (by omega)]
  simp

/-- A level with a file lies below `num_non_empty_levels_`. -/
theorem lt_numNonEmptyLevels {v : VersionStorageInfo} {level : Nat}
    (h : 0 < (v.levelFiles level).length) : level < numNonEmptyLevels v.files := by
  by_contra hle
  rw [levelFiles_eq_nil_of_numNonEmptyLevels_le (by omega)] at h
  exact absurd h (Nat.lt_irrefl 0)

section Sorted

variable {files : List FileMetaData} (hs : DisjointSorted c files)
include hs

/-- On a sorted level the files that meet a range are the run `overlapRun`
names. -/
theorem overlapsRange_iff_overlapRun (I : Nat × Nat) {j : Nat} (hj : j < files.length) :
    overlapsRange c (some (files.getD I.1 .empty).smallest.userKey)
        (some (files.getD (I.2 - 1) .empty).largest.userKey) (files.getD j .empty) = true ↔
      (overlapRun c files I).1 ≤ j ∧ j < (overlapRun c files I).2 := by
  -- files that do not end before the range come after those that do, and files
  -- that start after it after those that do not
  have hA := @BinarySearch.lt_findIdx_iff _ files
    (fun f => decide (c.compare f.largest.userKey
      (files.getD I.1 .empty).smallest.userKey ≠ .lt))
    (fun i k hik hk hi => by
      have hle := hs.limit_le_limit hik hk
      rw [List.getD_eq_getElem _ _ (by omega), List.getD_eq_getElem _ _ hk] at hle
      simp only [ne_eq, decide_eq_true_eq] at hi ⊢
      exact fun hlt => hi (Std.TransCmp.lt_of_le_of_lt hle hlt)) j hj
  have hB := @BinarySearch.lt_findIdx_iff _ files
    (fun f => decide (c.compare f.smallest.userKey
      (files.getD (I.2 - 1) .empty).largest.userKey = .gt))
    (fun i k hik hk hi => by
      have hle := hs.start_le_start hik hk
      rw [List.getD_eq_getElem _ _ (by omega), List.getD_eq_getElem _ _ hk] at hle
      simp only [decide_eq_true_eq] at hi ⊢
      exact CmpOrder.gt_of_le_of_gt hle hi) j hj
  rw [overlapRun, overlapsRange_some_iff, List.getD_eq_getElem _ _ hj]
  dsimp only
  rw [← not_lt, hA, hB]
  simp

/-- On a sorted level, one round of `ExpandInputsToCleanCut` only grows a run,
keeps inclusion and stays within the level. -/
theorem overlapRun_growth : IntervalClosure.Growth files.length (overlapRun c files) := by
  -- every file of a run meets the range of the run
  have hmem : ∀ x y j, x ≤ j → j < y → y ≤ files.length →
      (overlapRun c files (x, y)).1 ≤ j ∧ j < (overlapRun c files (x, y)).2 := by
    intro x y j hxj hjy hy
    rw [← overlapsRange_iff_overlapRun hs (x, y) (by omega), overlapsRange_some_iff]
    have hstart : CmpOrder.Le c.compare (files.getD x .empty).smallest.userKey
        (files.getD j .empty).largest.userKey :=
      Std.TransCmp.le_trans (hs.start_le_start hxj (by omega)) (hs.start_le_limit (by omega))
    exact ⟨fun hlt => hstart (Std.OrientedCmp.gt_iff_lt.mpr hlt),
      Std.TransCmp.le_trans (hs.start_le_limit (by omega))
        (hs.limit_le_limit (show j ≤ y - 1 by omega) (by omega))⟩
  refine ⟨fun x y hxy hy => (hmem x y x le_rfl hxy hy).1,
    fun x y hxy hy => by have := (hmem x y (y - 1) (by omega) (by omega) hy).2; omega,
    fun _ _ _ _ => List.findIdx_le_length, fun x y u v hux hxy hyv hv => ⟨?_, ?_⟩⟩
  · -- a wider range starts no later
    apply List.findIdx_le_findIdx
    intro f _ hf
    simp only [ne_eq, decide_eq_true_eq] at hf ⊢
    exact fun hlt => hf (Std.TransCmp.lt_of_lt_of_le hlt (hs.start_le_start hux (by omega)))
  · -- and ends no earlier
    apply List.findIdx_le_findIdx
    intro f _ hf
    simp only [decide_eq_true_eq] at hf ⊢
    have hle := hs.limit_le_limit (show y - 1 ≤ v - 1 by omega) (by omega)
    exact Std.TransCmp.gt_of_gt_of_ge hf fun hlt => hle (Std.OrientedCmp.gt_iff_lt.mpr hlt)

/-- A run that holds every file meeting its range is one that `overlapRun` maps
to itself. -/
theorem closedRun_iff {x y : Nat} :
    ClosedRun c files x y ↔ x < y ∧ y ≤ files.length ∧ overlapRun c files (x, y) = (x, y) := by
  have hF := overlapRun_growth hs
  constructor
  · rintro ⟨hxy, hy, hclosed⟩
    have h₁ := hF.fst_le x y hxy hy
    have h₂ := hF.le_snd x y hxy hy
    have h₃ := hF.snd_le x y hxy hy
    -- a file of the run `overlapRun` names outside `[x, y)` would meet its range
    have hin : ∀ j, (overlapRun c files (x, y)).1 ≤ j → j < (overlapRun c files (x, y)).2 →
        x ≤ j ∧ j < y := fun j hj₁ hj₂ =>
      hclosed j (by omega) ((overlapsRange_iff_overlapRun hs (x, y) (by omega)).mpr ⟨hj₁, hj₂⟩)
    have hfst := hin (overlapRun c files (x, y)).1 le_rfl (by omega)
    have hsnd := hin ((overlapRun c files (x, y)).2 - 1) (by omega) (by omega)
    exact ⟨hxy, hy, Prod.ext (show (overlapRun c files (x, y)).1 = x by omega)
      (show (overlapRun c files (x, y)).2 = y by omega)⟩
  · rintro ⟨hxy, hy, hfix⟩
    refine ⟨hxy, hy, fun j hj hov => ?_⟩
    have := (overlapsRange_iff_overlapRun hs (x, y) hj).mp hov
    rw [hfix] at this
    exact this

end Sorted

/-- One round of `ExpandInputsToCleanCut` on a run above level 0 replaces it by
the run `overlapRun` names, with a hint for that run. -/
theorem getOverlappingInputs_runFiles {v : VersionStorageInfo} {level : Nat}
    (hs : DisjointSorted c (v.levelFiles level)) (hlevel : 0 < level) {I : Nat × Nat}
    (hI : I.1 < I.2) (hI' : I.2 ≤ (v.levelFiles level).length) {hintIndex : Int}
    (hhint : HintFor c (v.levelFiles level) I hintIndex) :
    ∃ fileIndex : Option Int,
      v.getOverlappingInputs c level (some ((v.levelFiles level).getD I.1 .empty).smallest)
          (some ((v.levelFiles level).getD (I.2 - 1) .empty).largest) [] hintIndex
          (some hintIndex) true =
        (runFiles (v.levelFiles level) (overlapRun c (v.levelFiles level) I), fileIndex) ∧
      HintFor c (v.levelFiles level) (overlapRun c (v.levelFiles level) I)
        (fileIndex.getD hintIndex) := by
  have hF := overlapRun_growth hs
  have h₁ := hF.fst_le I.1 I.2 hI hI'
  have h₂ := hF.le_snd I.1 I.2 hI hI'
  have h₃ := hF.snd_le I.1 I.2 hI hI'
  rw [Prod.mk.eta] at h₁ h₂ h₃
  rw [getOverlappingInputs_eq_rangeBinarySearch hlevel (lt_numNonEmptyLevels (by omega)),
    Option.map_some]
  refine ⟨_, Prod.ext ?_ rfl, ?_⟩
  · -- the inputs are the files that meet the range, which form the run
    have hin : ∀ j (hj : j < (v.levelFiles level).length),
        overlapsRange c (some ((v.levelFiles level).getD I.1 .empty).smallest.userKey)
          (some ((v.levelFiles level).getD (I.2 - 1) .empty).largest.userKey)
          (v.levelFiles level)[j] = true ↔
        (overlapRun c (v.levelFiles level) I).1 ≤ j ∧ j < (overlapRun c (v.levelFiles level) I).2 := by
      intro j hj
      rw [← List.getD_eq_getElem _ FileMetaData.empty hj]
      exact overlapsRange_iff_overlapRun hs I hj
    rw [getOverlappingInputsRangeBinarySearch_fst hs hhint, List.nil_append, runFiles,
      BinarySearch.filter_eq_take_drop (by omega) h₃ hin]
  · -- the file found meets the range of `I`, so the wider range of the new run
    have hstart := hs.start_le_start
      (show (overlapRun c (v.levelFiles level) I).1 ≤ I.1 by omega) (by omega)
    have hlimit := hs.limit_le_limit
      (show I.2 - 1 ≤ (overlapRun c (v.levelFiles level) I).2 - 1 by omega) (by omega)
    rcases getOverlappingInputsRangeBinarySearch_snd hhint [] (some (-1)) with
      h | ⟨m, h, hm, hov⟩
    · simp only [h, Option.getD_some]
      exact Or.inl rfl
    · simp only [h, Option.map_some, Option.getD_some]
      exact Or.inr ⟨m, rfl, hm, overlapsRange_mono hstart hlimit hov⟩

/-- Above level 0 the loop of `ExpandInputsToCleanCut` on a run is the
iteration of `overlapRun`. -/
theorem expandInputsLoop_runFiles {v : VersionStorageInfo} {level : Nat}
    (hs : DisjointSorted c (v.levelFiles level)) (hlevel : 0 < level) :
    ∀ fuel (I : Nat × Nat) hintIndex, I.1 < I.2 → I.2 ≤ (v.levelFiles level).length →
      HintFor c (v.levelFiles level) I hintIndex →
      (expandInputsLoop c v level fuel (runFiles (v.levelFiles level) I) hintIndex).1 =
        runFiles (v.levelFiles level)
          (IntervalClosure.grow (overlapRun c (v.levelFiles level)) fuel I) := by
  intro fuel
  induction fuel with
  | zero => intro I hintIndex _ _ _; rfl
  | succ fuel ih =>
    intro I hintIndex hI hI' hhint
    have hF := overlapRun_growth hs
    have h₁ := hF.fst_le I.1 I.2 hI hI'
    have h₂ := hF.le_snd I.1 I.2 hI hI'
    have h₃ := hF.snd_le I.1 I.2 hI hI'
    rw [Prod.mk.eta] at h₁ h₂ h₃
    obtain ⟨fileIndex, hround, hhint'⟩ := getOverlappingInputs_runFiles hs hlevel hI hI' hhint
    rw [expandInputsLoop, getRange_runFiles hlevel _ hI hI']
    dsimp only
    rw [hround, IntervalClosure.grow]
    dsimp only
    rw [length_runFiles _ h₃, length_runFiles _ hI']
    split_ifs with hgrew
    · exact ih _ _ (by omega) h₃ hhint'
    · rfl

/-- On a level above 0 whose files are disjoint and sorted,
`ExpandInputsToCleanCut` on any non-empty run of files ends on the least run
around it that holds every file of the level meeting its user-key range: the
result is such a run, and every such run around the inputs holds it. It then
reports the compaction possible exactly when none of those files is being
compacted. -/
theorem expandInputsToCleanCut_least_closed_run {v : VersionStorageInfo} {level : Nat}
    (hs : DisjointSorted c (v.levelFiles level)) (hlevel : 0 < level) {x y : Nat} (hxy : x < y)
    (hy : y ≤ (v.levelFiles level).length) (beingCompacted : FileMetaData → Bool) :
    ∃ x' y', x' ≤ x ∧ y ≤ y' ∧ ClosedRun c (v.levelFiles level) x' y' ∧
      expandInputsToCleanCut c beingCompacted v level (((v.levelFiles level).drop x).take (y - x)) =
        (!areFilesInCompaction beingCompacted (((v.levelFiles level).drop x').take (y' - x')),
          ((v.levelFiles level).drop x').take (y' - x')) ∧
      ∀ u w, u ≤ x → y ≤ w → ClosedRun c (v.levelFiles level) u w → u ≤ x' ∧ y' ≤ w := by
  obtain ⟨h₁, h₂, h₃, hfix, hleast⟩ := IntervalClosure.grow_spec (overlapRun_growth hs)
    ((v.levelFiles level).length + 1) x y hxy hy (by omega)
  refine ⟨_, _, h₁, h₂, (closedRun_iff hs).mpr ⟨by omega, h₃, by rwa [Prod.mk.eta]⟩, ?_,
    fun u w hux hyw hclosed => ?_⟩
  · have hloop := expandInputsLoop_runFiles hs hlevel ((v.levelFiles level).length + 1) (x, y)
      (-1) hxy hy (Or.inl rfl)
    rw [expandInputsToCleanCut, if_neg (by omega)]
    simp only [runFiles] at hloop
    simp only [hloop]
  · obtain ⟨-, hw, hfixu⟩ := (closedRun_iff hs).mp hclosed
    exact hleast u w hux hyw hw hfixu

/-- From file 1 of the sample level, which ends with `b`, the inputs grow to
file 2, which starts with `b`, and stop there: file 3 starts with `f`, after
`d`. -/
theorem expandInputsToCleanCut_least_closed_run_shared_boundary :
    (∃ x' y', x' ≤ 0 ∧ 1 ≤ y' ∧
      ClosedRun bytewiseComparator (VersionStorageInfo.levelFiles ⟨sharedBoundaryLevels⟩ 1) x' y' ∧
      expandInputsToCleanCut bytewiseComparator (fun _ => false) ⟨sharedBoundaryLevels⟩ 1
          (((VersionStorageInfo.levelFiles ⟨sharedBoundaryLevels⟩ 1).drop 0).take (1 - 0)) =
        (!areFilesInCompaction (fun _ => false)
            (((VersionStorageInfo.levelFiles ⟨sharedBoundaryLevels⟩ 1).drop x').take (y' - x')),
          ((VersionStorageInfo.levelFiles ⟨sharedBoundaryLevels⟩ 1).drop x').take (y' - x')) ∧
      ∀ u w, u ≤ 0 → 1 ≤ w → ClosedRun bytewiseComparator (VersionStorageInfo.levelFiles ⟨sharedBoundaryLevels⟩ 1) u w →
        u ≤ x' ∧ y' ≤ w) ∧
    ((expandInputsToCleanCut bytewiseComparator (fun _ => false) ⟨sharedBoundaryLevels⟩ 1
        (((VersionStorageInfo.levelFiles ⟨sharedBoundaryLevels⟩ 1).drop 0).take (1 - 0))).2.map
      fun f => f.fd.getNumber) = [1, 2] :=
  ⟨expandInputsToCleanCut_least_closed_run disjointSorted_sharedBoundaryLevels (by decide)
    (by decide) (by decide) _, by decide⟩

/-! ## `GetRange` on sorted files -/

omit [Std.TransCmp c.compare] in
/-- Files sorted with disjoint ranges stay so without their first file. -/
theorem DisjointSorted.tail {f : FileMetaData} {rest : List FileMetaData}
    (hs : DisjointSorted c (f :: rest)) : DisjointSorted c rest where
  smallest_le_largest i hi := hs.smallest_le_largest (i + 1) (by simp [hi])
  largest_lt_smallest i hi := hs.largest_lt_smallest (i + 1) (by simp; omega)

/-- The level-0 scan of `GetRange` over sorted files after `p`, from the
smallest key `s` at or below the largest key of `p`: no file starts before `s`,
and each file ends after the one before it, so the scan keeps `s` and ends on
the largest key of the last file. -/
theorem foldl_getRange_sorted (s : InternalKey) :
    ∀ (p : FileMetaData) (rest : List FileMetaData), DisjointSorted c (p :: rest) →
      CmpOrder.Le (InternalKeyComparator.compare c) s.rep p.largest.rep →
      rest.foldl (fun (r : InternalKey × InternalKey) g =>
          (if InternalKeyComparator.compare c g.smallest.rep r.1.rep = .lt then g.smallest else r.1,
            if InternalKeyComparator.compare c g.largest.rep r.2.rep = .gt then g.largest else r.2))
        (s, p.largest) = (s, (rest.getLastD p).largest) := by
  intro p rest
  induction rest generalizing p with
  | nil => intro _ _; rfl
  | cons g rest ih =>
    intro hs hsp
    -- only the neighbours `p` and `g` are compared
    have hpg : InternalKeyComparator.compare c p.largest.rep g.smallest.rep = .lt :=
      hs.largest_lt_smallest 0 (by simp)
    have hg : CmpOrder.Le (InternalKeyComparator.compare c) g.smallest.rep g.largest.rep :=
      hs.smallest_le_largest 1 (by simp)
    have hsg : InternalKeyComparator.compare c s.rep g.smallest.rep = .lt := Std.TransCmp.lt_of_le_of_lt hsp hpg
    have hkeep : InternalKeyComparator.compare c g.smallest.rep s.rep ≠ .lt := by
      rw [Std.OrientedCmp.gt_iff_lt.mpr hsg]
      decide
    have hmove : InternalKeyComparator.compare c g.largest.rep p.largest.rep = .gt :=
      Std.OrientedCmp.gt_iff_lt.mpr (Std.TransCmp.lt_of_lt_of_le hpg hg)
    have hsg' : CmpOrder.Le (InternalKeyComparator.compare c) s.rep g.largest.rep := by
      have hlt : InternalKeyComparator.compare c s.rep g.largest.rep = .lt := Std.TransCmp.lt_of_lt_of_le hsg hg
      intro hgt
      rw [hlt] at hgt
      cases hgt
    rw [List.foldl_cons]
    simp only [if_neg hkeep, if_pos hmove]
    rw [List.getLastD_cons]
    exact ih g hs.tail hsg'

/-- **`GetRange` above level 0** takes the smallest key of the first file and
the largest key of the last one. On files sorted with disjoint ranges this is
what the level-0 scan over all of them finds. -/
theorem getRange_sorted_eq_scan {inputs : List FileMetaData} (hs : DisjointSorted c inputs)
    (hne : inputs ≠ []) (level : Nat) : getRange c level inputs = getRange c 0 inputs := by
  cases inputs with
  | nil => exact absurd rfl hne
  | cons f rest =>
    by_cases hlevel : level = 0
    · rw [hlevel]
    · have hf : CmpOrder.Le (InternalKeyComparator.compare c) f.smallest.rep f.largest.rep :=
        hs.smallest_le_largest 0 (by simp)
      rw [getRange, getRange, if_neg hlevel, if_pos rfl,
        foldl_getRange_sorted f.smallest f rest hs hf, List.headD_cons, List.getLastD_cons]

theorem getRange_sorted_eq_scan_shared_boundary :
    DisjointSorted bytewiseComparator (VersionStorageInfo.levelFiles ⟨sharedBoundaryLevels⟩ 1) ∧
      VersionStorageInfo.levelFiles ⟨sharedBoundaryLevels⟩ 1 ≠ [] ∧
      getRange bytewiseComparator 1 (VersionStorageInfo.levelFiles ⟨sharedBoundaryLevels⟩ 1) =
        getRange bytewiseComparator 0 (VersionStorageInfo.levelFiles ⟨sharedBoundaryLevels⟩ 1) :=
  ⟨disjointSorted_sharedBoundaryLevels, by decide,
    getRange_sorted_eq_scan disjointSorted_sharedBoundaryLevels (by decide) 1⟩

end RocksDB
