import Mathlib
import RocksDB.Db.VersionBuilder

/-!
# What `SaveTo` stores for a level

`VersionBuilder.mergeLevel_perm`: whatever the comparator, the merge of `SaveTo`
stores exactly the base files and the added files whose numbers are not
deleted, each as often as it occurs there. The merge never compares an added
file with the base files for equality, so a base file that an edit deletes and
then adds back at the same level is stored twice: the addition clears the
pending deletion, which was the only thing that would have dropped the base copy.
-/

namespace RocksDB

namespace VersionBuilder

variable (cmp : FileMetaData → FileMetaData → Bool) (deleted : List UInt64)

/-- The files `MaybeAddFile` keeps. -/
def kept (f : FileMetaData) : Bool := f.fd.getNumber ∉ deleted

theorem maybeAddFile_eq (out : List FileMetaData) (f : FileMetaData) :
    maybeAddFile deleted out f = out ++ [f].filter (kept deleted) := by
  by_cases h : f.fd.getNumber ∈ deleted <;> simp [maybeAddFile, kept, h]

theorem foldl_maybeAddFile (out files : List FileMetaData) :
    files.foldl (maybeAddFile deleted) out = out ++ files.filter (kept deleted) := by
  induction files generalizing out with
  | nil => simp
  | cons f files ih =>
    rw [List.foldl_cons, ih, maybeAddFile_eq, List.append_assoc, ← List.filter_append]
    rfl

/-- The merge stores the kept base and added files, in some order. The
induction is on the added files, each of which splits the base files left. -/
theorem mergeLevel_perm (out base added : List FileMetaData) :
    (mergeLevel cmp deleted out base added).Perm
      (out ++ (base ++ added).filter (kept deleted)) := by
  induction added generalizing out base with
  | nil => simp [mergeLevel, foldl_maybeAddFile]
  | cons a rest ih =>
    rcases hspan : base.span (fun f => !cmp a f) with ⟨before, after⟩
    have hbase : base = before ++ after := by
      have h := List.span_eq_takeWhile_dropWhile (p := fun f => !cmp a f) (l := base)
      rw [hspan] at h
      obtain ⟨rfl, rfl⟩ := Prod.mk.inj h
      exact (List.takeWhile_append_dropWhile).symm
    simp only [mergeLevel, hspan]
    refine (ih _ after).trans ?_
    rw [foldl_maybeAddFile, maybeAddFile_eq, hbase]
    simp only [List.filter_append, List.append_assoc, List.filter_cons]
    -- the added file moves past the base files above it
    refine List.Perm.append_left _ (List.Perm.append_left _ ?_)
    by_cases hk : kept deleted a
    · simpa [hk] using List.perm_middle.symm
    · simp [hk]

theorem applyDelete_base (b : VersionBuilder) (d : Int32 × UInt64) :
    (b.applyDelete d).base = b.base := by
  obtain ⟨level, number⟩ := d
  simp only [applyDelete]
  split_ifs <;> rfl

theorem applyAdd_base (b : VersionBuilder) (nf : Int32 × FileMetaData) :
    (b.applyAdd nf).base = b.base := by
  obtain ⟨level, f⟩ := nf
  simp only [applyAdd]
  split_ifs <;> rfl

/-- `Apply` never changes the base version. -/
theorem apply_base (b : VersionBuilder) (e : VersionEdit) : (b.apply e).base = b.base := by
  have hdel : ∀ (ds : List (Int32 × UInt64)) (b : VersionBuilder),
      (ds.foldl applyDelete b).base = b.base := by
    intro ds
    induction ds with
    | nil => intro b; rfl
    | cons d ds ih => intro b; rw [List.foldl_cons, ih, applyDelete_base]
  have hadd : ∀ (nfs : List (Int32 × FileMetaData)) (b : VersionBuilder),
      (nfs.foldl applyAdd b).base = b.base := by
    intro nfs
    induction nfs with
    | nil => intro b; rfl
    | cons nf nfs ih => intro b; rw [List.foldl_cons, ih, applyAdd_base]
  rw [apply, hadd, hdel]

/-- `SaveTo` stores at a level of the base the merge of that level's state. -/
theorem saveTo_levelFiles (b : VersionBuilder) {level : Nat} (h : level < b.numLevels) :
    b.saveTo.levelFiles level = b.saveLevel level := by
  simp [saveTo, VersionStorageInfo.levelFiles, h]

end VersionBuilder

/-- A level of a fresh builder after an edit that deletes file `g`'s number at
that level and adds `g` back there: no deletion is pending and `g` is added. -/
theorem VersionBuilder.create_apply_readd (base : VersionStorageInfo) {level : Nat}
    (hlevel : level < base.numLevels) (hlevel32 : level < 2 ^ 31) (g : FileMetaData) :
    ((VersionBuilder.create base).apply
        ((VersionEdit.empty.deleteFile (Int32.ofNat level) g.fd.getNumber).addFileMeta
          (Int32.ofNat level) g)).levelState level = ⟨[], [(g.fd.getNumber, g)]⟩ := by
  have hint : (Int32.ofNat level).toInt = level := Int32.toInt_ofNat_of_lt hlevel32
  simp [VersionBuilder.apply, VersionEdit.addFileMeta, VersionEdit.deleteFile,
    VersionEdit.empty, DeletedFileSet.insert, VersionBuilder.applyDelete,
    VersionBuilder.applyAdd, VersionBuilder.create, VersionBuilder.numLevels, hint, hlevel,
    VersionBuilder.levelState, LevelState.deleteNumber, LevelState.dropAdded,
    LevelState.addFile, LevelState.empty]

theorem versionBuilder_saveTo_stores_readded_file_twice (base : VersionStorageInfo)
    (level : Nat) (f g : FileMetaData) (hlevel : level < base.numLevels)
    (hlevel32 : level < 2 ^ 31) (hf : f ∈ base.levelFiles level)
    (hg : g.fd.getNumber = f.fd.getNumber) :
    2 ≤ (((VersionBuilder.create base).apply
        ((VersionEdit.empty.deleteFile (Int32.ofNat level) f.fd.getNumber).addFileMeta
          (Int32.ofNat level) g)).saveTo.levelFiles level).countP
        (fun h => h.fd.getNumber = f.fd.getNumber) := by
  have hstate := VersionBuilder.create_apply_readd base hlevel hlevel32 g
  rw [hg] at hstate
  set b := (VersionBuilder.create base).apply
    ((VersionEdit.empty.deleteFile (Int32.ofNat level) f.fd.getNumber).addFileMeta
      (Int32.ofNat level) g)
  have hbase : b.base = base := VersionBuilder.apply_base _ _
  -- with nothing deleted the merge stores the base files and `g`
  have hperm : (b.saveTo.levelFiles level).Perm (base.levelFiles level ++ [g]) := by
    have hlt : level < b.numLevels := by simpa [VersionBuilder.numLevels, hbase] using hlevel
    rw [VersionBuilder.saveTo_levelFiles b hlt, VersionBuilder.saveLevel, hstate, hbase]
    refine (VersionBuilder.mergeLevel_perm _ _ _ _ _).trans ?_
    have hkeep : (base.levelFiles level).filter (VersionBuilder.kept []) = base.levelFiles level :=
      List.filter_eq_self.mpr (fun _ _ => by simp [VersionBuilder.kept])
    simp [VersionBuilder.sortAdded, VersionBuilder.kept, hkeep]
  rw [hperm.countP_eq, List.countP_append]
  have hbaseCount : 0 < (base.levelFiles level).countP (fun h => h.fd.getNumber = f.fd.getNumber) :=
    List.countP_pos_iff.mpr ⟨f, hf, by simp⟩
  have hgCount : [g].countP (fun h => h.fd.getNumber = f.fd.getNumber) = 1 := by simp [hg]
  omega

/-- File 5 of level 1, holding the single key `a` at sequence number 1. -/
def readdSampleFile : FileMetaData :=
  { fd := FileDescriptor.make 5 0 100, smallest := ⟨[97, 1, 1, 0, 0, 0, 0, 0, 0]⟩,
    largest := ⟨[97, 1, 1, 0, 0, 0, 0, 0, 0]⟩, smallestSeqno := 1, largestSeqno := 1,
    markedForCompaction := false }

/-- Deleting file 5 from level 1 and adding it back in one edit leaves level 1
listing it twice. -/
theorem versionBuilder_readd_sample :
    ((VersionBuilder.create ⟨[[], [readdSampleFile]]⟩).apply
        ((VersionEdit.empty.deleteFile (Int32.ofNat 1) readdSampleFile.fd.getNumber).addFileMeta
          (Int32.ofNat 1) readdSampleFile)).saveTo =
      ⟨[[], [readdSampleFile, readdSampleFile]]⟩ ∧
    2 ≤ (((VersionBuilder.create ⟨[[], [readdSampleFile]]⟩).apply
        ((VersionEdit.empty.deleteFile (Int32.ofNat 1) readdSampleFile.fd.getNumber).addFileMeta
          (Int32.ofNat 1) readdSampleFile)).saveTo.levelFiles 1).countP
        (fun h => h.fd.getNumber = readdSampleFile.fd.getNumber) :=
  ⟨by decide, versionBuilder_saveTo_stores_readded_file_twice _ 1 readdSampleFile readdSampleFile
    (by decide) (by decide) (by decide) rfl⟩

end RocksDB
