import Mathlib
import RocksDB.Db.VersionEdit

/-!
# What the manifest encoding keeps of a version edit

`EncodeTo` writes `min_log_number_to_keep_` only inside the `kNewFile4` entry of
an added file. An edit that adds no file therefore encodes to the same bytes
whether or not `SetMinLogNumberToKeep` was called, and no decoder can tell the
two apart: `DecodeFrom` of the bytes of such an edit reports the field unset.
-/

namespace RocksDB

namespace VersionEdit

@[simp] theorem encodeNewFiles_nil (e : VersionEdit) (dst : List UInt8) (w : Bool) :
    e.encodeNewFiles [] dst w = (dst, true) := rfl

end VersionEdit

theorem versionEdit_encodeTo_ignores_minLogNumberToKeep (e : VersionEdit) (n : UInt64)
    (dst : List UInt8) (hfiles : e.newFiles = []) :
    (e.setMinLogNumberToKeep n).encodeTo dst = e.encodeTo dst := by
  have hfiles' : (e.setMinLogNumberToKeep n).newFiles = [] := hfiles
  simp only [VersionEdit.encodeTo, hfiles, hfiles', VersionEdit.encodeNewFiles_nil]
  rfl

/-- The edit `SetMinLogNumberToKeep(7)` encodes to no bytes at all, which decode
to an edit with the field unset. -/
theorem versionEdit_minLogNumberToKeep_lost :
    (VersionEdit.empty.setMinLogNumberToKeep 7).encodeTo [] = VersionEdit.empty.encodeTo [] ∧
      VersionEdit.empty.encodeTo [] = ([], true) ∧
      VersionEdit.decodeFrom [] = (VersionEdit.empty, .ok) ∧
      VersionEdit.empty.hasMinLogNumberToKeep = false :=
  ⟨versionEdit_encodeTo_ignores_minLogNumberToKeep VersionEdit.empty 7 [] rfl, rfl, rfl, rfl⟩

end RocksDB
