import Mathlib
import RocksDB.Db.WriteBatch

/-!
# `db/write_batch.cc`: content flags, the fast path and the rescan

Every write ORs the flag of its record kind into `content_flags_`, and the
prepare-section markers set theirs. A batch made from a serialized `rep`
starts `DEFERRED` instead: `ComputeContentFlags` then runs `Iterate` with a
`BatchContentClassifier`, which ORs one flag per handler call, and keeps the
result.

The two paths disagree on a WritePrepared batch. `MarkEndPrepare` with
`write_after_commit = false` rewrites the leading noop as
`kTypeBeginPersistedPrepareXID`; the classifier keeps the default
`WriteAfterCommit() = true`, so `Iterate` stops with `NotSupported` right after
that marker and never sees the records behind it.
-/

namespace RocksDB

namespace WriteBatch

/-- `WriteBatch(const std::string& rep)`: no save points, flags `DEFERRED`. -/
def ofRep (rep : List UInt8) : WriteBatch where
  savePoints := []
  walTermPoint := ⟨0, 0, 0⟩
  contentFlags := ContentFlags.DEFERRED
  maxBytes := 0
  rep := rep

end WriteBatch

namespace WriteBatchInternal

/-- `WriteBatchInternal::InsertNoop`. -/
def insertNoop (b : WriteBatch) : WriteBatch × Status :=
  ({ b with rep := b.rep ++ [ValueType.noop.toUInt8] }, .ok)

/-- `WriteBatchInternal::MarkEndPrepare`. It asserts `rep_[12] == kTypeNoop`:
the noop a transaction's batch starts with becomes the begin marker. The save
points are dropped. -/
def markEndPrepare (b : WriteBatch) (xid : List UInt8) (writeAfterCommit : Bool) :
    WriteBatch × Status :=
  let beginTag := if writeAfterCommit then ValueType.beginPrepareXID
    else ValueType.beginPersistedPrepareXID
  ({ b with savePoints := [],
            rep := putLengthPrefixedSlice
              (b.rep.set 12 beginTag.toUInt8 ++ [ValueType.endPrepareXID.toUInt8]) xid,
            contentFlags := b.contentFlags ||| ContentFlags.HAS_END_PREPARE |||
              ContentFlags.HAS_BEGIN_PREPARE }, .ok)

/-- The body shared by `MarkCommit` and `MarkRollback`: a tagged xid and its flag. -/
def markXID (b : WriteBatch) (tag : ValueType) (xid : List UInt8) (flag : UInt32) :
    WriteBatch × Status :=
  ({ b with rep := putLengthPrefixedSlice (b.rep ++ [tag.toUInt8]) xid,
            contentFlags := b.contentFlags ||| flag }, .ok)

def markCommit (b : WriteBatch) (xid : List UInt8) : WriteBatch × Status :=
  markXID b .commitXID xid ContentFlags.HAS_COMMIT

def markRollback (b : WriteBatch) (xid : List UInt8) : WriteBatch × Status :=
  markXID b .rollbackXID xid ContentFlags.HAS_ROLLBACK

end WriteBatchInternal

/-- `BatchContentClassifier`: one flag per call. `LogData`, `MarkNoop`,
`WriteAfterCommit` and `Continue` are the `Handler` defaults; the default
`MarkNoop` reports itself undefined, which `Iterate` ignores. -/
def batchContentClassifier : Handler UInt32 where
  call flags
    | .put .. => (flags ||| ContentFlags.HAS_PUT, .ok)
    | .delete .. => (flags ||| ContentFlags.HAS_DELETE, .ok)
    | .singleDelete .. => (flags ||| ContentFlags.HAS_SINGLE_DELETE, .ok)
    | .deleteRange .. => (flags ||| ContentFlags.HAS_DELETE_RANGE, .ok)
    | .merge .. => (flags ||| ContentFlags.HAS_MERGE, .ok)
    | .putBlobIndex .. => (flags ||| ContentFlags.HAS_BLOB_INDEX, .ok)
    | .beginPrepare => (flags ||| ContentFlags.HAS_BEGIN_PREPARE, .ok)
    | .endPrepare _ => (flags ||| ContentFlags.HAS_END_PREPARE, .ok)
    | .commit _ => (flags ||| ContentFlags.HAS_COMMIT, .ok)
    | .rollback _ => (flags ||| ContentFlags.HAS_ROLLBACK, .ok)
    | .logData _ => (flags, .ok)
    | .noop _ => (flags, .invalidArgument "MarkNoop() handler not defined.")
  writeAfterCommit _ := true
  continueIterating _ := true

namespace WriteBatch

/-- `WriteBatch::ComputeContentFlags`: a `DEFERRED` batch is classified by
`Iterate`, and the result is stored back into the batch. -/
def computeContentFlags (b : WriteBatch) : UInt32 × WriteBatch :=
  let rv := b.contentFlags
  if rv &&& ContentFlags.DEFERRED ≠ 0 then
    let rv := (WriteBatch.iterate batchContentClassifier b 0).1
    (rv, { b with contentFlags := rv })
  else (rv, b)

/-- The body shared by `HasPut`, `HasDelete` and the others. -/
def hasFlag (b : WriteBatch) (flag : UInt32) : Bool :=
  b.computeContentFlags.1 &&& flag ≠ 0

def hasPut (b : WriteBatch) : Bool := b.hasFlag ContentFlags.HAS_PUT
def hasDelete (b : WriteBatch) : Bool := b.hasFlag ContentFlags.HAS_DELETE
def hasSingleDelete (b : WriteBatch) : Bool := b.hasFlag ContentFlags.HAS_SINGLE_DELETE
def hasDeleteRange (b : WriteBatch) : Bool := b.hasFlag ContentFlags.HAS_DELETE_RANGE
def hasMerge (b : WriteBatch) : Bool := b.hasFlag ContentFlags.HAS_MERGE
def hasBeginPrepare (b : WriteBatch) : Bool := b.hasFlag ContentFlags.HAS_BEGIN_PREPARE
def hasEndPrepare (b : WriteBatch) : Bool := b.hasFlag ContentFlags.HAS_END_PREPARE
def hasCommit (b : WriteBatch) : Bool := b.hasFlag ContentFlags.HAS_COMMIT
def hasRollback (b : WriteBatch) : Bool := b.hasFlag ContentFlags.HAS_ROLLBACK

end WriteBatch

/-! ## The persisted prepare marker stops the rescan -/

section Iterate

variable {σ : Type} (h : Handler σ)

/-- A batch whose first record is `kTypeBeginPersistedPrepareXID`, iterated by a
handler that keeps the default `WriteAfterCommit() = true`: the handler sees
`MarkBeginPrepare` and nothing after it. -/
theorem iterate_beginPersistedPrepare {b : WriteBatch} {rest : List UInt8}
    (hrep : b.rep.drop kHeader = ValueType.beginPersistedPrepareXID.toUInt8 :: rest) (init : σ)
    (hcont : h.continueIterating init = true)
    (hwac : h.writeAfterCommit (h.call init .beginPrepare).1 = true) :
    ∃ msg, WriteBatch.iterate h b init = ((h.call init .beginPrepare).1, .notSupported msg) := by
  have hlen : kHeader ≤ b.rep.length := by
    by_contra hlt
    rw [List.drop_eq_nil_of_le (by omega)] at hrep
    cases hrep
  -- the loop runs once: the marker's dispatch sets `NotSupported`, which ends it
  have htag : ValueType.ofUInt8? ValueType.beginPersistedPrepareXID.toUInt8 =
      some .beginPersistedPrepareXID := rfl
  simp [WriteBatch.iterate, if_neg (Nat.not_lt.mpr hlen), hrep, iterateLoop, loopContinues,
    iterateStep, dispatch, readRecordFromWriteBatch, htag, hcont, hwac]

end Iterate

/-- `rep_[12]`, the first byte after the header, overwritten. -/
theorem drop_set_header {l : List UInt8} (hl : 12 < l.length) (t : UInt8) (tail : List UInt8) :
    (l.set 12 t ++ tail).drop kHeader = t :: (l.drop 13 ++ tail) := by
  rw [List.set_eq_take_append_cons_drop, if_pos hl, List.append_assoc,
    List.drop_left' (by simp [kHeader]; omega)]
  simp

/-- The rep after `MarkEndPrepare(xid, false)` starts with the persisted marker. -/
theorem markEndPrepare_rep_drop {b : WriteBatch} (hl : 12 < b.rep.length) (xid : List UInt8) :
    ∃ rest, (WriteBatchInternal.markEndPrepare b xid false).1.rep.drop kHeader =
      ValueType.beginPersistedPrepareXID.toUInt8 :: rest := by
  simp only [WriteBatchInternal.markEndPrepare, Bool.false_eq_true, if_false, putLengthPrefixedSlice,
    List.append_assoc, drop_set_header hl]
  exact ⟨_, rfl⟩

namespace WriteBatch

theorem computeContentFlags_of_not_deferred {b : WriteBatch}
    (hb : b.contentFlags &&& ContentFlags.DEFERRED = 0) : b.computeContentFlags.1 = b.contentFlags := by
  simp [computeContentFlags, hb]

theorem computeContentFlags_ofRep (rep : List UInt8) :
    (ofRep rep).computeContentFlags.1 = (WriteBatch.iterate batchContentClassifier (ofRep rep) 0).1 := by
  simp [computeContentFlags, ofRep, show ContentFlags.DEFERRED ≠ 0 by decide]

end WriteBatch

/-- The classifier on a batch that starts with the persisted marker. -/
theorem classify_beginPersistedPrepare {b : WriteBatch} {rest : List UInt8}
    (hrep : b.rep.drop kHeader = ValueType.beginPersistedPrepareXID.toUInt8 :: rest) :
    (WriteBatch.iterate batchContentClassifier b 0).1 = ContentFlags.HAS_BEGIN_PREPARE := by
  obtain ⟨msg, hit⟩ := iterate_beginPersistedPrepare batchContentClassifier hrep 0 rfl rfl
  rw [hit]
  simp [batchContentClassifier]

theorem or_and_eq (x a c : UInt32) : (x ||| a) &&& c = (x &&& c) ||| (a &&& c) := by
  simp [← UInt32.toBitVec_inj, BitVec.and_or_distrib_right]

theorem writeBatch_persistedPrepare_flags_disagree (b : WriteBatch) (xid : List UInt8)
    (hnoop : b.rep[kHeader]? = some ValueType.noop.toUInt8)
    (hflags : b.contentFlags &&& ContentFlags.DEFERRED = 0) :
    let b' := (WriteBatchInternal.markEndPrepare b xid false).1
    b'.computeContentFlags.1 =
        b.contentFlags ||| ContentFlags.HAS_END_PREPARE ||| ContentFlags.HAS_BEGIN_PREPARE ∧
      (WriteBatch.iterate batchContentClassifier b' 0).1 = ContentFlags.HAS_BEGIN_PREPARE ∧
      (WriteBatch.ofRep b'.rep).computeContentFlags.1 = ContentFlags.HAS_BEGIN_PREPARE ∧
      b'.hasEndPrepare = true ∧ (WriteBatch.ofRep b'.rep).hasEndPrepare = false := by
  intro b'
  have hl : 12 < b.rep.length := by
    by_contra hle
    rw [List.getElem?_eq_none (by simp [kHeader]; omega)] at hnoop
    cases hnoop
  obtain ⟨rest, hrest⟩ := markEndPrepare_rep_drop hl xid
  -- the stored flags gain the two marker bits and stay off `DEFERRED`
  have hstored : b'.contentFlags =
      b.contentFlags ||| ContentFlags.HAS_END_PREPARE ||| ContentFlags.HAS_BEGIN_PREPARE := rfl
  have hnot : b'.contentFlags &&& ContentFlags.DEFERRED = 0 := by
    rw [hstored, or_and_eq, or_and_eq, hflags]
    decide
  have hfast := WriteBatch.computeContentFlags_of_not_deferred hnot
  have hslow := classify_beginPersistedPrepare hrest
  have hslow' := classify_beginPersistedPrepare (b := WriteBatch.ofRep b'.rep) hrest
  have hdeferred : (WriteBatch.ofRep b'.rep).computeContentFlags.1 = ContentFlags.HAS_BEGIN_PREPARE :=
    (WriteBatch.computeContentFlags_ofRep _).trans hslow'
  refine ⟨hfast.trans hstored, hslow, hdeferred, ?_, ?_⟩
  · simp only [WriteBatch.hasEndPrepare, WriteBatch.hasFlag, hfast, hstored, or_and_eq]
    rw [UInt32.and_self, show ContentFlags.HAS_BEGIN_PREPARE &&& ContentFlags.HAS_END_PREPARE = 0 by
      decide, UInt32.or_zero]
    simp [UInt32.or_eq_zero_iff, show ContentFlags.HAS_END_PREPARE ≠ 0 by decide]
  · simp only [WriteBatch.hasEndPrepare, WriteBatch.hasFlag, hdeferred]
    decide

/-- A transaction's batch: a noop, one `Put`, and the end of its prepare section
for WritePrepared. `HasPut()` answers `true` from the stored flags and `false`
after the rescan. -/
theorem writeBatch_persistedPrepare_hides_put :
    let b := (WriteBatchInternal.put (WriteBatchInternal.insertNoop (WriteBatch.init 0)).1 0
      [97] [98]).1
    let b' := (WriteBatchInternal.markEndPrepare b [120] false).1
    b'.computeContentFlags.1 =
        ContentFlags.HAS_PUT ||| ContentFlags.HAS_END_PREPARE ||| ContentFlags.HAS_BEGIN_PREPARE ∧
      (WriteBatch.ofRep b'.rep).computeContentFlags.1 = ContentFlags.HAS_BEGIN_PREPARE ∧
      b'.hasPut = true ∧ (WriteBatch.ofRep b'.rep).hasPut = false := by
  obtain ⟨hfast, -, hdeferred, -, -⟩ := writeBatch_persistedPrepare_flags_disagree
    (WriteBatchInternal.put (WriteBatchInternal.insertNoop (WriteBatch.init 0)).1 0 [97] [98]).1
    [120] (by decide) (by decide)
  have hflags : (WriteBatchInternal.put (WriteBatchInternal.insertNoop (WriteBatch.init 0)).1 0
      [97] [98]).1.contentFlags = ContentFlags.HAS_PUT := by decide
  rw [hflags] at hfast
  dsimp only
  refine ⟨hfast, hdeferred, ?_, ?_⟩
  · simp only [WriteBatch.hasPut, WriteBatch.hasFlag, hfast]
    decide
  · simp only [WriteBatch.hasPut, WriteBatch.hasFlag, hdeferred]
    decide

end RocksDB
