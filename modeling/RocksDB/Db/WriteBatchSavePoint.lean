import Mathlib
import RocksDB.Db.WriteBatchRoundTrip

/-!
# Save points of the write batch

`WriteBatch::SetSavePoint` pushes the size of `rep_`, the count and the content
flags. `RollbackToSavePoint` pops the top one and, unless the size is unchanged,
truncates `rep_` to it, writes the count back into the header and restores the
flags; `LocalSavePoint::commit` undoes a write the same way when the batch has
outgrown `max_bytes_`.

## Main definitions

* `WriteBatch.restoreTo`: the undo that `RollbackToSavePoint` and
  `LocalSavePoint::commit` share.
* `WriteBatch.Extends b a`: `b` keeps the header's sequence number and the records
  of `a` and may add records after them; with none added it has `a`'s count and
  flags.
* `BatchOp` and `runOps`: the calls on a batch, nested save points included;
  `openAfter` counts the save points a run leaves open.
* `WriteBatch.Nest c snaps`: the stacked save points of `c` were taken of the
  batches `snaps`, each of which extends the one below.

## Main results

* `WriteBatch.Extends.restoreTo`: undoing back to a save point of `a` gives
  back `a`'s bytes.
* `WriteOp.apply_outcome`: a write fails and leaves the batch, or answers `OK`
  and extends it within the limit.
* `WriteBatch.Nest.runOps`: the invariant over a run with balanced save points.
-/

namespace RocksDB

namespace WriteBatch

variable {a b c : WriteBatch}

/-- The undo of `RollbackToSavePoint` and `LocalSavePoint::commit`: truncate `rep_`
to the save point's size, write its count back and restore its flags. -/
def restoreTo (b : WriteBatch) (save : SavePoint) : WriteBatch :=
  { (({ b with rep := stringResize b.rep save.size } : WriteBatch).setCount save.count) with
      contentFlags := save.contentFlags }

theorem commitSavePoint_eq (save : SavePoint) :
    b.commitSavePoint save =
      if b.maxBytes ≠ 0 ∧ b.rep.length > b.maxBytes then (b.restoreTo save, .memoryLimit)
      else (b, .ok) := rfl

/-- Resizing to the length of a prefix keeps that prefix. -/
theorem stringResize_append (l t : List UInt8) : stringResize (l ++ t) l.length = l := by
  simp [stringResize]

/-- A string led by eight bytes and a four-byte word: its sequence number, its
records and its length. -/
theorem header_parts {x w y : List UInt8} (hx : x.length = 8) (hw : w.length = 4) :
    (x ++ w ++ y).take 8 = x ∧ (x ++ w ++ y).drop kHeader = y ∧
      (x ++ w ++ y).length = kHeader + y.length := by
  refine ⟨?_, ?_, ?_⟩
  · simp [hx]
  · have hlen : kHeader = (x ++ w).length := by simp [hx, hw, kHeader]
    rw [hlen, List.drop_left]
  · simp [hx, hw, kHeader]; omega

theorem length_take_eight (hb : kHeader ≤ b.rep.length) : (b.rep.take 8).length = 8 := by
  simp [kHeader] at hb ⊢; omega

/-- The bytes of a batch are the sequence number, the count word and the records. -/
theorem rep_eq_count (hb : kHeader ≤ b.rep.length) :
    b.rep = b.rep.take 8 ++ encodeFixed32 b.count.toUInt32 ++ b.rep.drop kHeader := by
  have hword : encodeFixed32 b.count.toUInt32 = (b.rep.drop 8).take 4 := by
    simp only [count, UInt32.toUInt32_toInt32]
    exact encodeFixed32_decodeFixed32 (by simp [kHeader] at hb ⊢; omega)
  rw [hword, List.append_assoc, kHeader]
  conv_lhs => rw [← List.take_append_drop 8 b.rep, ← List.take_append_drop 4 (b.rep.drop 8),
    List.drop_drop]

/-- `b` keeps the header's sequence number and the records of `a`, and may add
records after them; when it adds none it has `a`'s count and flags. The limit and
the WAL termination point are `a`'s. -/
structure Extends (b a : WriteBatch) : Prop where
  header_le : kHeader ≤ a.rep.length
  count_le : kHeader ≤ b.rep.length
  take_eq : b.rep.take 8 = a.rep.take 8
  drop_eq : ∃ tail, b.rep.drop kHeader = a.rep.drop kHeader ++ tail ∧
    (tail = [] → b.count = a.count ∧ b.contentFlags = a.contentFlags)
  walTermPoint_eq : b.walTermPoint = a.walTermPoint
  maxBytes_eq : b.maxBytes = a.maxBytes

theorem Extends.refl (ha : kHeader ≤ a.rep.length) : a.Extends a :=
  ⟨ha, ha, rfl, ⟨[], by simp, fun _ => ⟨rfl, rfl⟩⟩, rfl, rfl⟩

theorem Extends.trans (hcb : c.Extends b) (hba : b.Extends a) : c.Extends a := by
  obtain ⟨t₁, hc, ht₁⟩ := hcb.drop_eq
  obtain ⟨t₂, hb, ht₂⟩ := hba.drop_eq
  refine ⟨hba.header_le, hcb.count_le, hcb.take_eq.trans hba.take_eq, ⟨t₂ ++ t₁, ?_, ?_⟩,
    hcb.walTermPoint_eq.trans hba.walTermPoint_eq, hcb.maxBytes_eq.trans hba.maxBytes_eq⟩
  · rw [hc, hb, List.append_assoc]
  · -- no record added on the way: both steps kept the count and the flags
    intro hnil
    obtain ⟨hc₁, hf₁⟩ := ht₁ (List.append_eq_nil_iff.mp hnil).2
    obtain ⟨hc₂, hf₂⟩ := ht₂ (List.append_eq_nil_iff.mp hnil).1
    exact ⟨hc₁.trans hc₂, hf₁.trans hf₂⟩

/-- The bytes of an extension: `a`'s sequence number and records, its own count and
the added records. -/
theorem Extends.rep_eq (h : b.Extends a) : ∃ tail,
    b.rep = a.rep.take 8 ++ encodeFixed32 b.count.toUInt32 ++ (a.rep.drop kHeader ++ tail) ∧
      (tail = [] → b.count = a.count ∧ b.contentFlags = a.contentFlags) := by
  obtain ⟨tail, hdrop, htail⟩ := h.drop_eq
  refine ⟨tail, ?_, htail⟩
  rw [rep_eq_count h.count_le, h.take_eq, hdrop]

/-- A batch with `a`'s sequence number and records, a count word of its own and one
record more extends `a`. -/
theorem extends_of_rep (ha : kHeader ≤ a.rep.length) (n : Int32) (record : List UInt8)
    (hrep : b.rep = a.rep.take 8 ++ encodeFixed32 n.toUInt32 ++ (a.rep.drop kHeader ++ record))
    (hne : record ≠ []) (hw : b.walTermPoint = a.walTermPoint) (hm : b.maxBytes = a.maxBytes) :
    b.Extends a := by
  obtain ⟨htake, hdrop, hlen⟩ := header_parts (y := a.rep.drop kHeader ++ record)
    (length_take_eight ha) (encodeFixed32_length n.toUInt32)
  refine ⟨ha, by rw [hrep, hlen]; omega, by rw [hrep, htake],
    ⟨record, by rw [hrep, hdrop], fun h => absurd h hne⟩, hw, hm⟩

/-- Undoing back to a save point taken of `a` gives back `a`'s bytes and flags. -/
theorem Extends.restoreTo (h : b.Extends a) :
    b.restoreTo a.localSavePoint = { b with rep := a.rep, contentFlags := a.contentFlags } := by
  obtain ⟨tail, hb, -⟩ := h.rep_eq
  -- what is left after the truncation: `a`'s bytes with `b`'s count word
  set kept := a.rep.take 8 ++ encodeFixed32 b.count.toUInt32 ++ a.rep.drop kHeader
  obtain ⟨htake, hdrop, hlen⟩ := header_parts (y := a.rep.drop kHeader)
    (length_take_eight h.header_le) (encodeFixed32_length b.count.toUInt32)
  have hkept : kept.length = a.rep.length := by
    have := h.header_le
    rw [hlen, List.length_drop]
    omega
  have hresize : stringResize b.rep a.rep.length = kept := by
    have hb' : b.rep = kept ++ tail := by rw [hb]; simp only [kept, List.append_assoc]
    rw [hb', ← hkept, stringResize_append]
  have hrep : kept.take 8 ++ encodeFixed32 a.count.toUInt32 ++ kept.drop 12 = a.rep := by
    rw [show (12 : Nat) = kHeader from rfl, htake, hdrop]
    exact (rep_eq_count h.header_le).symm
  simp only [WriteBatch.restoreTo, localSavePoint, getDataSize, hresize, setCount, hrep]

/-- Only the bytes, the flags, the limit and the WAL termination point of the
extension matter. -/
theorem Extends.congr_left {b' : WriteBatch} (h : b.Extends a) (hrep : b'.rep = b.rep)
    (hf : b'.contentFlags = b.contentFlags) (hw : b'.walTermPoint = b.walTermPoint)
    (hm : b'.maxBytes = b.maxBytes) : b'.Extends a := by
  have hcount : b'.count = b.count := by simp [count, hrep]
  obtain ⟨tail, hdrop, htail⟩ := h.drop_eq
  refine ⟨h.header_le, hrep ▸ h.count_le, hrep ▸ h.take_eq, ⟨tail, hrep ▸ hdrop, ?_⟩,
    hw.trans h.walTermPoint_eq, hm.trans h.maxBytes_eq⟩
  intro hnil
  rw [hcount, hf]
  exact htail hnil

/-- Giving `b` back `a`'s bytes and flags gives `a`, when the save points agree. -/
theorem Extends.restore_eq (h : b.Extends a) (hsp : b.savePoints = a.savePoints) :
    { b with rep := a.rep, contentFlags := a.contentFlags } = a := by
  have hw := h.walTermPoint_eq
  have hm := h.maxBytes_eq
  cases a
  cases b
  simp_all

/-- With no record added, a batch is the one it extends, when the save points agree. -/
theorem Extends.eq_of_length (h : b.Extends a) (hlen : b.rep.length = a.rep.length)
    (hsp : b.savePoints = a.savePoints) : b = a := by
  obtain ⟨tail, hb, htail⟩ := h.rep_eq
  obtain ⟨-, -, hblen⟩ := header_parts (y := a.rep.drop kHeader ++ tail)
    (length_take_eight h.header_le) (encodeFixed32_length b.count.toUInt32)
  have hnil : tail = [] := by
    have ha := h.header_le
    rw [← hb, hlen, List.length_append, List.length_drop] at hblen
    exact List.eq_nil_of_length_eq_zero (by omega)
  obtain ⟨hcount, hflags⟩ := htail hnil
  have hrep : b.rep = a.rep := by
    rw [hb, hnil, List.append_nil, hcount]
    exact (rep_eq_count h.header_le).symm
  rw [← h.restore_eq hsp, ← hrep, ← hflags]

/-! ## The writes -/

/-- What a write may do to a batch: fail and leave it, or answer `OK` with records
added, the save points kept and, under a limit, the batch within it. -/
def WriteOutcome (b : WriteBatch) (r : WriteBatch × Status) : Prop :=
  (r.1 = b ∧ r.2 ≠ .ok) ∨
    (r.2 = .ok ∧ r.1.Extends b ∧ r.1.savePoints = b.savePoints ∧
      (r.1.maxBytes ≠ 0 → r.1.rep.length ≤ r.1.maxBytes))

theorem writeOutcome_self (s : Status) (hs : s ≠ .ok) : WriteOutcome b (b, s) :=
  .inl ⟨rfl, hs⟩

/-- `LocalSavePoint::commit` of a write that extended the batch: over the limit it
gives the batch back and answers `MemoryLimit`. -/
theorem commitSavePoint_of_extends (h : b.Extends a) (hsp : b.savePoints = a.savePoints) :
    b.commitSavePoint a.localSavePoint =
      if b.maxBytes ≠ 0 ∧ b.rep.length > b.maxBytes then (a, .memoryLimit) else (b, .ok) := by
  rw [commitSavePoint_eq]
  split_ifs
  · rw [h.restoreTo, h.restore_eq hsp]
  · rfl

theorem writeOutcome_commitSavePoint (h : b.Extends a) (hsp : b.savePoints = a.savePoints) :
    WriteOutcome a (b.commitSavePoint a.localSavePoint) := by
  rw [commitSavePoint_of_extends h hsp]
  split_ifs with hover
  · exact writeOutcome_self _ (by decide)
  · refine .inr ⟨rfl, h, hsp, fun hm => ?_⟩
    simp only [not_and, gt_iff_lt, not_lt] at hover
    exact hover hm

/-- A key write, from any batch with a header. -/
theorem writeOutcome_addKeyRecord (hb : kHeader ≤ b.rep.length) (cf : UInt32) (d c : ValueType)
    (slices : List (List UInt8)) (flag : UInt32) :
    WriteOutcome b (b.addKeyRecord cf d c slices flag) := by
  have h8 : (b.rep.take 8).length = 8 := by simp [kHeader] at hb ⊢; omega
  refine writeOutcome_commitSavePoint (extends_of_rep hb (b.count + 1)
    (keyRecordBytes cf d c slices) ?_ (by simp [keyRecordBytes]) rfl rfl) rfl
  rw [Built.foldl_putLengthPrefixedSlice]
  by_cases hcf : cf = 0 <;> simp [hcf, keyRecordBytes, putVarint32, setCount, kHeader]

theorem writeOutcome_putLogData (hb : kHeader ≤ b.rep.length) (blob : List UInt8) :
    WriteOutcome b (b.putLogData blob) := by
  refine writeOutcome_commitSavePoint (extends_of_rep hb b.count
    (ValueType.logData.toUInt8 :: slicesBytes [blob]) ?_ (by simp) rfl rfl) rfl
  conv_lhs => rw [rep_eq_count hb]
  simp [putLengthPrefixedSlice, slicesBytes]

end WriteBatch

open WriteBatch in
/-- Every write of the interface fails and leaves the batch, or answers `OK` and
extends it within the limit. -/
theorem WriteOp.apply_outcome {b : WriteBatch} (hb : kHeader ≤ b.rep.length) (op : WriteOp) :
    WriteOutcome b (op.apply b) := by
  cases op with
  | put cf k v =>
    simp only [WriteOp.apply, WriteBatchInternal.put]
    split_ifs
    · exact writeOutcome_self _ (by decide)
    · exact writeOutcome_self _ (by decide)
    · exact writeOutcome_addKeyRecord hb _ _ _ _ _
  | delete cf k => exact writeOutcome_addKeyRecord hb _ _ _ _ _
  | singleDelete cf k => exact writeOutcome_addKeyRecord hb _ _ _ _ _
  | deleteRange cf k e => exact writeOutcome_addKeyRecord hb _ _ _ _ _
  | merge cf k v =>
    simp only [WriteOp.apply, WriteBatchInternal.merge]
    split_ifs
    · exact writeOutcome_self _ (by decide)
    · exact writeOutcome_self _ (by decide)
    · exact writeOutcome_addKeyRecord hb _ _ _ _ _
  | putBlobIndex cf k v => exact writeOutcome_addKeyRecord hb _ _ _ _ _
  | putLogData blob => exact writeOutcome_putLogData hb blob

/-- A write that answers `MemoryLimit` leaves the batch as it was; one that answers
`OK` leaves it within `max_bytes`. -/
theorem writeBatch_memoryLimit_leaves_batch (b : WriteBatch) (op : WriteOp)
    (hb : kHeader ≤ b.rep.length) (hmax : 0 < b.maxBytes) :
    ((op.apply b).2 = .memoryLimit → (op.apply b).1 = b) ∧
      ((op.apply b).2 = .ok → (op.apply b).1.rep.length ≤ b.maxBytes) := by
  rcases op.apply_outcome hb with ⟨hsame, hfail⟩ | ⟨hok, hext, -, hlimit⟩
  · exact ⟨fun _ => hsame, fun hok => absurd hok hfail⟩
  · refine ⟨fun hlim => absurd (hlim.symm.trans hok) (by decide), fun _ => ?_⟩
    rw [← hext.maxBytes_eq]
    exact hlimit (by rw [hext.maxBytes_eq]; omega)

/-- A batch limited to 16 bytes refuses `Put("\x01", "\x02")`, which would take it to 17,
and is left as it was. -/
theorem writeBatch_memoryLimit_leaves_batch_sample :
    kHeader ≤ (WriteBatch.init 16).rep.length ∧ 0 < (WriteBatch.init 16).maxBytes ∧
      ((WriteOp.put 0 [1] [2]).apply (WriteBatch.init 16)).2 = .memoryLimit ∧
      ((WriteOp.put 0 [1] [2]).apply (WriteBatch.init 16)).1 = WriteBatch.init 16 :=
  ⟨by decide, by decide, by decide,
    (writeBatch_memoryLimit_leaves_batch (WriteBatch.init 16) (.put 0 [1] [2]) (by decide)
      (by decide)).1 (by decide)⟩

/-! ## Nested save points -/

/-- A call on a batch: a write, or one of the save-point calls. -/
inductive BatchOp where
  | write (op : WriteOp)
  | setSavePoint
  | rollbackToSavePoint
  | popSavePoint
  deriving DecidableEq, Repr

/-- The source function each call runs. -/
def BatchOp.apply (b : WriteBatch) : BatchOp → WriteBatch × Status
  | .write op => op.apply b
  | .setSavePoint => (b.setSavePoint, .ok)
  | .rollbackToSavePoint => b.rollbackToSavePoint
  | .popSavePoint => b.popSavePoint

/-- The calls run one after another. -/
def runOps (b : WriteBatch) : List BatchOp → WriteBatch
  | [] => b
  | op :: ops => runOps (op.apply b).1 ops

/-- The number of save points a run leaves open above the `d` it starts with, or
`none` when it rolls back or pops one it did not set. -/
def openAfter : Nat → List BatchOp → Option Nat
  | d, [] => some d
  | d, .write _ :: ops => openAfter d ops
  | d, .setSavePoint :: ops => openAfter (d + 1) ops
  | 0, .rollbackToSavePoint :: _ => none
  | d + 1, .rollbackToSavePoint :: ops => openAfter d ops
  | 0, .popSavePoint :: _ => none
  | d + 1, .popSavePoint :: ops => openAfter d ops

namespace WriteBatch

variable {b c s : WriteBatch} {rest snaps : List WriteBatch}

/-- The stacked save points of `c` were taken, top first, of the batches `snaps`:
each save point is the `SavePoint` of its batch, on top of that batch's own stack,
and each batch extends the one below it. -/
def Nest : WriteBatch → List WriteBatch → Prop
  | _, [] => True
  | c, s :: rest => c.savePoints = s.localSavePoint :: s.savePoints ∧ c.Extends s ∧ Nest s rest

theorem Nest.write (h : Nest c snaps) (op : WriteOp) : Nest (op.apply c).1 snaps := by
  match snaps, h with
  | [], _ => trivial
  | s :: rest, ⟨hsp, hext, hrest⟩ =>
    rcases op.apply_outcome hext.count_le with ⟨hsame, -⟩ | ⟨-, hext', hsp', -⟩
    · rw [hsame]
      exact ⟨hsp, hext, hrest⟩
    · exact ⟨hsp'.trans hsp, hext'.trans hext, hrest⟩

theorem Nest.setSavePoint (h : Nest c (s :: rest)) : Nest c.setSavePoint (c :: s :: rest) :=
  ⟨rfl, (Extends.refl h.2.1.count_le).congr_left rfl rfl rfl rfl, h⟩

/-- `RollbackToSavePoint` with a save point on the stack, its three cases named. -/
theorem rollbackToSavePoint_of_cons {sp : SavePoint} {sps : List SavePoint}
    (hsp : c.savePoints = sp :: sps) :
    c.rollbackToSavePoint =
      if sp.size = c.rep.length then ({ c with savePoints := sps }, .ok)
      else if sp.size = 0 then (({ c with savePoints := sps } : WriteBatch).clear, .ok)
      else (({ c with savePoints := sps } : WriteBatch).restoreTo sp, .ok) := by
  unfold rollbackToSavePoint
  split
  · rename_i hnil
    rw [hsp] at hnil
    cases hnil
  · rename_i savepoint rest' hcons
    obtain ⟨rfl, rfl⟩ := List.cons.inj (hcons.symm.trans hsp)
    rfl

/-- Rolling back to the top save point gives back the batch it was taken of. -/
theorem Nest.rollback (h : Nest c (s :: rest)) : c.rollbackToSavePoint = (s, .ok) ∧ Nest s rest := by
  obtain ⟨hsp, hext, hrest⟩ := h
  refine ⟨?_, hrest⟩
  have hext' : ({ c with savePoints := s.savePoints } : WriteBatch).Extends s :=
    hext.congr_left rfl rfl rfl rfl
  rw [rollbackToSavePoint_of_cons hsp]
  by_cases hsize : s.localSavePoint.size = c.rep.length
  · -- the size is unchanged: nothing was written since
    rw [if_pos hsize, hext'.eq_of_length hsize.symm rfl]
  · -- the size of a save point is never zero: every batch has a header
    have hzero : s.localSavePoint.size ≠ 0 := by
      have := hext.header_le
      simp only [localSavePoint, getDataSize, kHeader] at this ⊢
      omega
    rw [if_neg hsize, if_neg hzero, hext'.restoreTo, hext'.restore_eq rfl]

/-- Popping the top save point keeps the batch and merges the two top levels. -/
theorem Nest.pop (h : Nest c (s :: rest)) :
    c.popSavePoint = ({ c with savePoints := s.savePoints }, .ok) ∧
      Nest { c with savePoints := s.savePoints } rest := by
  obtain ⟨hsp, hext, hrest⟩ := h
  refine ⟨by simp [popSavePoint, hsp], ?_⟩
  match rest, hrest with
  | [], _ => trivial
  | s' :: rest', ⟨hsp', hext', hrest'⟩ =>
    exact ⟨hsp', (hext.trans hext').congr_left rfl rfl rfl rfl, hrest'⟩

/-- The invariant over a run: from a batch whose stack rests on a save point taken
of `b`, a run that closes every save point it opens leaves that one on top, taken
of `b`. The induction is on the calls, with the open save points above `b`. -/
theorem Nest.runOps : ∀ (ops : List BatchOp) (c : WriteBatch) (snaps : List WriteBatch),
    Nest c (snaps ++ [b]) → openAfter snaps.length ops = some 0 →
      Nest (RocksDB.runOps c ops) [b] := by
  intro ops
  induction ops with
  | nil =>
    intro c snaps h hops
    have hnil : snaps = [] := List.eq_nil_of_length_eq_zero (by simpa [openAfter] using hops)
    subst hnil
    exact h
  | cons op ops ih =>
    intro c snaps h hops
    -- the stack is never empty: `b`'s save point is at its bottom
    obtain ⟨s, rest, hsnaps⟩ : ∃ s rest, snaps ++ [b] = s :: rest :=
      List.exists_cons_of_ne_nil (by simp)
    cases op with
    | write op => exact ih _ snaps (h.write op) hops
    | setSavePoint =>
      rw [hsnaps] at h
      exact ih _ (c :: snaps) (by rw [List.cons_append, hsnaps]; exact h.setSavePoint) hops
    | rollbackToSavePoint =>
      match snaps, h, hops with
      | [], _, hops => simp [openAfter] at hops
      | s :: snaps, h, hops =>
        obtain ⟨hroll, hnest⟩ := Nest.rollback h
        simp only [RocksDB.runOps, BatchOp.apply, hroll]
        exact ih s snaps hnest hops
    | popSavePoint =>
      match snaps, h, hops with
      | [], _, hops => simp [openAfter] at hops
      | s :: snaps, h, hops =>
        obtain ⟨hpop, hnest⟩ := Nest.pop h
        simp only [RocksDB.runOps, BatchOp.apply, hpop]
        exact ih _ snaps hnest hops

end WriteBatch

open WriteBatch in
/-- After `SetSavePoint` and any run of writes and nested save points that closes
every save point it opens, `RollbackToSavePoint` answers `OK` and gives back the
batch as it was at `SetSavePoint`: its bytes, and so its count, its flags and its
save points. With no save point, it answers `NotFound` and leaves the batch. -/
theorem writeBatch_rollbackToSavePoint_restores (b : WriteBatch) (hb : kHeader ≤ b.rep.length)
    (ops : List BatchOp) (hops : openAfter 0 ops = some 0) :
    (runOps b.setSavePoint ops).rollbackToSavePoint = (b, .ok) ∧
      (b.savePoints = [] → b.rollbackToSavePoint = (b, .notFound)) := by
  have hstart : Nest b.setSavePoint ([] ++ [b]) :=
    ⟨rfl, (Extends.refl hb).congr_left rfl rfl rfl rfl, trivial⟩
  refine ⟨(Nest.rollback (Nest.runOps ops _ [] hstart hops)).1, fun hnil => ?_⟩
  simp [rollbackToSavePoint, hnil]

/-- A put, a nested save point around a delete that is popped, a rolled-back merge
and a log record, after a save point on a new batch. -/
theorem writeBatch_rollbackToSavePoint_restores_sample :
    kHeader ≤ (WriteBatch.init 0).rep.length ∧
      openAfter 0 [.write (.put 0 [1] [2]), .setSavePoint, .write (.delete 3 [1]),
        .popSavePoint, .setSavePoint, .write (.merge 0 [1] [4]), .rollbackToSavePoint,
        .write (.putLogData [5])] = some 0 ∧
      (runOps (WriteBatch.init 0).setSavePoint [.write (.put 0 [1] [2]), .setSavePoint,
        .write (.delete 3 [1]), .popSavePoint, .setSavePoint, .write (.merge 0 [1] [4]),
        .rollbackToSavePoint, .write (.putLogData [5])]).rollbackToSavePoint =
        (WriteBatch.init 0, .ok) :=
  ⟨by decide, by decide, (writeBatch_rollbackToSavePoint_restores (WriteBatch.init 0) (by decide)
    _ (by decide)).1⟩

end RocksDB
