import Mathlib
import RocksDB.Db.WriteBatchSavePoint

/-!
# `WriteBatchInternal::Append`

`Append(dst, src, wal_only)` copies the bytes of `src` after its header to the end
of `dst` and adds the counts. With `wal_only` and a WAL termination point set by
`MarkWalTerminationPoint`, it copies only the bytes up to that point, with the
count saved there. The records of a batch are self-delimiting and the saved size
is a record boundary, so `Iterate` over the result reads the records of `dst`
and then those of `src`, or those written before the termination point.

## Main results

* `WriteBatch.Built.append`: appending a prefix of the records of a built batch
  to a built batch gives a built batch.
* `applyOps_walTermPoint`: writes keep the WAL termination point.
-/

namespace RocksDB

open WriteBatch

variable {dst src b : WriteBatch} {nd ns : Nat} {bd bs : List UInt8}

/-- A batch that `MarkWalTerminationPoint` has marked keeps its shape. -/
theorem WriteBatch.Built.markWal (hb : b.Built ns bs) :
    b.markWalTerminationPoint.Built ns bs :=
  ⟨hb.maxBytes_eq, hb.rep_eq⟩

theorem WriteBatch.Built.header_le (hb : b.Built ns bs) : kHeader ≤ b.rep.length := by
  rw [hb.rep_length]
  simp [kHeader]

/-- Writes keep the WAL termination point and the header. The induction is on the
writes, each of which fails and leaves the batch or extends it. -/
theorem applyOps_walTermPoint : ∀ (ops : List WriteOp) (b : WriteBatch),
    kHeader ≤ b.rep.length →
      (applyOps b ops).1.walTermPoint = b.walTermPoint ∧
        kHeader ≤ (applyOps b ops).1.rep.length := by
  intro ops
  induction ops with
  | nil => intro b hb; exact ⟨rfl, hb⟩
  | cons op ops ih =>
    intro b hb
    -- the first write keeps both, whether it fails or extends the batch
    have hstep : (op.apply b).1.walTermPoint = b.walTermPoint ∧
        kHeader ≤ (op.apply b).1.rep.length := by
      rcases op.apply_outcome hb with ⟨hsame, -⟩ | ⟨-, hext, -, -⟩
      · rw [hsame]; exact ⟨rfl, hb⟩
      · exact ⟨hext.walTermPoint_eq, hext.count_le⟩
    obtain ⟨hw, hlen⟩ := ih (op.apply b).1 hstep.2
    exact ⟨hw.trans hstep.1, hlen⟩

/-- A batch made of a built batch with its count raised by `k` and the first `len`
bytes of the records `bs` of another batch after its own is built. -/
theorem WriteBatch.Built.append_records {r : WriteBatch} (hd : dst.Built nd bd)
    (hs : src.rep.drop kHeader = bs) (len k : Nat)
    (hrep : r.rep = (dst.setCount (dst.count + Int32.ofNat k)).rep ++
      (src.rep.drop kHeader).take len)
    (hmax : r.maxBytes = dst.maxBytes) : r.Built (nd + k) (bd ++ bs.take len) := by
  have hcount : (dst.count + Int32.ofNat k).toUInt32 = UInt32.ofNat (nd + k) := by
    rw [hd.count_eq, ← Int32.ofNat_add]
    simp
  refine ⟨hmax.trans hd.maxBytes_eq, ?_⟩
  rw [hrep, hd.setCount_rep, hcount, hs, List.append_assoc]

/-- The termination point a marked batch of `ns` counted records `bs` saves: a
record boundary, with their count. -/
theorem WriteBatch.Built.walTermPoint_markWal (hb : b.Built ns bs) :
    b.markWalTerminationPoint.walTermPoint =
      ⟨kHeader + bs.length, Int32.ofNat ns, b.contentFlags⟩ := by
  simp [WriteBatch.markWalTerminationPoint, getDataSize, hb.rep_length, hb.count_eq, kHeader]

/-- `Append` of a built batch to a built one: with `wal_only` and a termination point
after `ops₁`, the records of `ops₁`; otherwise all those of the source. -/
theorem append_built (ops₁ ops₂ : List WriteOp) (hd : dst.Built nd bd)
    (hfit : ∀ op ∈ ops₁ ++ ops₂, op.Fits) (mark walOnly : Bool) :
    (WriteBatchInternal.append dst (applyOps (if mark then
        (applyOps (WriteBatch.init 0) ops₁).1.markWalTerminationPoint
        else (applyOps (WriteBatch.init 0) ops₁).1) ops₂).1 walOnly).1.Built
        (nd + (if mark && walOnly then ops₁ else ops₁ ++ ops₂).countP WriteOp.isKey)
        (bd ++ ((if mark && walOnly then ops₁ else ops₁ ++ ops₂).map WriteOp.encode).flatten) := by
  obtain ⟨-, h₁⟩ := WriteBatch.init_built.applyOps ops₁ fun op hop => hfit op (by simp [hop])
  simp only [List.nil_append, Nat.zero_add] at h₁
  have hw₁ := (applyOps_walTermPoint ops₁ (WriteBatch.init 0) (by decide)).1
  -- the source before `ops₂`, marked or not, has the records of `ops₁`
  set src₀ := if mark then (applyOps (WriteBatch.init 0) ops₁).1.markWalTerminationPoint
    else (applyOps (WriteBatch.init 0) ops₁).1
  have h₀ : src₀.Built (ops₁.countP WriteOp.isKey) (ops₁.map WriteOp.encode).flatten := by
    cases mark
    · exact h₁
    · exact h₁.markWal
  obtain ⟨-, hs⟩ := h₀.applyOps ops₂ fun op hop => hfit op (by simp [hop])
  have hw := (applyOps_walTermPoint ops₂ src₀ h₀.header_le).1
  by_cases hwal : mark = true ∧ walOnly = true
  · -- the termination point is set: the bytes and the count saved there
    obtain ⟨rfl, rfl⟩ := hwal
    have hend : (applyOps src₀ ops₂).1.walTermPoint =
        ⟨kHeader + ((ops₁.map WriteOp.encode).flatten).length,
          Int32.ofNat (ops₁.countP WriteOp.isKey), _⟩ := hw.trans h₁.walTermPoint_markWal
    have hb := WriteBatch.Built.append_records hd hs.rep_drop
      ((ops₁.map WriteOp.encode).flatten).length (ops₁.countP WriteOp.isKey)
      (r := (WriteBatchInternal.append dst (applyOps src₀ ops₂).1 true).1)
      (by simp [WriteBatchInternal.append, hend, SavePoint.isCleared, kHeader]) rfl
    simpa only [List.take_left, Bool.and_self, if_true] using hb
  · -- no termination point, or not `wal_only`: the whole source
    have hcleared : (walOnly && !(applyOps src₀ ops₂).1.walTermPoint.isCleared) = false := by
      cases mark <;> cases walOnly <;> simp_all [src₀, WriteBatch.init, SavePoint.isCleared]
    have hb := WriteBatch.Built.append_records hd hs.rep_drop
      ((applyOps src₀ ops₂).1.rep.length - kHeader)
      (ops₁.countP WriteOp.isKey + ops₂.countP WriteOp.isKey)
      (r := (WriteBatchInternal.append dst (applyOps src₀ ops₂).1 walOnly).1)
      (by simp [WriteBatchInternal.append, hcleared, hs.count_eq]) rfl
    have hmark : (mark && walOnly) = false := by
      cases mark <;> cases walOnly <;> simp_all
    rw [hs.rep_length, show kHeader = 12 from rfl, Nat.add_sub_cancel_left,
      List.take_length] at hb
    simpa [hmark, List.countP_append] using hb

/-- `Append` is concatenation. For batches built by writes, the source possibly
marked after `ops₁`, `Append` answers `OK`, `Iterate` over the result makes the
calls of the destination's writes and then those of the source (only `ops₁` with
`wal_only` and a termination point), and the count is the sum. -/
theorem writeBatch_append_iterate (dstOps ops₁ ops₂ : List WriteOp) (mark walOnly : Bool)
    (hfit : ∀ op ∈ dstOps ++ ops₁ ++ ops₂, op.Fits) :
    (WriteBatchInternal.append (applyOps (WriteBatch.init 0) dstOps).1
        (applyOps (if mark then (applyOps (WriteBatch.init 0) ops₁).1.markWalTerminationPoint
          else (applyOps (WriteBatch.init 0) ops₁).1) ops₂).1 walOnly).2 = .ok ∧
      (WriteBatchInternal.append (applyOps (WriteBatch.init 0) dstOps).1
        (applyOps (if mark then (applyOps (WriteBatch.init 0) ops₁).1.markWalTerminationPoint
          else (applyOps (WriteBatch.init 0) ops₁).1) ops₂).1 walOnly).1.iterate
          Handler.recorder [] =
        ((dstOps ++ if mark && walOnly then ops₁ else ops₁ ++ ops₂).map WriteOp.toRecord, .ok) ∧
      (WriteBatchInternal.append (applyOps (WriteBatch.init 0) dstOps).1
        (applyOps (if mark then (applyOps (WriteBatch.init 0) ops₁).1.markWalTerminationPoint
          else (applyOps (WriteBatch.init 0) ops₁).1) ops₂).1 walOnly).1.count =
        (applyOps (WriteBatch.init 0) dstOps).1.count +
          Int32.ofNat ((if mark && walOnly then ops₁ else ops₁ ++ ops₂).countP WriteOp.isKey) := by
  obtain ⟨-, hd⟩ := WriteBatch.init_built.applyOps dstOps fun op hop => hfit op (by simp [hop])
  simp only [List.nil_append, Nat.zero_add] at hd
  have hb := append_built ops₁ ops₂ hd
    (fun op hop => hfit op (by simp only [List.mem_append] at hop ⊢; tauto)) mark walOnly
  -- the records the source contributes
  set appended := if mark && walOnly then ops₁ else ops₁ ++ ops₂
  have hsub : ∀ op ∈ appended, op ∈ ops₁ ++ ops₂ := by
    intro op hop
    simp only [appended] at hop
    by_cases hm : (mark && walOnly) = true
    · rw [if_pos hm] at hop
      exact List.mem_append_left _ hop
    · rwa [if_neg hm] at hop
  have hall : ∀ op ∈ dstOps ++ appended, op.Fits := by
    intro op hop
    rcases List.mem_append.mp hop with h | h
    · exact hfit op (by simp [h])
    · exact hfit op (by rw [List.append_assoc]; exact List.mem_append_right _ (hsub op h))
  have hb' : (WriteBatchInternal.append (applyOps (WriteBatch.init 0) dstOps).1
      (applyOps (if mark then (applyOps (WriteBatch.init 0) ops₁).1.markWalTerminationPoint
        else (applyOps (WriteBatch.init 0) ops₁).1) ops₂).1 walOnly).1.Built
      ((dstOps ++ appended).countP WriteOp.isKey) ((dstOps ++ appended).map WriteOp.encode).flatten := by
    simpa [List.countP_append] using hb
  refine ⟨rfl, ?_, ?_⟩
  · rw [hb'.iterate Handler.recorder (fun _ _ => rfl) (fun _ => rfl) _ hall [], recorder_foldl,
      List.nil_append]
  · rw [hb.count_eq, hd.count_eq, Int32.ofNat_add]

/-- A put appended with the source marked after a delete and a put written after the
mark: with `wal_only`, only the delete comes over. -/
theorem writeBatch_append_iterate_sample :
    (∀ op ∈ [WriteOp.put 0 [1] [2]] ++ [WriteOp.delete 0 [3]] ++ [WriteOp.put 0 [4] [5]],
        op.Fits) ∧
      (WriteBatchInternal.append (applyOps (WriteBatch.init 0) [.put 0 [1] [2]]).1
        (applyOps (applyOps (WriteBatch.init 0) [.delete 0 [3]]).1.markWalTerminationPoint
          [.put 0 [4] [5]]).1 true).1.iterate Handler.recorder [] =
        ([.put 0 [1] [2], .delete 0 [3]], .ok) := by
  have hfit : ∀ op ∈ [WriteOp.put 0 [1] [2]] ++ [WriteOp.delete 0 [3]] ++ [WriteOp.put 0 [4] [5]],
      op.Fits := by decide
  exact ⟨hfit, (writeBatch_append_iterate [.put 0 [1] [2]] [.delete 0 [3]] [.put 0 [4] [5]]
    true true hfit).2.1⟩

end RocksDB
