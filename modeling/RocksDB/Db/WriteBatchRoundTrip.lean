import Mathlib
import RocksDB.Db.WriteBatch

/-!
# The write batch round trip

A batch built from scratch by the public write operations decodes, through
`WriteBatch::Iterate`, to exactly the handler calls that built it.

## Main definitions

* `WriteOp`: a call of the public write interface, with `WriteOp.apply` the
  source function it runs and `applyOps` a whole sequence of them.
* `WriteOp.encode`: the bytes each call appends, stated once per record shape.
* `WriteBatch.Built`: the shape a batch built from scratch keeps (no byte limit,
  sequence number zero, the count word, the records).
* `IterateState.At`: what the `Iterate` loop keeps between two records.

## Main results

* `WriteBatch.Built.apply`: one operation succeeds and appends its record.
* `iterateStep_encode` and `iterateLoop_encode`: one iteration consumes one
  record and calls the handler with it; the loop consumes them all.
* `iterate_applyOps`: the whole round trip for any handler that accepts every
  call.

The count is a signed 32-bit `int` in the source (`WriteBatchInternal::Count`),
so after `2 ^ 31` counted operations it no longer equals their number.
-/

namespace RocksDB

/-- A call of the public write-batch interface. -/
inductive WriteOp where
  | put (cf : UInt32) (key value : List UInt8)
  | delete (cf : UInt32) (key : List UInt8)
  | singleDelete (cf : UInt32) (key : List UInt8)
  | deleteRange (cf : UInt32) (beginKey endKey : List UInt8)
  | merge (cf : UInt32) (key value : List UInt8)
  | putBlobIndex (cf : UInt32) (key value : List UInt8)
  | putLogData (blob : List UInt8)
  deriving DecidableEq, Repr

/-- The length-prefixed strings of a record. -/
def slicesBytes (slices : List (List UInt8)) : List UInt8 :=
  (slices.map (putLengthPrefixedSlice [])).flatten

/-- The record `addKeyRecord` appends: the tag, the column family when it is not
the default one, and the length-prefixed strings. -/
def keyRecordBytes (cf : UInt32) (defaultTag cfTag : ValueType) (slices : List (List UInt8)) :
    List UInt8 :=
  (if cf = 0 then defaultTag else cfTag).toUInt8 ::
    ((if cf = 0 then [] else encodeVarint32 cf) ++ slicesBytes slices)

namespace WriteOp

/-- The source function each call runs. -/
def apply (b : WriteBatch) : WriteOp → WriteBatch × Status
  | put cf k v => WriteBatchInternal.put b cf k v
  | delete cf k => WriteBatchInternal.delete b cf k
  | singleDelete cf k => WriteBatchInternal.singleDelete b cf k
  | deleteRange cf k e => WriteBatchInternal.deleteRange b cf k e
  | merge cf k v => WriteBatchInternal.merge b cf k v
  | putBlobIndex cf k v => WriteBatchInternal.putBlobIndex b cf k v
  | putLogData blob => b.putLogData blob

/-- The handler call that should come back for the operation. -/
def toRecord : WriteOp → Record
  | put cf k v => .put cf k v
  | delete cf k => .delete cf k
  | singleDelete cf k => .singleDelete cf k
  | deleteRange cf k e => .deleteRange cf k e
  | merge cf k v => .merge cf k v
  | putBlobIndex cf k v => .putBlobIndex cf k v
  | putLogData blob => .logData blob

/-- Whether the operation counts towards `Count()`: every one but `PutLogData`. -/
def isKey : WriteOp → Bool
  | putLogData _ => false
  | _ => true

/-- The byte strings the operation stores. -/
def strings : WriteOp → List (List UInt8)
  | put _ k v => [k, v]
  | delete _ k => [k]
  | singleDelete _ k => [k]
  | deleteRange _ k e => [k, e]
  | merge _ k v => [k, v]
  | putBlobIndex _ k v => [k, v]
  | putLogData blob => [blob]

/-- Every stored string fits the `uint32_t` length prefix. -/
def Fits (op : WriteOp) : Prop := ∀ s ∈ op.strings, s.length < 2 ^ 32

instance (op : WriteOp) : Decidable op.Fits :=
  inferInstanceAs (Decidable (∀ s ∈ op.strings, s.length < 2 ^ 32))

/-- The record the operation appends to `rep_`. -/
def encode : WriteOp → List UInt8
  | put cf k v => keyRecordBytes cf .value .columnFamilyValue [k, v]
  | delete cf k => keyRecordBytes cf .deletion .columnFamilyDeletion [k]
  | singleDelete cf k => keyRecordBytes cf .singleDeletion .columnFamilySingleDeletion [k]
  | deleteRange cf k e => keyRecordBytes cf .rangeDeletion .columnFamilyRangeDeletion [k, e]
  | merge cf k v => keyRecordBytes cf .merge .columnFamilyMerge [k, v]
  | putBlobIndex cf k v => keyRecordBytes cf .blobIndex .columnFamilyBlobIndex [k, v]
  | putLogData blob => ValueType.logData.toUInt8 :: slicesBytes [blob]

theorem encode_ne_nil (op : WriteOp) : op.encode ≠ [] := by
  cases op <;> simp [encode, keyRecordBytes]

end WriteOp

/-- The operations run one after another, with the status each returns. -/
def applyOps : WriteBatch → List WriteOp → WriteBatch × List Status
  | b, [] => (b, [])
  | b, op :: ops =>
    let r := op.apply b
    let rest := applyOps r.1 ops
    (rest.1, r.2 :: rest.2)

/-! ## Building a batch -/

/-- The shape of a batch built from scratch: no byte limit, sequence number
zero, the count word `n` and the records `body`. -/
structure WriteBatch.Built (b : WriteBatch) (n : Nat) (body : List UInt8) : Prop where
  maxBytes_eq : b.maxBytes = 0
  rep_eq : b.rep = List.replicate 8 0 ++ encodeFixed32 (UInt32.ofNat n) ++ body

theorem WriteBatch.init_built : (WriteBatch.init 0).Built 0 [] := by
  refine ⟨rfl, ?_⟩
  show List.replicate 12 0 = _
  decide

namespace WriteBatch.Built

variable {b : WriteBatch} {n : Nat} {body : List UInt8}

theorem count_eq (hb : b.Built n body) : b.count = Int32.ofNat n := by
  have hdrop : b.rep.drop 8 = encodeFixed32 (UInt32.ofNat n) ++ body := by
    rw [hb.rep_eq, List.append_assoc, List.drop_left' (by simp)]
  rw [WriteBatch.count, hdrop, decodeFixed32_encode]
  simp

theorem setCount_rep (hb : b.Built n body) (x : Int32) :
    (b.setCount x).rep = List.replicate 8 0 ++ encodeFixed32 x.toUInt32 ++ body := by
  have htake : b.rep.take 8 = List.replicate 8 0 := by
    rw [hb.rep_eq, List.append_assoc, List.take_left' (by simp)]
  have hdrop : b.rep.drop 12 = body := by
    rw [hb.rep_eq, List.drop_left' (by simp)]
  simp only [WriteBatch.setCount, htake, hdrop]

theorem rep_length (hb : b.Built n body) : b.rep.length = 12 + body.length := by
  rw [hb.rep_eq]
  simp only [List.length_append, List.length_replicate, encodeFixed32_length]

theorem rep_drop (hb : b.Built n body) : b.rep.drop kHeader = body := by
  rw [hb.rep_eq, List.drop_left' (by simp [kHeader])]

/-- With no byte limit a save point always commits. -/
theorem commitSavePoint_eq (hb : b.Built n body) (save : SavePoint) :
    b.commitSavePoint save = (b, .ok) := by
  simp [WriteBatch.commitSavePoint, hb.maxBytes_eq]

theorem foldl_putLengthPrefixedSlice (dst : List UInt8) (slices : List (List UInt8)) :
    slices.foldl putLengthPrefixedSlice dst = dst ++ slicesBytes slices := by
  induction slices generalizing dst with
  | nil => simp [slicesBytes]
  | cons s slices ih =>
    rw [List.foldl_cons, ih]
    simp [slicesBytes, putLengthPrefixedSlice]

/-- A key write bumps the count and appends its record. -/
theorem addKeyRecord (hb : b.Built n body) (cf : UInt32) (d c : ValueType)
    (slices : List (List UInt8)) (flag : UInt32) :
    (b.addKeyRecord cf d c slices flag).2 = .ok ∧
      (b.addKeyRecord cf d c slices flag).1.Built (n + 1)
        (body ++ keyRecordBytes cf d c slices) := by
  have hone : Int32.toUInt32 1 = 1 := rfl
  have hcount : (b.count + 1).toUInt32 = UInt32.ofNat (n + 1) := by
    rw [hb.count_eq]
    simp [hone]
  have hrep : (b.setCount (b.count + 1)).rep =
      List.replicate 8 0 ++ encodeFixed32 (UInt32.ofNat (n + 1)) ++ body := by
    rw [hb.setCount_rep, hcount]
  have hbuilt : WriteBatch.Built
      { b.setCount (b.count + 1) with
        rep := slices.foldl putLengthPrefixedSlice
          (if cf = 0 then (b.setCount (b.count + 1)).rep ++ [d.toUInt8]
           else putVarint32 ((b.setCount (b.count + 1)).rep ++ [c.toUInt8]) cf),
        contentFlags := (b.setCount (b.count + 1)).contentFlags ||| flag }
      (n + 1) (body ++ keyRecordBytes cf d c slices) := by
    refine ⟨hb.maxBytes_eq, ?_⟩
    rw [foldl_putLengthPrefixedSlice, hrep]
    by_cases hcf : cf = 0 <;> simp [hcf, keyRecordBytes, putVarint32]
  -- the write is the batch `hbuilt` describes, committed under its save point
  have heq : b.addKeyRecord cf d c slices flag = (_, .ok) :=
    hbuilt.commitSavePoint_eq b.localSavePoint
  rw [heq]
  exact ⟨rfl, hbuilt⟩

theorem putLogData (hb : b.Built n body) (blob : List UInt8) :
    (b.putLogData blob).2 = .ok ∧
      (b.putLogData blob).1.Built n (body ++ ValueType.logData.toUInt8 :: slicesBytes [blob]) := by
  have hbuilt : WriteBatch.Built
      { b with rep := putLengthPrefixedSlice (b.rep ++ [ValueType.logData.toUInt8]) blob }
      n (body ++ ValueType.logData.toUInt8 :: slicesBytes [blob]) := by
    refine ⟨hb.maxBytes_eq, ?_⟩
    rw [hb.rep_eq]
    simp [slicesBytes, putLengthPrefixedSlice]
  have heq : b.putLogData blob = (_, .ok) := hbuilt.commitSavePoint_eq b.localSavePoint
  rw [heq]
  exact ⟨rfl, hbuilt⟩

/-- One operation of the interface succeeds and appends its record; only key
operations count. -/
theorem apply (hb : b.Built n body) (op : WriteOp) (hfit : op.Fits) :
    (op.apply b).2 = .ok ∧
      (op.apply b).1.Built (n + if op.isKey then 1 else 0) (body ++ op.encode) := by
  -- `Put` and `Merge` pass their size checks because every string fits
  have hsize : ∀ s ∈ op.strings, ¬ s.length > kMaxUint32 := by
    intro s hs
    have := hfit s hs
    simp only [kMaxUint32]
    omega
  cases op with
  | put cf k v =>
    simp only [WriteOp.strings, List.mem_cons, List.not_mem_nil, forall_eq_or_imp,
      forall_eq, or_false] at hsize
    simp only [WriteOp.apply, WriteBatchInternal.put, if_neg hsize.1, if_neg hsize.2]
    exact hb.addKeyRecord _ _ _ _ _
  | delete cf k => exact hb.addKeyRecord _ _ _ _ _
  | singleDelete cf k => exact hb.addKeyRecord _ _ _ _ _
  | deleteRange cf k e => exact hb.addKeyRecord _ _ _ _ _
  | merge cf k v =>
    simp only [WriteOp.strings, List.mem_cons, List.not_mem_nil, forall_eq_or_imp,
      forall_eq, or_false] at hsize
    simp only [WriteOp.apply, WriteBatchInternal.merge, if_neg hsize.1, if_neg hsize.2]
    exact hb.addKeyRecord _ _ _ _ _
  | putBlobIndex cf k v => exact hb.addKeyRecord _ _ _ _ _
  | putLogData blob => exact hb.putLogData blob

/-- A run of operations succeeds and leaves the concatenation of their records,
counting the key operations. The induction is on the operations, from any built
batch. -/
theorem applyOps (hb : b.Built n body) (ops : List WriteOp) (hfit : ∀ op ∈ ops, op.Fits) :
    (∀ s ∈ (RocksDB.applyOps b ops).2, s = .ok) ∧
      (RocksDB.applyOps b ops).1.Built (n + ops.countP WriteOp.isKey)
        (body ++ (ops.map WriteOp.encode).flatten) := by
  induction ops generalizing b n body with
  | nil => simpa [RocksDB.applyOps] using hb
  | cons op ops ih =>
    obtain ⟨hok, hstep⟩ := hb.apply op (hfit op (by simp))
    obtain ⟨hoks, hrest⟩ := ih hstep (fun o ho => hfit o (by simp [ho]))
    refine ⟨?_, ?_⟩
    · intro s hs
      simp only [RocksDB.applyOps, List.mem_cons] at hs
      rcases hs with rfl | hs
      · exact hok
      · exact hoks s hs
    · have hcount : n + (if op.isKey then 1 else 0) + ops.countP WriteOp.isKey =
          n + (op :: ops).countP WriteOp.isKey := by
        rw [List.countP_cons]
        split_ifs <;> omega
      simpa [RocksDB.applyOps, hcount] using hrest

end WriteBatch.Built

/-! ## Reading a record back -/

section Decode

variable {σ : Type} (h : Handler σ)

/-- The handler that records every call and always accepts. -/
def Handler.recorder : Handler (List Record) where
  call rs r := (rs ++ [r], .ok)
  writeAfterCommit _ := true
  continueIterating _ := true

theorem readSlice_put (s rest : List UInt8) (hs : s.length < 2 ^ 32) (msg : String) :
    readSlice (putLengthPrefixedSlice [] s ++ rest) msg = .ok (s, rest) := by
  simp [readSlice, getLengthPrefixedSlice_put s rest hs]

theorem readColumnFamily_encode (cf : UInt32) (rest : List UInt8) (msg : String) :
    readColumnFamily (encodeVarint32 cf ++ rest) msg = .ok (cf, rest) := by
  simp [readColumnFamily, getVarint32_encode]

/-- The slices a key record leaves in the decoder's out-parameters. -/
def keyFields (f : RecordSlices) (cf : UInt32) (slices : List (List UInt8)) : RecordSlices :=
  match slices with
  | [k] => { f with columnFamily := cf, key := k }
  | [k, v] => { f with columnFamily := cf, key := k, value := v }
  | _ => f

/-- The key cases of the decoder read a key record back, with or without its
column family. -/
theorem readKeyRecord_bytes (cf : UInt32) (slices : List (List UInt8))
    (hlen : slices.length = 1 ∨ slices.length = 2) (hfit : ∀ s ∈ slices, s.length < 2 ^ 32)
    (f : RecordSlices) (rest : List UInt8) (msg : String) :
    readKeyRecord ((if cf = 0 then [] else encodeVarint32 cf) ++ slicesBytes slices ++ rest)
      { f with columnFamily := 0 } (cf ≠ 0) (slices.length = 2) msg =
      .ok (keyFields f cf slices, rest) := by
  rcases slices with _ | ⟨k, _ | ⟨v, _ | ⟨w, slices⟩⟩⟩
  · simp at hlen
  · have hk := hfit k (by simp)
    by_cases hcf : cf = 0 <;>
      simp [hcf, readKeyRecord, readKeyValue, slicesBytes, readSlice_put k rest hk,
        readColumnFamily_encode, keyFields, bind, Except.bind, pure, Except.pure]
  · have hk := hfit k (by simp)
    have hv := hfit v (by simp)
    by_cases hcf : cf = 0 <;>
      simp [hcf, readKeyRecord, readKeyValue, slicesBytes,
        readSlice_put k (putLengthPrefixedSlice [] v ++ rest) hk, readSlice_put v rest hv,
        readColumnFamily_encode, keyFields, bind, Except.bind, pure, Except.pure]
  · simp at hlen

/-! ## The `Iterate` loop over built records -/

/-- What the `Iterate` loop keeps between two records: no retry pending, a
successful status, the input still to read, the handler state and the count. -/
structure IterateState.At (st : IterateState σ) (input : List UInt8) (handler : σ)
    (found : Int32) : Prop where
  input_eq : st.input = input
  s_eq : st.s = .ok
  fresh : st.lastWasTryAgain = false
  handler_eq : st.handler = handler
  found_eq : st.found = found

/-- One iteration over a log-data record: the blob goes to `LogData`, uncounted. -/
theorem iterateStep_logData {st : IterateState σ} {blob rest : List UInt8} {handler : σ}
    {found : Int32} (hfit : blob.length < 2 ^ 32)
    (hst : st.At ((WriteOp.putLogData blob).encode ++ rest) handler found) :
    ∃ st', iterateStep h st = .ok st' ∧
      st'.At rest (h.call handler (.logData blob)).1 found := by
  obtain ⟨hin, hs, -, hh, hf⟩ := hst
  have hnot : st.s ≠ .tryAgain := by simp [hs]
  simp only [iterateStep, if_pos hnot, hin, WriteOp.encode, slicesBytes, List.map_cons,
    List.map_nil, List.flatten_cons, List.flatten_nil, List.append_nil, List.cons_append]
  simp only [readRecordFromWriteBatch, ValueType.ofUInt8?_toUInt8, readSlice_put blob rest hfit,
    bind, Except.bind, pure, Except.pure, dispatch]
  exact ⟨_, rfl, rfl, hs, rfl, by simp [hh], hf⟩

theorem length_le_flatten_encode (ops : List WriteOp) :
    ops.length ≤ (ops.map WriteOp.encode).flatten.length := by
  induction ops with
  | nil => simp
  | cons op ops ih =>
    have hpos : 0 < op.encode.length := List.length_pos_iff.mpr op.encode_ne_nil
    simp only [List.length_cons, List.map_cons, List.flatten_cons, List.length_append]
    omega

theorem found_add_countP (found : Int32) (op : WriteOp) (ops : List WriteOp) :
    found + (if op.isKey then 1 else 0) + Int32.ofNat (ops.countP WriteOp.isKey) =
      found + Int32.ofNat ((op :: ops).countP WriteOp.isKey) := by
  rw [List.countP_cons, Int32.ofNat_add]
  split_ifs
  · rw [Int32.add_assoc, Int32.add_comm 1]
    rfl
  · simp

section Accepting

-- the handler accepts every call
variable (hok : ∀ s r, (h.call s r).2 = .ok)
include hok

theorem IterateState.keyCall_of_ok (st : IterateState σ) (r : Record) (marks : Bool) :
    st.keyCall h r marks =
      { st with handler := (h.call st.handler r).1, s := .ok, found := st.found + 1,
                emptyBatch := if marks then false else st.emptyBatch } := by
  simp [IterateState.keyCall, hok]

/-- One iteration over a key record: the decoder's key case reads it back and
the dispatch makes the counted call `r`. The two hypotheses are the lines of
the decoder's and of the dispatch's `switch` that the record's tags select. -/
theorem iterateStep_keyRecord (cf : UInt32) (d c : ValueType) (slices : List (List UInt8))
    (msg : String) (r : Record) (marks : Bool) {st : IterateState σ}
    {rest : List UInt8} {handler : σ} {found : Int32}
    (hlen : slices.length = 1 ∨ slices.length = 2) (hfit : ∀ s ∈ slices, s.length < 2 ^ 32)
    (hread : ∀ input f, readRecordFromWriteBatch (if cf = 0 then d else c).toUInt8 input f =
      readKeyRecord input { f with columnFamily := 0 } (cf ≠ 0) (slices.length = 2) msg)
    (hdispatch : ∀ (st' : IterateState σ) f, st'.tag = (if cf = 0 then d else c).toUInt8 →
      st'.fields = keyFields f cf slices → dispatch h st' = .ok (st'.keyCall h r marks))
    (hst : st.At (keyRecordBytes cf d c slices ++ rest) handler found) :
    ∃ st', iterateStep h st = .ok st' ∧ st'.At rest (h.call handler r).1 (found + 1) := by
  obtain ⟨hin, hs, -, hh, hf⟩ := hst
  have hdec : readRecordFromWriteBatch (if cf = 0 then d else c).toUInt8
      ((if cf = 0 then [] else encodeVarint32 cf) ++ slicesBytes slices ++ rest) st.fields =
      .ok (keyFields st.fields cf slices, rest) := by
    rw [hread]
    exact readKeyRecord_bytes cf slices hlen hfit st.fields rest msg
  let st' : IterateState σ :=
    { st with input := rest, tag := (if cf = 0 then d else c).toUInt8,
              fields := keyFields st.fields cf slices, lastWasTryAgain := false }
  refine ⟨st'.keyCall h r marks, ?_, ?_⟩
  · have hnot : st.s ≠ .tryAgain := by simp [hs]
    simp only [iterateStep, if_pos hnot, hin, keyRecordBytes, List.cons_append, hdec]
    exact hdispatch st' st.fields rfl rfl
  · rw [IterateState.keyCall_of_ok h hok]
    exact ⟨rfl, rfl, rfl, by simp [st', hh], by simp [st', hf]⟩

/-- One iteration consumes one built record and makes its handler call; only
key records count. -/
theorem iterateStep_encode {st : IterateState σ} {op : WriteOp} {rest : List UInt8}
    {handler : σ} {found : Int32} (hfit : op.Fits)
    (hst : st.At (op.encode ++ rest) handler found) :
    ∃ st', iterateStep h st = .ok st' ∧
      st'.At rest (h.call handler op.toRecord).1 (found + if op.isKey then 1 else 0) := by
  -- each key operation is one line of the decoder's and one of the dispatch's table
  cases op with
  | put cf k v =>
    refine iterateStep_keyRecord h hok cf .value .columnFamilyValue [k, v] "bad WriteBatch Put"
      (.put cf k v) true (by simp) hfit ?_ ?_ hst
    · intro input f
      by_cases hcf : cf = 0 <;> simp [readRecordFromWriteBatch, hcf]
    · intro st' f ht hf
      by_cases hcf : cf = 0 <;> simp [dispatch, ht, hf, hcf, keyFields]
  | delete cf k =>
    refine iterateStep_keyRecord h hok cf .deletion .columnFamilyDeletion [k] "bad WriteBatch Delete"
      (.delete cf k) true (by simp) hfit ?_ ?_ hst
    · intro input f
      by_cases hcf : cf = 0 <;> simp [readRecordFromWriteBatch, hcf]
    · intro st' f ht hf
      by_cases hcf : cf = 0 <;> simp [dispatch, ht, hf, hcf, keyFields]
  | singleDelete cf k =>
    refine iterateStep_keyRecord h hok cf .singleDeletion .columnFamilySingleDeletion [k] "bad WriteBatch Delete"
      (.singleDelete cf k) true (by simp) hfit ?_ ?_ hst
    · intro input f
      by_cases hcf : cf = 0 <;> simp [readRecordFromWriteBatch, hcf]
    · intro st' f ht hf
      by_cases hcf : cf = 0 <;> simp [dispatch, ht, hf, hcf, keyFields]
  | deleteRange cf k e =>
    refine iterateStep_keyRecord h hok cf .rangeDeletion .columnFamilyRangeDeletion [k, e] "bad WriteBatch DeleteRange"
      (.deleteRange cf k e) true (by simp) hfit ?_ ?_ hst
    · intro input f
      by_cases hcf : cf = 0 <;> simp [readRecordFromWriteBatch, hcf]
    · intro st' f ht hf
      by_cases hcf : cf = 0 <;> simp [dispatch, ht, hf, hcf, keyFields]
  | merge cf k v =>
    refine iterateStep_keyRecord h hok cf .merge .columnFamilyMerge [k, v] "bad WriteBatch Merge"
      (.merge cf k v) true (by simp) hfit ?_ ?_ hst
    · intro input f
      by_cases hcf : cf = 0 <;> simp [readRecordFromWriteBatch, hcf]
    · intro st' f ht hf
      by_cases hcf : cf = 0 <;> simp [dispatch, ht, hf, hcf, keyFields]
  | putBlobIndex cf k v =>
    refine iterateStep_keyRecord h hok cf .blobIndex .columnFamilyBlobIndex [k, v] "bad WriteBatch BlobIndex"
      (.putBlobIndex cf k v) false (by simp) hfit ?_ ?_ hst
    · intro input f
      by_cases hcf : cf = 0 <;> simp [readRecordFromWriteBatch, hcf]
    · intro st' f ht hf
      by_cases hcf : cf = 0 <;> simp [dispatch, ht, hf, hcf, keyFields]
  | putLogData blob =>
    simpa [WriteOp.toRecord, WriteOp.isKey] using
      iterateStep_logData h (hfit blob (by simp [WriteOp.strings])) hst

variable (hcont : ∀ s, h.continueIterating s = true)
include hcont

/-- The loop consumes every built record, one per iteration, and stops at the
end of the input. The induction is on the operations, with any fuel above their
number. -/
theorem iterateLoop_encode :
    ∀ (ops : List WriteOp) (fuel : Nat) (st : IterateState σ) (handler : σ) (found : Int32),
      (∀ op ∈ ops, op.Fits) → ops.length < fuel →
      st.At (ops.map WriteOp.encode).flatten handler found →
      ∃ st', iterateLoop h fuel st = .ok st' ∧
        st'.At [] (ops.foldl (fun s op => (h.call s op.toRecord).1) handler)
          (found + Int32.ofNat (ops.countP WriteOp.isKey)) := by
  intro ops
  induction ops with
  | nil =>
    intro fuel st handler found _ hfuel hst
    obtain ⟨f, rfl⟩ : ∃ f, fuel = f + 1 := ⟨fuel - 1, by simp at hfuel; omega⟩
    -- no input is left and the status is not `TryAgain`: the loop stops
    have hstop : loopContinues h st = false := by
      simp [loopContinues, hst.input_eq, hst.s_eq]
    refine ⟨st, by simp [iterateLoop, hstop], ?_⟩
    simpa using hst
  | cons op ops ih =>
    intro fuel st handler found hfit hfuel hst
    obtain ⟨f, rfl⟩ : ∃ f, fuel = f + 1 := ⟨fuel - 1, by simp at hfuel; omega⟩
    have hst' : st.At (op.encode ++ (ops.map WriteOp.encode).flatten) handler found := by
      simpa using hst
    have hgo : loopContinues h st = true := by
      simp [loopContinues, hst'.input_eq, hst'.s_eq, hcont, WriteOp.encode_ne_nil]
    obtain ⟨st₁, hstep, hst₁⟩ := iterateStep_encode h hok (hfit op (by simp)) hst'
    obtain ⟨st₂, hloop, hst₂⟩ := ih f st₁ _ _ (fun o ho => hfit o (by simp [ho]))
      (by simp at hfuel; omega) hst₁
    refine ⟨st₂, by simp [iterateLoop, hgo, hstep, hloop], ?_⟩
    rw [← found_add_countP]
    simpa using hst₂

/-- A built batch whose records are the encodings of `ops`, counted, decodes to their
calls: `Iterate` makes them in order and the count check passes. -/
theorem WriteBatch.Built.iterate {b : WriteBatch} (ops : List WriteOp)
    (hfit : ∀ op ∈ ops, op.Fits)
    (hb : b.Built (ops.countP WriteOp.isKey) (ops.map WriteOp.encode).flatten) (init : σ) :
    b.iterate h init = (ops.foldl (fun s op => (h.call s op.toRecord).1) init, .ok) := by
  have hlen : ¬ b.rep.length < kHeader := by
    rw [hb.rep_length]
    simp [kHeader]
  have hfuel : ops.length < 2 * b.rep.length + 2 := by
    have := length_le_flatten_encode ops
    rw [hb.rep_length]
    omega
  have hst : IterateState.At
      { input := b.rep.drop kHeader, s := .ok, tag := 0, fields := ⟨0, [], [], [], []⟩,
        emptyBatch := true, found := 0, lastWasTryAgain := false, handler := init }
      (ops.map WriteOp.encode).flatten init 0 := ⟨hb.rep_drop, rfl, rfl, rfl, rfl⟩
  obtain ⟨st, hloop, hend⟩ := iterateLoop_encode h hok hcont ops _ _ init 0 hfit hfuel hst
  simp only [WriteBatch.iterate, if_neg hlen, hloop, hend.s_eq, hend.found_eq, hend.handler_eq,
    hb.count_eq]
  simp

/-- The round trip for any handler that accepts every call and never stops the
iteration: `Iterate` over a batch built from scratch makes the calls of the
operations that built it, in order, and the count check passes. -/
theorem iterate_applyOps (ops : List WriteOp) (hfit : ∀ op ∈ ops, op.Fits) (init : σ) :
    (applyOps (WriteBatch.init 0) ops).1.iterate h init =
      (ops.foldl (fun s op => (h.call s op.toRecord).1) init, .ok) := by
  obtain ⟨-, hb⟩ := WriteBatch.init_built.applyOps ops hfit
  simp only [List.nil_append, Nat.zero_add] at hb
  exact hb.iterate h hok hcont ops hfit init

end Accepting

/-- The recorder ends with the calls it received, in order. -/
theorem recorder_foldl (ops : List WriteOp) (init : List Record) :
    ops.foldl (fun s op => (Handler.recorder.call s op.toRecord).1) init =
      init ++ ops.map WriteOp.toRecord := by
  induction ops generalizing init with
  | nil => simp
  | cons op ops ih =>
    rw [List.foldl_cons, ih]
    simp [Handler.recorder]

end Decode

/-! ## The round trip -/

theorem writeBatch_iterate_roundTrip (ops : List WriteOp) (hfit : ∀ op ∈ ops, op.Fits) :
    (∀ s ∈ (applyOps (WriteBatch.init 0) ops).2, s = .ok) ∧
      (applyOps (WriteBatch.init 0) ops).1.iterate Handler.recorder [] =
        (ops.map WriteOp.toRecord, .ok) ∧
      (applyOps (WriteBatch.init 0) ops).1.count = Int32.ofNat (ops.countP WriteOp.isKey) := by
  obtain ⟨hoks, hb⟩ := WriteBatch.init_built.applyOps ops hfit
  refine ⟨hoks, ?_, ?_⟩
  · rw [iterate_applyOps Handler.recorder (fun _ _ => rfl) (fun _ => rfl) ops hfit,
      recorder_foldl, List.nil_append]
  · simpa using hb.count_eq

theorem writeBatch_iterate_roundTrip_sample :
    (∀ s ∈ (applyOps (WriteBatch.init 0)
        [.put 0 [1] [2], .putLogData [3], .deleteRange 7 [4] [5]]).2, s = .ok) ∧
      (applyOps (WriteBatch.init 0)
        [.put 0 [1] [2], .putLogData [3], .deleteRange 7 [4] [5]]).1.iterate
          Handler.recorder [] =
        ([.put 0 [1] [2], .logData [3], .deleteRange 7 [4] [5]], .ok) ∧
      (applyOps (WriteBatch.init 0)
        [.put 0 [1] [2], .putLogData [3], .deleteRange 7 [4] [5]]).1.count = 2 :=
  writeBatch_iterate_roundTrip _ (by decide)

/-- `Count()` is an `int`: after `2 ^ 31` deletions of the empty key it reads
`-2 ^ 31`, not the number of operations. -/
theorem writeBatch_count_overflows :
    (∀ op ∈ List.replicate (2 ^ 31) (WriteOp.delete 0 []), op.Fits) ∧
      (List.replicate (2 ^ 31) (WriteOp.delete 0 [])).countP WriteOp.isKey = 2 ^ 31 ∧
      (applyOps (WriteBatch.init 0)
        (List.replicate (2 ^ 31) (WriteOp.delete 0 []))).1.count.toInt = -2 ^ 31 := by
  have hfit : ∀ op ∈ List.replicate (2 ^ 31) (WriteOp.delete 0 []), op.Fits := by
    intro op hop
    rw [List.eq_of_mem_replicate hop]
    decide
  have hkeys : (List.replicate (2 ^ 31) (WriteOp.delete 0 [])).countP WriteOp.isKey = 2 ^ 31 := by
    have hkey : (WriteOp.delete 0 []).isKey = true := rfl
    rw [List.countP_replicate, if_pos hkey]
  obtain ⟨-, hb⟩ := WriteBatch.init_built.applyOps _ hfit
  refine ⟨hfit, hkeys, ?_⟩
  rw [hb.count_eq, hkeys]
  decide

end RocksDB
