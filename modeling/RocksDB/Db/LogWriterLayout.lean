import Mathlib
import RocksDB.Db.Log

/-!
# The block layout `log::Writer` keeps

`AddRecord` never leaves fewer than a header's bytes in a block: when the
current block has less room than that it fills it with zeros and starts the next
one, and each fragment it then emits is cut to the room left. Between calls the
block offset stays within the block and equals the file length modulo the block
size (`Writer.Inv`), and every call writes a run of physical records that follows
`Layout`: each begins with the zeros that close the previous block, exactly as
many as were left when fewer than a header's bytes were, and its header and
payload fit in the rest of the block.

The loop is split into its two steps, `Writer.switchBlock` and the emitted
fragment, with `Writer.addRecordLoop_succ`; `Writer.iteration_layout` is what one
iteration does, and `Writer.addRecordLoop_layout` runs it, with the fuel bound
that an empty fragment is only ever followed by a full one.
-/

namespace RocksDB

namespace Log

/-- The header size of a writer: `recycle_log_files_ ? kRecyclableHeaderSize : kHeaderSize`. -/
def headerSize (recycle : Bool) : Nat := if recycle then kRecyclableHeaderSize else kHeaderSize

theorem headerSize_pos (recycle : Bool) : 0 < headerSize recycle := by
  cases recycle <;> decide

theorem headerSize_le (recycle : Bool) : headerSize recycle ≤ 11 := by
  cases recycle <;> decide

/-- One physical record of the log: the zeros that close the previous block before
it, its type and its payload. -/
structure PhysicalRecord where
  pad : Nat
  type : Nat
  payload : List UInt8

namespace PhysicalRecord

/-- The bytes a physical record takes in the file of writer `w`. -/
def bytes (w : Writer) (r : PhysicalRecord) : List UInt8 :=
  List.replicate r.pad 0 ++ w.header r.type r.payload ++ r.payload

end PhysicalRecord

/-- The physical records written from file position `pos` with headers of `hs`
bytes: each first closes the block with zeros when fewer than `hs` bytes are left
in it, and its header and payload then fit in the rest of the block. -/
inductive Layout (hs : Nat) : Nat → List PhysicalRecord → Prop
  | nil (pos : Nat) : Layout hs pos []
  | cons {pos : Nat} {r : PhysicalRecord} {rs : List PhysicalRecord}
      (pad : r.pad =
        if kBlockSize - pos % kBlockSize < hs then kBlockSize - pos % kBlockSize else 0)
      (fit : (pos + r.pad) % kBlockSize + hs + r.payload.length ≤ kBlockSize)
      (tail : Layout hs (pos + r.pad + hs + r.payload.length) rs) :
      Layout hs pos (r :: rs)

/-- No physical record of a layout is longer than `0xffff`, the most its
two-byte length field holds. -/
theorem Layout.payload_le {hs pos : Nat} {rs : List PhysicalRecord} (h : Layout hs pos rs) :
    ∀ r ∈ rs, r.payload.length ≤ 0xffff := by
  induction h with
  | nil => simp
  | cons _ fit _ ih =>
    intro r hr
    rcases List.mem_cons.mp hr with rfl | hr
    · unfold kBlockSize at fit
      omega
    · exact ih r hr

/-- A record that starts at a block boundary has no zeros before it. -/
theorem Layout.pad_eq_zero {hs pos : Nat} {r : PhysicalRecord} {rs : List PhysicalRecord}
    (h : Layout hs pos (r :: rs)) (hhs : hs ≤ kBlockSize) (hpos : pos % kBlockSize = 0) :
    r.pad = 0 := by
  cases h with
  | cons pad _ _ =>
    rw [pad, hpos, if_neg (by omega)]

/-- The types of the physical records of one record: the first begins the
record when `isBegin`, the last ends it, and those between are middles. -/
def Chain (recycle : Bool) : Bool → List PhysicalRecord → Prop
  | _, [] => True
  | isBegin, r :: rs =>
    r.type = Writer.fragmentType recycle isBegin rs.isEmpty ∧ Chain recycle false rs

namespace Writer

/-- Between calls the block offset is within the block and is the file length
modulo the block size (a full block has offset `kBlockSize`). -/
def Inv (w : Writer) : Prop :=
  w.blockOffset ≤ kBlockSize ∧ w.dest.length % kBlockSize = w.blockOffset % kBlockSize

theorem create_inv (logNumber : UInt64) (recycle : Bool) : (create logNumber recycle).Inv := by
  simp [Inv, create]

/-- The zeros an iteration first writes: what is left of the block, when that is
less than a header. -/
def padOf (w : Writer) : Nat :=
  if kBlockSize - w.blockOffset < headerSize w.recycleLogFiles then kBlockSize - w.blockOffset
  else 0

/-- The first step of an iteration of `AddRecord`: switch to a new block when
fewer than a header's bytes are left, filling the trailer with zeros. -/
def switchBlock (w : Writer) : Writer :=
  if kBlockSize - w.blockOffset < headerSize w.recycleLogFiles then
    { w with dest := w.dest ++ List.replicate (kBlockSize - w.blockOffset) 0, blockOffset := 0 }
  else w

/-- The length of the fragment an iteration emits. -/
def fragmentLength (w : Writer) (left : List UInt8) : Nat :=
  min left.length (kBlockSize - w.switchBlock.blockOffset - headerSize w.recycleLogFiles)

theorem addRecordLoop_succ (fuel : Nat) (w : Writer) (left : List UInt8) (isBegin : Bool) :
    w.addRecordLoop (fuel + 1) left isBegin =
      let w₂ := w.switchBlock.emitPhysicalRecord
        (fragmentType w.recycleLogFiles isBegin (left.length = w.fragmentLength left))
        (left.take (w.fragmentLength left))
      if (left.drop (w.fragmentLength left)).length > 0 then
        w₂.addRecordLoop fuel (left.drop (w.fragmentLength left)) false
      else w₂ := by
  simp only [addRecordLoop, switchBlock, fragmentLength, headerSize]
  split_ifs <;> rfl

/-! ## Frame lemmas -/

@[simp] theorem switchBlock_logNumber (w : Writer) : w.switchBlock.logNumber = w.logNumber := by
  unfold switchBlock; split_ifs <;> rfl

@[simp] theorem switchBlock_recycleLogFiles (w : Writer) :
    w.switchBlock.recycleLogFiles = w.recycleLogFiles := by
  unfold switchBlock; split_ifs <;> rfl

theorem switchBlock_dest (w : Writer) :
    w.switchBlock.dest = w.dest ++ List.replicate w.padOf 0 := by
  unfold switchBlock padOf; split_ifs <;> simp

theorem switchBlock_blockOffset (w : Writer) :
    w.switchBlock.blockOffset =
      if kBlockSize - w.blockOffset < headerSize w.recycleLogFiles then 0 else w.blockOffset := by
  unfold switchBlock; split_ifs <;> rfl

@[simp] theorem emitPhysicalRecord_logNumber (w : Writer) (t : Nat) (p : List UInt8) :
    (w.emitPhysicalRecord t p).logNumber = w.logNumber := rfl

@[simp] theorem emitPhysicalRecord_recycleLogFiles (w : Writer) (t : Nat) (p : List UInt8) :
    (w.emitPhysicalRecord t p).recycleLogFiles = w.recycleLogFiles := rfl

theorem addRecordLoop_frame (fuel : Nat) :
    ∀ (w : Writer) (left : List UInt8) (isBegin : Bool),
      (w.addRecordLoop fuel left isBegin).logNumber = w.logNumber ∧
        (w.addRecordLoop fuel left isBegin).recycleLogFiles = w.recycleLogFiles := by
  induction fuel with
  | zero => exact fun _ _ _ => ⟨rfl, rfl⟩
  | succ fuel ih =>
    intro w left isBegin
    rw [addRecordLoop_succ]
    dsimp only
    split
    · obtain ⟨h₁, h₂⟩ := ih (w.switchBlock.emitPhysicalRecord
        (fragmentType w.recycleLogFiles isBegin (left.length = w.fragmentLength left))
        (left.take (w.fragmentLength left))) (left.drop (w.fragmentLength left)) false
      rw [h₁, h₂]
      simp
    · simp

/-- The header only reads the log number. -/
theorem header_congr {w w' : Writer} (h : w'.logNumber = w.logNumber) (t : Nat) (p : List UInt8) :
    w'.header t p = w.header t p := by
  simp [header, h]

theorem header_length (w : Writer) (t : Nat) (p : List UInt8) :
    (w.header t p).length =
      if t < kRecyclableFullType then kHeaderSize else kRecyclableHeaderSize := by
  unfold header
  split_ifs <;> simp [kHeaderSize, kRecyclableHeaderSize]

theorem fragmentType_lt (recycle isBegin isEnd : Bool) :
    fragmentType recycle isBegin isEnd < kRecyclableFullType ↔ recycle = false := by
  cases recycle <;> cases isBegin <;> cases isEnd <;> decide

/-- A fragment's header has the writer's header size. -/
theorem header_fragmentType_length (w : Writer) (isBegin isEnd : Bool) (p : List UInt8) :
    (w.header (fragmentType w.recycleLogFiles isBegin isEnd) p).length =
      headerSize w.recycleLogFiles := by
  rw [header_length, headerSize]
  cases hr : w.recycleLogFiles
  · rw [if_pos ((fragmentType_lt _ _ _).mpr rfl)]; rfl
  · rw [if_neg (by rw [fragmentType_lt]; decide)]; rfl

/-! ## One iteration -/

section Iteration

variable {w : Writer} (hw : w.Inv)
include hw

/-- The zeros of an iteration, read off the file length. -/
theorem padOf_eq : w.padOf =
    if kBlockSize - w.dest.length % kBlockSize < headerSize w.recycleLogFiles then
      kBlockSize - w.dest.length % kBlockSize
    else 0 := by
  obtain ⟨hle, hmod⟩ := hw
  have hpos := headerSize_pos w.recycleLogFiles
  have hsmall := headerSize_le w.recycleLogFiles
  unfold padOf
  rw [hmod]
  -- a full block has offset `kBlockSize`: no zeros either way
  rcases Nat.lt_or_ge w.blockOffset kBlockSize with hlt | hge
  · rw [Nat.mod_eq_of_lt hlt]
  · have heq : w.blockOffset = kBlockSize := by omega
    rw [heq, Nat.mod_self]
    unfold kBlockSize at *
    split_ifs <;> omega

/-- After the switch the header fits in the block, and the block offset is the
file length modulo the block size. -/
theorem switchBlock_room :
    w.switchBlock.blockOffset + headerSize w.recycleLogFiles ≤ kBlockSize ∧
      w.switchBlock.dest.length % kBlockSize = w.switchBlock.blockOffset := by
  obtain ⟨hle, hmod⟩ := hw
  have hpos := headerSize_pos w.recycleLogFiles
  have hsmall := headerSize_le w.recycleLogFiles
  rw [switchBlock_blockOffset, switchBlock_dest, List.length_append, List.length_replicate]
  unfold padOf
  unfold kBlockSize at *
  -- the trailer, if any, is filled up to the block boundary
  split_ifs <;> omega

variable (left : List UInt8) (isBegin : Bool)

/-- One iteration of `AddRecord` emits one physical record at the file's end: it
closes the block as `Layout` says and fits in the rest of it, and the writer it
leaves keeps the invariant. -/
theorem iteration_layout :
    let r : PhysicalRecord := ⟨w.padOf,
      fragmentType w.recycleLogFiles isBegin (left.length = w.fragmentLength left),
      left.take (w.fragmentLength left)⟩
    let w₂ := w.switchBlock.emitPhysicalRecord r.type r.payload
    w₂.dest = w.dest ++ r.bytes w ∧
      (w.padOf = if kBlockSize - w.dest.length % kBlockSize < headerSize w.recycleLogFiles then
        kBlockSize - w.dest.length % kBlockSize else 0) ∧
      (w.dest.length + w.padOf) % kBlockSize + headerSize w.recycleLogFiles +
        r.payload.length ≤ kBlockSize ∧
      w₂.dest.length = w.dest.length + w.padOf + headerSize w.recycleLogFiles +
        r.payload.length ∧
      w₂.blockOffset = w.switchBlock.blockOffset + headerSize w.recycleLogFiles +
        r.payload.length ∧
      w₂.Inv := by
  intro r w₂
  obtain ⟨hroom, hmod₁⟩ := switchBlock_room hw
  have hlen₁ : w.switchBlock.dest.length = w.dest.length + w.padOf := by
    rw [switchBlock_dest]; simp
  have hhead := header_fragmentType_length w.switchBlock isBegin
    (left.length = w.fragmentLength left) (left.take (w.fragmentLength left))
  rw [switchBlock_recycleLogFiles] at hhead
  -- the fragment is cut to the room left behind the header
  have hfrag : r.payload.length ≤ kBlockSize - w.switchBlock.blockOffset -
      headerSize w.recycleLogFiles := by
    simp only [r, List.length_take, fragmentLength]
    omega
  have hdest : w₂.dest = w.dest ++ r.bytes w := by
    simp only [w₂, emitPhysicalRecord, switchBlock_dest, PhysicalRecord.bytes,
      header_congr (switchBlock_logNumber w), List.append_assoc]
    rfl
  have hlen₂ : w₂.dest.length = w.dest.length + w.padOf + headerSize w.recycleLogFiles +
      r.payload.length := by
    simp only [w₂, emitPhysicalRecord, List.length_append, hlen₁]
    rw [hhead]
  have hoff₂ : w₂.blockOffset = w.switchBlock.blockOffset + headerSize w.recycleLogFiles +
      r.payload.length := by
    simp only [w₂, emitPhysicalRecord]
    rw [hhead]
  refine ⟨hdest, padOf_eq hw, ?_, hlen₂, hoff₂, ?_, ?_⟩
  · rw [← hlen₁, hmod₁]
    omega
  · -- the new offset is the old one plus the record, within the block
    omega
  · rw [hlen₂, hoff₂, ← hlen₁]
    unfold kBlockSize at *
    omega

end Iteration

/-! ## The loop -/

/-- An iteration that emits an empty fragment although bytes are left: the block
has exactly a header's room. The next one then starts a new block. -/
def Tight (w : Writer) : Prop := kBlockSize - w.blockOffset = headerSize w.recycleLogFiles

instance (w : Writer) : Decidable w.Tight := inferInstanceAs (Decidable (_ = _))

/-- Outside a tight block an iteration takes at least one byte of a non-empty
record. -/
theorem fragmentLength_pos {w : Writer} (hw : w.Inv) (ht : ¬ w.Tight) {left : List UInt8}
    (hleft : 0 < left.length) : 0 < w.fragmentLength left := by
  obtain ⟨hroom, -⟩ := switchBlock_room hw
  have hsmall := headerSize_le w.recycleLogFiles
  unfold fragmentLength
  rw [switchBlock_blockOffset] at hroom ⊢
  unfold Tight at ht
  split_ifs at hroom ⊢ with h
  · unfold kBlockSize at *; omega
  · omega

/-- The loop of `AddRecord`, given enough fuel, writes the record as a run of
physical records laid out as `Layout` says, and leaves a writer that keeps the
invariant. The induction is on the fuel; an empty fragment costs one unit and is
only written in a tight block, which the next iteration leaves. -/
theorem addRecordLoop_layout (fuel : Nat) :
    ∀ (w : Writer) (left : List UInt8) (isBegin : Bool), w.Inv →
      2 * left.length + 1 + (if w.Tight then 1 else 0) ≤ fuel →
      ∃ prs : List PhysicalRecord,
        (w.addRecordLoop fuel left isBegin).dest = w.dest ++ (prs.map (·.bytes w)).flatten ∧
        (prs.map (·.payload)).flatten = left ∧
        Layout (headerSize w.recycleLogFiles) w.dest.length prs ∧
        (w.addRecordLoop fuel left isBegin).Inv ∧
        prs ≠ [] ∧ Chain w.recycleLogFiles isBegin prs ∧ ∀ r ∈ prs.tail, r.pad = 0 := by
  induction fuel with
  | zero => intro _ _ _ _ hfuel; omega
  | succ fuel ih =>
    intro w left isBegin hw hfuel
    obtain ⟨hdest, hpad, hfit, hlen, hoff, hinv⟩ := iteration_layout hw left isBegin
    rw [addRecordLoop_succ]
    dsimp only at hdest hpad hfit hlen hoff hinv ⊢
    set r : PhysicalRecord := ⟨w.padOf,
      fragmentType w.recycleLogFiles isBegin (left.length = w.fragmentLength left),
      left.take (w.fragmentLength left)⟩ with hr
    set w₂ := w.switchBlock.emitPhysicalRecord r.type r.payload with hw₂
    have hrec : w₂.recycleLogFiles = w.recycleLogFiles := by simp [w₂]
    have hlog : w₂.logNumber = w.logNumber := by simp [w₂]
    split
    · rename_i hmore
      -- more is left: the fuel still covers it
      have hfuel' : 2 * (left.drop (w.fragmentLength left)).length + 1 +
          (if w₂.Tight then 1 else 0) ≤ fuel := by
        by_cases ht : w.Tight
        · -- a tight block takes nothing and leaves a full block
          have hzero : w.fragmentLength left = 0 := by
            unfold fragmentLength
            rw [switchBlock_blockOffset]
            unfold Tight at ht
            rw [if_neg (by omega)]
            omega
          have ht₂ : ¬ w₂.Tight := by
            unfold Tight at ht ⊢
            rw [hrec, hoff, switchBlock_blockOffset, if_neg (by omega)]
            have := headerSize_pos w.recycleLogFiles
            simp only [hzero, List.take_zero, List.length_nil]
            omega
          rw [if_pos ht] at hfuel
          rw [if_neg ht₂, hzero, List.drop_zero]
          omega
        · have hpos := @fragmentLength_pos w hw ht left (by simp at hmore; omega)
          rw [if_neg ht] at hfuel
          have : (left.drop (w.fragmentLength left)).length + 1 ≤ left.length := by
            simp only [List.length_drop]
            simp at hmore
            omega
          split_ifs <;> omega
      obtain ⟨prs, hd, hp, hl, hi, hne, hchain, hpads⟩ := ih w₂ _ false hinv hfuel'
      -- the fragment took all the room: the next one starts a block
      have hfull : w₂.dest.length % kBlockSize = 0 := by
        obtain ⟨hroom, -⟩ := switchBlock_room hw
        have hlt : w.fragmentLength left < left.length := by
          simp only [List.length_drop] at hmore
          omega
        have hfrag : r.payload.length =
            kBlockSize - w.switchBlock.blockOffset - headerSize w.recycleLogFiles := by
          simp only [r, List.length_take, fragmentLength] at hlt ⊢
          omega
        rw [hinv.2, hoff, hfrag, show w.switchBlock.blockOffset + headerSize w.recycleLogFiles +
          (kBlockSize - w.switchBlock.blockOffset - headerSize w.recycleLogFiles) = kBlockSize
          by omega, Nat.mod_self]
      have hend : decide (left.length = w.fragmentLength left) = prs.isEmpty := by
        rw [List.isEmpty_eq_false_iff.mpr hne, decide_eq_false_iff_not]
        simp only [List.length_drop] at hmore
        omega
      refine ⟨r :: prs, ?_, ?_, ?_, hi, List.cons_ne_nil _ _, ⟨hend ▸ rfl, hrec ▸ hchain⟩, ?_⟩
      · -- the headers of the later records only read the log number
        have hbytes : prs.map (·.bytes w₂) = prs.map (·.bytes w) :=
          List.map_congr_left fun p _ => by simp only [PhysicalRecord.bytes, header_congr hlog]
        rw [hd, hdest, hbytes, List.map_cons, List.flatten_cons, List.append_assoc]
      · rw [List.map_cons, List.flatten_cons, hp]
        exact List.take_append_drop _ _
      · refine Layout.cons hpad hfit ?_
        rw [hrec, hlen] at hl
        exact hl
      · -- the first of the later records starts the block the fragment filled
        obtain ⟨p, ps, rfl⟩ := List.exists_cons_of_ne_nil hne
        intro q hq
        rcases List.mem_cons.mp hq with rfl | hq
        · exact hl.pad_eq_zero (by have := headerSize_le w₂.recycleLogFiles; unfold kBlockSize; omega)
            hfull
        · exact hpads q hq
    · rename_i hdone
      -- the fragment was the rest of the record
      have hall : left.drop (w.fragmentLength left) = [] := by
        simpa using hdone
      have hend : left.length = w.fragmentLength left := by
        have := List.drop_eq_nil_iff.mp hall
        unfold fragmentLength at this ⊢
        omega
      have htype : r.type = fragmentType w.recycleLogFiles isBegin true := by
        simp only [r, hend, decide_true]
      refine ⟨[r], by simp [hdest], ?_, Layout.cons hpad hfit (Layout.nil _), hinv,
        List.cons_ne_nil _ _, ⟨htype, trivial⟩, by simp⟩
      simp only [List.map_cons, List.map_nil, List.flatten_cons, List.flatten_nil,
        List.append_nil]
      exact List.take_of_length_le (List.drop_eq_nil_iff.mp hall)

theorem addRecord_layout {w : Writer} (hw : w.Inv) (slice : List UInt8) :
    ∃ prs : List PhysicalRecord,
      (w.addRecord slice).dest = w.dest ++ (prs.map (·.bytes w)).flatten ∧
      (prs.map (·.payload)).flatten = slice ∧
      Layout (headerSize w.recycleLogFiles) w.dest.length prs ∧
      (w.addRecord slice).Inv ∧
      prs ≠ [] ∧ Chain w.recycleLogFiles true prs ∧ ∀ r ∈ prs.tail, r.pad = 0 :=
  addRecordLoop_layout _ w slice true hw (by split_ifs <;> omega)

theorem addRecord_frame (w : Writer) (slice : List UInt8) :
    (w.addRecord slice).logNumber = w.logNumber ∧
      (w.addRecord slice).recycleLogFiles = w.recycleLogFiles :=
  addRecordLoop_frame _ w slice true

/-! ## Runs of `AddRecord` -/

/-- The writers a sequence of `AddRecord` calls reaches from a fresh one. -/
inductive Reachable (logNumber : UInt64) (recycle : Bool) : Writer → Prop
  | create : Reachable logNumber recycle (create logNumber recycle)
  | addRecord {w : Writer} (slice : List UInt8) :
      Reachable logNumber recycle w → Reachable logNumber recycle (w.addRecord slice)

theorem Reachable.inv {logNumber : UInt64} {recycle : Bool} {w : Writer}
    (h : Reachable logNumber recycle w) : w.Inv ∧ w.recycleLogFiles = recycle := by
  induction h with
  | create => exact ⟨create_inv _ _, rfl⟩
  | addRecord slice _ ih =>
    obtain ⟨prs, -, -, -, hinv, -⟩ := addRecord_layout ih.1 slice
    exact ⟨hinv, (addRecord_frame _ slice).2.trans ih.2⟩

/-- Every state a sequence of `AddRecord` calls reaches has its block offset in
`[0, kBlockSize]`, equal to the file length modulo the block size; and the next
`AddRecord` appends a run of physical records whose payloads make up the record,
each first closing the block with exactly the zeros left in it when fewer than a
header's bytes were, each fitting with its header in the rest of its block (so
none crosses a block boundary), and none longer than `0xffff`. -/
theorem logWriter_addRecord_layout {logNumber : UInt64} {recycle : Bool} {w : Writer}
    (hw : Reachable logNumber recycle w) :
    w.blockOffset ≤ kBlockSize ∧ w.dest.length % kBlockSize = w.blockOffset % kBlockSize ∧
      ∀ slice : List UInt8, ∃ prs : List PhysicalRecord,
        (w.addRecord slice).dest = w.dest ++ (prs.map (·.bytes w)).flatten ∧
        (prs.map (·.payload)).flatten = slice ∧
        Layout (headerSize recycle) w.dest.length prs ∧
        ∀ r ∈ prs, r.payload.length ≤ 0xffff := by
  obtain ⟨⟨hle, hmod⟩, hrec⟩ := hw.inv
  refine ⟨hle, hmod, fun slice => ?_⟩
  obtain ⟨prs, hdest, hpay, hlay, -⟩ := addRecord_layout ⟨hle, hmod⟩ slice
  rw [hrec] at hlay
  exact ⟨prs, hdest, hpay, hlay, hlay.payload_le⟩

theorem logWriter_addRecord_layout_sample :
    ((create 7 false).addRecord (List.replicate 32760 1)).blockOffset ≤ kBlockSize ∧
      ((create 7 false).addRecord (List.replicate 32760 1)).dest.length % kBlockSize =
        ((create 7 false).addRecord (List.replicate 32760 1)).blockOffset % kBlockSize ∧
      ∃ prs : List PhysicalRecord,
        (((create 7 false).addRecord (List.replicate 32760 1)).addRecord [1, 2, 3]).dest =
          ((create 7 false).addRecord (List.replicate 32760 1)).dest ++
            (prs.map (·.bytes ((create 7 false).addRecord (List.replicate 32760 1)))).flatten ∧
        (prs.map (·.payload)).flatten = [1, 2, 3] ∧
        Layout (headerSize false)
          ((create 7 false).addRecord (List.replicate 32760 1)).dest.length prs ∧
        ∀ r ∈ prs, r.payload.length ≤ 0xffff :=
  let h := logWriter_addRecord_layout (Reachable.addRecord (List.replicate 32760 1)
    (@Reachable.create 7 false))
  ⟨h.1, h.2.1, h.2.2 [1, 2, 3]⟩

end Writer

end Log

end RocksDB
