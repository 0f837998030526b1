import Mathlib
import RocksDB.Db.LogWriterLayout
import RocksDB.Db.LogRecycled

/-!
# `db/log_reader.cc`: reading a writer's file back from an initial offset

A `log::Reader` created with `initial_offset` first skips to the block of the
offset, or to the next block when the offset lies in a block's last six bytes
(`SkipToInitialBlock`), then drops every physical record that began before the
offset (`ReadPhysicalRecord` reports it as `kBadRecord`), MIDDLE and LAST
fragments of a record that straddles the offset included, and returns the
records after it.

This module runs the reader of `RocksDB.Db.Log` over any file of `AddRecord`
calls: `log_reader_reads_from_initialOffset` says what a caller's loop of
`ReadRecord` calls returns, for every initial offset, checksum setting and
recovery mode.

## Main definitions

* `Writer.recordStarts`: where each record of a run begins, before and after
  the zeros that close the previous block.
* `Reader.readRecords`: a caller's loop, with `LastRecordOffset()` after each
  record.
* `Reader.At`: the reader's position in the file, the invariant every lemma
  about the loop keeps.
* `Writer.readBack`: what the loop returns, read off the writer's layout.

## Design notes

The proof follows the layout `RocksDB.Db.LogWriterLayout` gives each
`AddRecord` call: one lemma per branch of `ReadRecord`'s loop, a frame lemma per
physical record (`readPhysicalRecord_frame`), and then one record at a time,
read whole (`readRecordLoop_record`) or skipped whole before the initial offset
(`readRecordLoop_skipRecord`). The file is fixed and the reader only moves
forward in it, so `At F o L r P` holds the whole state: the unread file is
`F.drop r.endOfBufferOffset` and the buffer the bytes from `P` to it.

`LastRecordOffset()` is where the reader computes a record began, from
`end_of_buffer_offset_` and the buffer. When fewer than a header's bytes close
the previous block, those zeros are in the buffer the reader read, and the
offset it computes is where the zeros begin, not the record's first header;
`readBack` says so, and `log_reader_lastRecordOffset_at_trailer` shows it on a
file of two records. For the recyclable format the log number must fit in 32
bits, the part of it a header holds.
-/

namespace RocksDB
namespace Log

/-- Where each record of a run of `AddRecord` calls begins: the file length before
the call, and the offset of its first physical record, after the zeros that
close the previous block. -/
def Writer.recordStarts (w : Writer) : List (List UInt8) → List (Nat × Nat)
  | [] => []
  | record :: rest =>
    (w.dest.length, w.dest.length + w.padOf) :: (w.addRecord record).recordStarts rest

/-- The loop of a caller of `ReadRecord`: read records until it returns `false`,
noting `LastRecordOffset()` after each, for at most `fuel` calls. -/
def Reader.readRecords (mode : WALRecoveryMode) : Nat → Reader → List (List UInt8 × Nat)
  | 0, _ => []
  | fuel + 1, r =>
    match r.readRecord mode with
    | (some record, r) => (record, r.lastRecordOffset) :: readRecords mode fuel r
    | (none, _) => []

namespace Writer

theorem fragmentType_char (recycle isBegin isEnd : Bool) :
    (UInt8.ofNat (fragmentType recycle isBegin isEnd)).toInt8.toInt32.toUInt32.toNat =
      fragmentType recycle isBegin isEnd := by
  cases recycle <;> cases isBegin <;> cases isEnd <;> decide

theorem fragmentType_recyclable (recycle isBegin isEnd : Bool) :
    (kRecyclableFullType ≤ fragmentType recycle isBegin isEnd ∧
      fragmentType recycle isBegin isEnd ≤ kRecyclableLastType) ↔ recycle = true := by
  cases recycle <;> cases isBegin <;> cases isEnd <;> decide

theorem length_bytes_lt (n : Nat) (h : n ≤ 0xffff) :
    (UInt8.ofNat (n % 256)).toNat ||| ((UInt8.ofNat (n / 256)).toNat <<< 8) = n := by
  rw [UInt8.toNat_ofNat', UInt8.toNat_ofNat', Nat.shiftLeft_eq, Nat.mod_mod_of_dvd _ (by norm_num),
    Nat.mod_eq_of_lt (show n / 256 < 256 by omega), ByteCoding.Varint.or_mul_two_pow (by omega)]
  omega

/-- Bytes 4 to 6 of a header: the length, low byte first, and the type. -/
theorem header_getD (w : Writer) (t : Nat) (p q : List UInt8) :
    (w.header t p ++ q).getD 4 0 = UInt8.ofNat (p.length % 256) ∧
      (w.header t p ++ q).getD 5 0 = UInt8.ofNat (p.length / 256) ∧
      (w.header t p ++ q).getD 6 0 = UInt8.ofNat t := by
  -- the checksum takes the first four bytes
  have hskip : ∀ i, (w.header t p ++ q).getD (i + 4) 0 =
      ([UInt8.ofNat (p.length % 256), UInt8.ofNat (p.length / 256), UInt8.ofNat t] ++
        ((if t < kRecyclableFullType then [] else encodeFixed32 w.logNumber.toUInt32) ++ q)).getD i 0 := by
    intro i
    simp [header, List.getD_eq_getElem?_getD, List.getElem?_append_right]
  exact ⟨hskip 0, hskip 1, hskip 2⟩

section Frame

variable (w : Writer) (isBegin isEnd : Bool) (p rest : List UInt8)

theorem frame_headerType :
    Reader.headerType (w.header (fragmentType w.recycleLogFiles isBegin isEnd) p ++ p ++ rest) =
      fragmentType w.recycleLogFiles isBegin isEnd := by
  rw [Reader.headerType, List.append_assoc, (header_getD w _ p _).2.2, fragmentType_char]

theorem frame_headerLength (hp : p.length ≤ 0xffff) :
    Reader.headerLength (w.header (fragmentType w.recycleLogFiles isBegin isEnd) p ++ p ++ rest) =
      p.length := by
  obtain ⟨h4, h5, -⟩ := header_getD w (fragmentType w.recycleLogFiles isBegin isEnd) p (p ++ rest)
  rw [Reader.headerLength, List.append_assoc, h4, h5, length_bytes_lt _ hp]

/-- The bytes of a header after the checksum and the length: the type, then the
log number in the recyclable format. -/
theorem header_drop_six (w : Writer) (t : Nat) (p : List UInt8) :
    (w.header t p).drop 6 =
      UInt8.ofNat t :: (if t < kRecyclableFullType then [] else encodeFixed32 w.logNumber.toUInt32) := by
  simp [header, List.drop_append]

theorem frame_checksum :
    Crc32c.unmask (decodeFixed32
        (w.header (fragmentType w.recycleLogFiles isBegin isEnd) p ++ p ++ rest)) =
      Crc32c.value (((w.header (fragmentType w.recycleLogFiles isBegin isEnd) p ++ p ++ rest).drop 6).take
        (p.length + headerSize w.recycleLogFiles - 6)) := by
  set t := fragmentType w.recycleLogFiles isBegin isEnd
  have hcrc : decodeFixed32 (w.header t p ++ p ++ rest) = Crc32c.mask (Crc32c.value
      (UInt8.ofNat t :: (if t < kRecyclableFullType then [] else encodeFixed32 w.logNumber.toUInt32) ++ p)) := by
    simp only [header, List.append_assoc, decodeFixed32_encode, Crc32c.value, Crc32c.extend_append]
    rfl
  have hdrop : (w.header t p ++ p ++ rest).drop 6 = UInt8.ofNat t ::
      (if t < kRecyclableFullType then [] else encodeFixed32 w.logNumber.toUInt32) ++ p ++ rest := by
    rw [List.append_assoc, List.drop_append_of_le_length (by rw [header_length]; split_ifs <;> decide),
      header_drop_six]
    simp
  rw [hcrc, Crc32c.unmask_mask, hdrop]
  congr 1
  -- the checksummed bytes are the type, the log-number field and the payload
  cases hr : w.recycleLogFiles
  · have ht : t < kRecyclableFullType := (fragmentType_lt _ _ _).mpr hr
    simp [ht, headerSize, kHeaderSize]
  · have ht : ¬ t < kRecyclableFullType := by rw [fragmentType_lt, hr]; decide
    simp [ht, headerSize, kRecyclableHeaderSize, List.take_append]

theorem frame_logNumber (hr : w.recycleLogFiles = true) :
    decodeFixed32 ((w.header (fragmentType w.recycleLogFiles isBegin isEnd) p ++ p ++ rest).drop 7) =
      w.logNumber.toUInt32 := by
  have ht : ¬ fragmentType w.recycleLogFiles isBegin isEnd < kRecyclableFullType := by
    rw [fragmentType_lt, hr]; decide
  rw [List.append_assoc, List.drop_append_of_le_length (by rw [header_length, if_neg ht]; decide),
    show 7 = 6 + 1 from rfl, ← List.drop_drop, header_drop_six, if_neg ht]
  simp [decodeFixed32_encode]

theorem frame_payload :
    ((w.header (fragmentType w.recycleLogFiles isBegin isEnd) p ++ p ++ rest).drop
        (headerSize w.recycleLogFiles)).take p.length = p ∧
      (w.header (fragmentType w.recycleLogFiles isBegin isEnd) p ++ p ++ rest).drop
        (headerSize w.recycleLogFiles + p.length) = rest := by
  have hlen := header_fragmentType_length w isBegin isEnd p
  constructor
  · rw [List.append_assoc, ← hlen, List.drop_left, List.take_left]
  · rw [List.append_assoc, ← hlen, ← List.drop_drop, List.drop_left, List.drop_left]

end Frame

end Writer

/-! ## Physical records -/

theorem PhysicalRecord.bytes_eq (w : Writer) (q : PhysicalRecord) :
    q.bytes w = List.replicate q.pad 0 ++ (w.header q.type q.payload ++ q.payload) := by
  rw [PhysicalRecord.bytes, List.append_assoc]

/-- The zeros that close a block end at its boundary. -/
theorem Layout.pad_spec {hs P : Nat} {q : PhysicalRecord} {qs : List PhysicalRecord}
    (hlay : Layout hs P (q :: qs)) (hhs : 0 < hs) :
    q.pad < hs ∧ (q.pad = 0 ∨ (P + q.pad) % kBlockSize = 0) := by
  cases hlay with
  | cons hpad _ _ =>
    unfold kBlockSize at *
    split_ifs at hpad with h
    · rw [hpad]
      exact ⟨h, Or.inr (by omega)⟩
    · rw [hpad]
      exact ⟨hhs, Or.inl rfl⟩

/-- The first physical record of a record, with the zeros before it taken off. -/
def PhysicalRecord.unpadded (q : PhysicalRecord) : PhysicalRecord := { q with pad := 0 }

theorem bytes_unpadded (w : Writer) (q : PhysicalRecord) (qs : List PhysicalRecord) :
    ((q :: qs).map (·.bytes w)).flatten =
      List.replicate q.pad 0 ++ ((q.unpadded :: qs).map (·.bytes w)).flatten := by
  simp [PhysicalRecord.bytes, PhysicalRecord.unpadded]

/-- A block boundary after the zeros: the record laid out from there has none. -/
theorem Layout.unpadded {hs P : Nat} {q : PhysicalRecord} {qs : List PhysicalRecord}
    (hlay : Layout hs P (q :: qs)) (hhs : hs ≤ kBlockSize) (hal : (P + q.pad) % kBlockSize = 0) :
    Layout hs (P + q.pad) (q.unpadded :: qs) := by
  cases hlay with
  | cons _ hfit htail =>
    refine Layout.cons ?_ (by simpa [PhysicalRecord.unpadded] using hfit)
      (by simpa [PhysicalRecord.unpadded] using htail)
    rw [hal, if_neg (by omega)]
    rfl

/-- One `AddRecord` of a writer that keeps its invariant, as the reader sees it:
a run of physical records whose payloads are the record, laid out from the end of
the file, the first with the zeros `padOf` gives, the others with none. -/
theorem Writer.addRecord_physicalRecords {w : Writer} (hw : w.Inv) (record : List UInt8) :
    ∃ q qs, (w.addRecord record).dest = w.dest ++ ((q :: qs).map (·.bytes w)).flatten ∧
      ((q :: qs).map (·.payload)).flatten = record ∧
      Layout (headerSize w.recycleLogFiles) w.dest.length (q :: qs) ∧
      Chain w.recycleLogFiles true (q :: qs) ∧ (∀ q' ∈ qs, q'.pad = 0) ∧ q.pad = w.padOf ∧
      (w.addRecord record).Inv := by
  obtain ⟨prs, hdest, hpay, hlay, hinv, hne, hchain, hpads⟩ := Writer.addRecord_layout hw record
  obtain ⟨q, qs, rfl⟩ := List.exists_cons_of_ne_nil hne
  refine ⟨q, qs, hdest, hpay, hlay, hchain, hpads, ?_, hinv⟩
  cases hlay with
  | cons hpad _ _ => rw [hpad, Writer.padOf_eq hw]

/-- A run of middle and last fragments, with no zeros between them, split at a
block boundary inside it: the boundary is where one of them begins. -/
theorem Layout.split_at_boundary (w : Writer) {F : List UInt8} {B : Nat} (hB : B % kBlockSize = 0)
    (qs : List PhysicalRecord) :
    ∀ (P : Nat) (rest : List UInt8), Chain w.recycleLogFiles false qs → (∀ q ∈ qs, q.pad = 0) →
      Layout (headerSize w.recycleLogFiles) P qs →
      F.drop P = (qs.map (·.bytes w)).flatten ++ rest → P ≤ B →
      B < P + ((qs.map (·.bytes w)).flatten).length →
      ∃ post, Chain w.recycleLogFiles false post ∧ (∀ q ∈ post, q.pad = 0) ∧
        Layout (headerSize w.recycleLogFiles) B post ∧
        F.drop B = (post.map (·.bytes w)).flatten ++ rest ∧
        B + ((post.map (·.bytes w)).flatten).length = P + ((qs.map (·.bytes w)).flatten).length := by
  induction qs with
  | nil => intro P _ _ _ _ _ hPB hlt; simp at hlt; omega
  | cons q qs ih =>
    intro P rest hchain hpads hlay hF hPB hlt
    by_cases hstart : B = P
    · subst hstart
      exact ⟨q :: qs, hchain, hpads, hlay, hF, rfl⟩
    · obtain ⟨htype, hchain'⟩ := hchain
      have hpad := hpads q List.mem_cons_self
      have hq : (q.bytes w).length = headerSize w.recycleLogFiles + q.payload.length := by
        rw [PhysicalRecord.bytes_eq, hpad, htype]
        simp [Writer.header_fragmentType_length]
      cases hlay with
      | cons _ hfit htail =>
      rw [hpad, Nat.add_zero] at hfit htail
      -- the fragment lies in one block, so the boundary is at or after its end
      have hafter : P + headerSize w.recycleLogFiles + q.payload.length ≤ B := by
        unfold kBlockSize at *
        omega
      have hF' : F.drop (P + headerSize w.recycleLogFiles + q.payload.length) =
          (qs.map (·.bytes w)).flatten ++ rest := by
        rw [Nat.add_assoc, ← hq, ← List.drop_drop, hF, List.map_cons, List.flatten_cons,
          List.append_assoc, List.drop_left]
      simp only [List.map_cons, List.flatten_cons, List.length_append, hq] at hlt ⊢
      obtain ⟨post, hc, hp, hl, hd, hlen⟩ := ih _ rest hchain'
        (fun q hq => hpads q (List.mem_cons_of_mem _ hq)) htail hF' hafter (by omega)
      exact ⟨post, hc, hp, hl, hd, by omega⟩


namespace Reader

/-- The reader has consumed the file `F` up to position `P`: its buffer holds the
rest of the last block it read, from `P` on, and its file what follows that
block. A block read short is the end of the file. The initial offset and the log
number are the reader's own. -/
structure At (F : List UInt8) (o : Nat) (L : UInt64) (r : Reader) (P : Nat) : Prop where
  file_eq : r.file = F.drop r.endOfBufferOffset
  buffer_eq : r.buffer = (F.take r.endOfBufferOffset).drop P
  pos_le : P ≤ r.endOfBufferOffset
  end_le : r.endOfBufferOffset ≤ F.length
  in_block : r.endOfBufferOffset ≤ P - P % kBlockSize + kBlockSize
  aligned : r.eof = false → r.endOfBufferOffset % kBlockSize = 0
  at_end : r.eof = true → r.endOfBufferOffset = F.length
  initialOffset_eq : r.initialOffset = o
  logNumber_eq : r.logNumber = L

namespace At

variable {F : List UInt8} {o : Nat} {L : UInt64} {r : Reader} {P : Nat}

theorem buffer_length (h : At F o L r P) : r.buffer.length = r.endOfBufferOffset - P := by
  rw [h.buffer_eq, List.length_drop, List.length_take, Nat.min_eq_left h.end_le]

/-- The offset `ReadRecord` computes for the next physical record. -/
theorem physicalOffset (h : At F o L r P) : r.endOfBufferOffset - r.buffer.length = P := by
  rw [h.buffer_length]
  have := h.pos_le
  omega

/-- The fuel `ReadRecord` gives its loop: the bytes still to read. -/
theorem unread_length (h : At F o L r P) : r.file.length + r.buffer.length = F.length - P := by
  rw [h.buffer_length, h.file_eq, List.length_drop]
  have := h.pos_le
  have := h.end_le
  omega

theorem buffer_eq_drop (h : At F o L r P) :
    r.buffer = (F.drop P).take (r.endOfBufferOffset - P) := by
  rw [h.buffer_eq, List.drop_take]

/-- Taking bytes off the buffer moves the reader on by as many. -/
theorem drop (h : At F o L r P) {n : Nat} (hn : n ≤ r.buffer.length) (r' : Reader)
    (hb : r'.buffer = r.buffer.drop n) (hf : r'.file = r.file)
    (he : r'.endOfBufferOffset = r.endOfBufferOffset) (heof : r'.eof = r.eof)
    (hi : r'.initialOffset = r.initialOffset) (hl : r'.logNumber = r.logNumber) :
    At F o L r' (P + n) := by
  have hlen := h.buffer_length
  have hblock := h.in_block
  have hpos := h.pos_le
  refine ⟨by rw [hf, he, h.file_eq], by rw [hb, h.buffer_eq, List.drop_drop, he], by omega,
    he ▸ h.end_le, ?_, fun hne => he ▸ h.aligned (heof ▸ hne),
    fun heq => he ▸ h.at_end (heof ▸ heq), hi.trans h.initialOffset_eq, hl.trans h.logNumber_eq⟩
  -- the bytes taken end in the reader's block or at its end
  rw [he]
  unfold kBlockSize at *
  omega

theorem of_eq (h : At F o L r P) {P' : Nat} (e : P = P') : At F o L r P' := e ▸ h

theorem setLastRecordOffset (h : At F o L r P) (n : Nat) :
    At F o L { r with lastRecordOffset := n } P :=
  ⟨h.1, h.2, h.3, h.4, h.5, h.6, h.7, h.8, h.9⟩

theorem reportCorruption (h : At F o L r P) (n : Nat) (reason : String) :
    At F o L (r.reportCorruption n reason) P := by
  unfold Reader.reportCorruption
  split_ifs
  · exact ⟨h.1, h.2, h.3, h.4, h.5, h.6, h.7, h.8, h.9⟩
  · exact h

end At

/-- `ReadMore` before the end of the file reads the next block: the reader then
stands at the end of the block it had, and the block it read ends at the next
block boundary or at the end of the file. -/
theorem readMore_of_not_eof {F : List UInt8} {o : Nat} {L : UInt64} {r : Reader} {P : Nat}
    (h : At F o L r P) (heof : r.eof = false) :
    r.readMore.2 = none ∧ At F o L r.readMore.1 r.endOfBufferOffset ∧
      r.readMore.1.endOfBufferOffset = min (r.endOfBufferOffset + kBlockSize) F.length ∧
      r.readMore.1.lastRecordOffset = r.lastRecordOffset := by
  have hE := h.end_le
  have halign := h.aligned heof
  have hblock : (r.file.take kBlockSize).length = min kBlockSize (F.length - r.endOfBufferOffset) := by
    rw [List.length_take, h.file_eq, List.length_drop]
  -- the block read, and where the file then continues
  have hbuf : r.file.take kBlockSize =
      (F.take (r.endOfBufferOffset + (r.file.take kBlockSize).length)).drop r.endOfBufferOffset := by
    rw [hblock, h.file_eq, List.take_drop]
    congr 1
    exact List.take_eq_take_iff.mpr (by omega)
  have hfile : r.file.drop kBlockSize =
      F.drop (r.endOfBufferOffset + (r.file.take kBlockSize).length) := by
    rw [hblock, h.file_eq, List.drop_drop]
    rcases Nat.lt_or_ge (F.length - r.endOfBufferOffset) kBlockSize with hlt | hge
    · rw [List.drop_eq_nil_of_le (by omega), List.drop_eq_nil_of_le (by omega)]
    · rw [Nat.min_eq_left hge]
  have hstep : ∀ r' : Reader, r'.file = r.file.drop kBlockSize → r'.buffer = r.file.take kBlockSize →
      r'.endOfBufferOffset = r.endOfBufferOffset + (r.file.take kBlockSize).length →
      (r'.eof = false → (r.file.take kBlockSize).length = kBlockSize) →
      (r'.eof = true → (r.file.take kBlockSize).length < kBlockSize) →
      r'.initialOffset = r.initialOffset → r'.logNumber = r.logNumber →
      At F o L r' r.endOfBufferOffset := by
    intro r' hf hb he hfull hshort hi hl
    refine ⟨by rw [hf, hfile, he], by rw [hb, hbuf, he], by omega, by omega, ?_, ?_, ?_,
      hi.trans h.initialOffset_eq, hl.trans h.logNumber_eq⟩
    · rw [he, Nat.mod_eq_zero_of_dvd (Nat.dvd_of_mod_eq_zero halign)]; omega
    · intro hne
      rw [he, hfull hne]
      unfold kBlockSize at *
      omega
    · intro heq
      have := hshort heq
      omega
  have hflen : r.file.length = F.length - r.endOfBufferOffset := by
    rw [h.file_eq, List.length_drop]
  unfold readMore
  simp only [heof, Bool.not_false, if_true]
  split_ifs with hlt
  · exact ⟨rfl, hstep _ rfl rfl rfl (by simp) (fun _ => hlt) rfl rfl, by simp; omega, rfl⟩
  · exact ⟨rfl, hstep _ rfl rfl rfl (fun _ => by omega) (by simp) rfl rfl, by simp; omega,
      rfl⟩

/-- `ReadPhysicalRecord` on a buffer that holds a whole physical record whose
header checks: the record is taken off the buffer, and returned unless it began
before the initial offset. Only the `recycled_` mark may change besides. -/
theorem readPhysicalRecord_parsed (fuel : Nat) (r : Reader) (t n : Nat) (recycle : Bool)
    (hshort : kHeaderSize ≤ r.buffer.length) (htype : headerType r.buffer = t)
    (hlen : headerLength r.buffer = n)
    (hrec : decide (kRecyclableFullType ≤ t ∧ t ≤ kRecyclableLastType) = recycle)
    (hlog : recycle = true → (decodeFixed32 (r.buffer.drop 7)).toNat = r.logNumber.toNat)
    (hfit : headerSize recycle + n ≤ r.buffer.length) (hzero : t ≠ kZeroType)
    (hcrc : Crc32c.unmask (decodeFixed32 r.buffer) =
      Crc32c.value ((r.buffer.drop 6).take (n + headerSize recycle - 6))) :
    ∃ b : Bool, readPhysicalRecord (fuel + 1) r =
      let r' := { r with buffer := r.buffer.drop (headerSize recycle + n), recycled := b }
      if r.endOfBufferOffset - r'.buffer.length - headerSize recycle - n < r.initialOffset then
        (⟨kBadRecord, [], 0⟩, r')
      else (⟨t, (r.buffer.drop (headerSize recycle)).take n, 0⟩, r') := by
  have hnot : ¬ r.buffer.length < kHeaderSize := Nat.not_lt.mpr hshort
  have hbig : recycle = true → ¬ r.buffer.length < kRecyclableHeaderSize := by
    intro hr
    rw [hr] at hfit
    exact Nat.not_lt.mpr (by simp only [headerSize, if_true] at hfit; omega)
  unfold readPhysicalRecord
  simp only [hnot, if_false, htype, hlen, hrec]
  cases recycle
  · refine ⟨r.recycled, ?_⟩
    simp only [headerSize, Bool.false_eq_true, if_false] at hfit hcrc ⊢
    simp [hzero, Nat.not_lt.mpr hfit, hcrc]
  · have hbig' := hbig rfl
    have hlog' := hlog rfl
    simp only [headerSize, if_true] at hfit hcrc ⊢
    -- the mark set on a recyclable record at the start of the file
    by_cases hstart : r.endOfBufferOffset - r.buffer.length = 0
    · refine ⟨true, ?_⟩
      simp [hstart, hzero, Nat.not_lt.mpr hfit, hcrc, hbig', hlog']
    · refine ⟨r.recycled, ?_⟩
      simp [hstart, hzero, Nat.not_lt.mpr hfit, hcrc, hbig', hlog']


/-- With less than a header in the buffer `ReadPhysicalRecord` reads the next
block and starts over. -/
theorem readPhysicalRecord_readMore (fuel : Nat) (r : Reader) (hshort : r.buffer.length < kHeaderSize)
    (hmore : r.readMore.2 = none) :
    readPhysicalRecord (fuel + 1) r = readPhysicalRecord fuel r.readMore.1 := by
  rw [readPhysicalRecord, if_pos hshort, show r.readMore = (r.readMore.1, none) from Prod.ext rfl hmore]

section Frame

variable {F : List UInt8} {o : Nat} {L : UInt64} {r : Reader} {P : Nat}
  (h : At F o L r P) (w : Writer) (hL : w.logNumber = L)
  (hsmall : w.recycleLogFiles = true → L.toNat < 2 ^ 32) (isBegin isEnd : Bool)
  (p rest : List UInt8) (hp : p.length ≤ 0xffff)
include h hL hsmall hp

/-- A physical record the writer wrote, all in the buffer: `ReadPhysicalRecord`
returns it, or `kBadRecord` if it began before the initial offset, and moves
past it. -/
theorem readPhysicalRecord_buffered
    (hF : F.drop P = w.header (Writer.fragmentType w.recycleLogFiles isBegin isEnd) p ++ p ++ rest)
    (hbuf : P + headerSize w.recycleLogFiles + p.length ≤ r.endOfBufferOffset) (fuel : Nat) :
    ∃ r', readPhysicalRecord (fuel + 1) r =
        (⟨if P < o then kBadRecord else Writer.fragmentType w.recycleLogFiles isBegin isEnd,
          if P < o then [] else p, 0⟩, r') ∧
      At F o L r' (P + (headerSize w.recycleLogFiles + p.length)) ∧
      r'.lastRecordOffset = r.lastRecordOffset := by
  have hhead := Writer.header_fragmentType_length w isBegin isEnd p
  have hlen := h.buffer_length
  set rest' := rest.take (r.endOfBufferOffset - P - (headerSize w.recycleLogFiles + p.length))
  have hbuffer : r.buffer = w.header (Writer.fragmentType w.recycleLogFiles isBegin isEnd) p ++ p ++
      rest' := by
    rw [h.buffer_eq_drop, hF, List.take_append, List.take_of_length_le (by simp [hhead]; omega)]
    simp [hhead, rest']
  obtain ⟨hpay, hrest⟩ := Writer.frame_payload w isBegin isEnd p rest'
  have hsize : kHeaderSize ≤ headerSize w.recycleLogFiles := by
    cases w.recycleLogFiles <;> decide
  obtain ⟨b, hb⟩ := readPhysicalRecord_parsed fuel r _ p.length w.recycleLogFiles (by omega)
    (by rw [hbuffer, Writer.frame_headerType])
    (by rw [hbuffer, Writer.frame_headerLength _ _ _ _ _ hp])
    (by rw [Bool.eq_iff_iff, decide_eq_true_iff]; exact Writer.fragmentType_recyclable _ _ _)
    (fun hr => by
      have hsmall' : w.logNumber.toNat < 2 ^ 32 := by rw [hL]; exact hsmall hr
      rw [hbuffer, Writer.frame_logNumber _ _ _ _ _ hr, UInt64.toNat_toUInt32, h.logNumber_eq, ← hL,
        Nat.mod_eq_of_lt hsmall'])
    (by omega)
    (by cases w.recycleLogFiles <;> cases isBegin <;> cases isEnd <;> decide)
    (by rw [hbuffer]; exact Writer.frame_checksum w isBegin isEnd p rest')
  -- `ReadRecord`'s offset arithmetic gives back where the record began
  have hoff : r.endOfBufferOffset - (r.buffer.drop (headerSize w.recycleLogFiles + p.length)).length -
      headerSize w.recycleLogFiles - p.length = P := by
    rw [List.length_drop]
    omega
  have hfrag : (r.buffer.drop (headerSize w.recycleLogFiles)).take p.length = p := by
    rw [hbuffer]; exact hpay
  refine ⟨{ r with buffer := r.buffer.drop (headerSize w.recycleLogFiles + p.length), recycled := b },
    ?_, h.drop (by omega) _ rfl rfl rfl rfl rfl rfl, rfl⟩
  rw [hb]
  dsimp only
  rw [hoff, h.initialOffset_eq, hfrag]
  split_ifs <;> rfl

/-- A physical record the writer wrote, after the zeros that close the previous
block when fewer than a header's bytes were left there: `ReadPhysicalRecord`
reads the next block first when its buffer holds only those zeros, or nothing. -/
theorem readPhysicalRecord_frame {z : Nat}
    (hF : F.drop P = List.replicate z 0 ++
      (w.header (Writer.fragmentType w.recycleLogFiles isBegin isEnd) p ++ p ++ rest))
    (hz : z = 0 ∨ (z < kHeaderSize ∧ (P + z) % kBlockSize = 0))
    (hfit : (P + z) % kBlockSize + headerSize w.recycleLogFiles + p.length ≤ kBlockSize)
    (fuel : Nat) :
    ∃ r', readPhysicalRecord (fuel + 2) r =
        (⟨if P + z < o then kBadRecord else Writer.fragmentType w.recycleLogFiles isBegin isEnd,
          if P + z < o then [] else p, 0⟩, r') ∧
      At F o L r' (P + z + (headerSize w.recycleLogFiles + p.length)) ∧
      r'.lastRecordOffset = r.lastRecordOffset := by
  have hhead := Writer.header_fragmentType_length w isBegin isEnd p
  have hFz : F.drop (P + z) =
      w.header (Writer.fragmentType w.recycleLogFiles isBegin isEnd) p ++ p ++ rest := by
    rw [← List.drop_drop, hF, List.drop_left']
    simp
  have hhs := headerSize_pos w.recycleLogFiles
  have hlenF : P + z + (headerSize w.recycleLogFiles + p.length) ≤ F.length := by
    have hl := congrArg List.length hF
    rw [List.length_drop] at hl
    simp only [List.length_append, List.length_replicate] at hl
    rw [hhead] at hl
    omega
  have hlen := h.buffer_length
  have hpos := h.pos_le
  have hblock := h.in_block
  have hend := h.end_le
  by_cases hbuf : z = 0 ∧ P + (headerSize w.recycleLogFiles + p.length) ≤ r.endOfBufferOffset
  · -- the record is in the buffer already
    obtain ⟨rfl, hbuf⟩ := hbuf
    simp only [Nat.add_zero]
    exact readPhysicalRecord_buffered h w hL hsmall isBegin isEnd p rest hp
      (by simpa using hFz) (by omega) (fuel + 1)
  · -- the buffer holds the zeros, or nothing: the next block starts where the record does
    have hnext : r.eof = false ∧ r.endOfBufferOffset = P + z ∧ (P + z) % kBlockSize = 0 := by
      cases heof : r.eof
      · have halign := h.aligned heof
        refine ⟨rfl, ?_⟩
        unfold kBlockSize at *
        rcases hz with rfl | ⟨hz, hzal⟩
        · omega
        · unfold kHeaderSize at hz
          omega
      · have := h.at_end heof
        unfold kBlockSize at *
        rcases hz with rfl | ⟨hz, hzal⟩ <;> omega
    obtain ⟨heof, hE₀, hal⟩ := hnext
    obtain ⟨hmore, hat, hE, hlast⟩ := readMore_of_not_eof h heof
    rw [hE₀] at hat hE
    rw [readPhysicalRecord_readMore (fuel + 1) r
      (by rw [hlen, hE₀]; unfold kHeaderSize at hz ⊢; rcases hz with rfl | ⟨hz, -⟩ <;> omega) hmore]
    obtain ⟨r', hr', hat', hlast'⟩ := readPhysicalRecord_buffered hat w hL hsmall isBegin isEnd p rest hp
      hFz (by rw [hE]; unfold kBlockSize at hal hfit ⊢; omega) fuel
    exact ⟨r', hr', hat', hlast'.trans hlast⟩

end Frame

/-- The zeros of a recyclable writer's block that had room for a legacy header
but not for its own: `ReadPhysicalRecord` reads them as a zero-length record of
type zero, returns `kBadRecord` and empties the buffer. -/
theorem readPhysicalRecord_zeros {F : List UInt8} {o : Nat} {L : UInt64} {r : Reader} {P z : Nat}
    (h : At F o L r P) (rest : List UInt8) (hF : F.drop P = List.replicate z 0 ++ rest)
    (hz : kHeaderSize ≤ z) (hzk : z < kBlockSize) (hal : (P + z) % kBlockSize = 0)
    (hmore : P + z < F.length) (fuel : Nat) :
    ∃ r', readPhysicalRecord (fuel + 1) r = (⟨kBadRecord, [], 0⟩, r') ∧ At F o L r' (P + z) ∧
      r'.lastRecordOffset = r.lastRecordOffset := by
  have hlen := h.buffer_length
  have hpos := h.pos_le
  have hblock := h.in_block
  -- the buffer holds exactly the zeros: the block ends where they do
  have hE : r.endOfBufferOffset = P + z := by
    cases heof : r.eof
    · have := h.aligned heof
      unfold kBlockSize kHeaderSize at *
      omega
    · have := h.at_end heof
      unfold kBlockSize kHeaderSize at *
      omega
  have hbuf : r.buffer = List.replicate z 0 := by
    rw [h.buffer_eq_drop, hF, hE, Nat.add_sub_cancel_left, List.take_left']
    simp
  have hget : ∀ i, i < z → r.buffer.getD i 0 = 0 := by
    intro i hi
    simp [hbuf, List.getD_eq_getElem?_getD, hi]
  have htype : headerType r.buffer = kZeroType := by
    rw [headerType, hget 6 (by unfold kHeaderSize at hz; omega)]
    rfl
  have hlength : headerLength r.buffer = 0 := by
    rw [headerLength, hget 4 (by unfold kHeaderSize at hz; omega),
      hget 5 (by unfold kHeaderSize at hz; omega)]
    rfl
  refine ⟨{ r with buffer := [] }, ?_, ?_, rfl⟩
  · have hbl : r.buffer.length = z := by rw [hbuf, List.length_replicate]
    have hz7 : ¬ z < 7 := by unfold kHeaderSize at hz; omega
    unfold readPhysicalRecord
    simp [htype, hlength, hbl, hz7, kZeroType, kRecyclableFullType, kHeaderSize]
  · have hn : P + r.buffer.length = P + z := by omega
    rw [← hn]
    exact h.drop le_rfl { r with buffer := [] } (by simp) rfl rfl rfl rfl rfl

/-- At the end of the file `ReadPhysicalRecord` returns `kEof`. -/
theorem readPhysicalRecord_eof (fuel : Nat) (r : Reader) (hfile : r.file = []) (hbuf : r.buffer = []) :
    (readPhysicalRecord (fuel + 2) r).1 = ⟨kEof, [], 0⟩ := by
  have hshort : r.buffer.length < kHeaderSize := by simp [hbuf, kHeaderSize]
  cases heof : r.eof
  · -- the last read finds nothing and marks the end of the file
    have hmore : r.readMore = ({ r with buffer := [], file := [], eof := true, eofOffset := 0 }, none) := by
      simp [readMore, heof, hfile, kBlockSize]
    rw [readPhysicalRecord_readMore _ r hshort (by rw [hmore]), hmore, readPhysicalRecord,
      if_pos (by simp [kHeaderSize])]
    simp [readMore]
  · rw [readPhysicalRecord, if_pos hshort]
    simp [readMore, heof, hbuf]

@[simp] theorem reportCorruption_lastRecordOffset (r : Reader) (n : Nat) (reason : String) :
    (r.reportCorruption n reason).lastRecordOffset = r.lastRecordOffset := by
  unfold reportCorruption
  split_ifs <;> rfl

/-! ## One iteration of `ReadRecord`'s loop -/

section Loop

variable (mode : WALRecoveryMode) (fuel : Nat) (r r' : Reader) (frag scratch : List UInt8)
  (d po : Nat)

theorem readRecordLoop_bad (inFragmentedRecord : Bool)
    (hread : readPhysicalRecord (r.file.length + 3) r = (⟨kBadRecord, frag, d⟩, r'))
    (hfrag : inFragmentedRecord = false) :
    readRecordLoop mode (fuel + 1) r inFragmentedRecord scratch po =
      readRecordLoop mode fuel r' inFragmentedRecord scratch po := by
  subst hfrag
  simp [readRecordLoop, hread, kBadRecord, kOldRecord, kMaxRecordType, kFullType,
    kRecyclableFullType, kFirstType, kRecyclableFirstType, kMiddleType, kRecyclableMiddleType,
    kLastType, kRecyclableLastType, kBadHeader, kEof]

variable (recycle : Bool)

theorem readRecordLoop_full
    (hread : readPhysicalRecord (r.file.length + 3) r =
      (⟨Writer.fragmentType recycle true true, frag, d⟩, r')) :
    readRecordLoop mode (fuel + 1) r false scratch po =
      (some frag, { r' with lastRecordOffset := r.endOfBufferOffset - r.buffer.length }) := by
  cases recycle <;> simp [readRecordLoop, hread, Writer.fragmentType, kFullType, kRecyclableFullType]

theorem readRecordLoop_first
    (hread : readPhysicalRecord (r.file.length + 3) r =
      (⟨Writer.fragmentType recycle true false, frag, d⟩, r')) :
    readRecordLoop mode (fuel + 1) r false scratch po =
      readRecordLoop mode fuel r' true frag (r.endOfBufferOffset - r.buffer.length) := by
  cases recycle <;> simp [readRecordLoop, hread, Writer.fragmentType, kFullType, kRecyclableFullType,
    kFirstType, kRecyclableFirstType]

theorem readRecordLoop_middle
    (hread : readPhysicalRecord (r.file.length + 3) r =
      (⟨Writer.fragmentType recycle false false, frag, d⟩, r')) :
    readRecordLoop mode (fuel + 1) r true scratch po =
      readRecordLoop mode fuel r' true (scratch ++ frag) po := by
  cases recycle <;> simp [readRecordLoop, hread, Writer.fragmentType, kFullType, kRecyclableFullType,
    kFirstType, kRecyclableFirstType, kMiddleType, kRecyclableMiddleType]

theorem readRecordLoop_last
    (hread : readPhysicalRecord (r.file.length + 3) r =
      (⟨Writer.fragmentType recycle false true, frag, d⟩, r')) :
    readRecordLoop mode (fuel + 1) r true scratch po =
      (some (scratch ++ frag), { r' with lastRecordOffset := po }) := by
  cases recycle <;> simp [readRecordLoop, hread, Writer.fragmentType, kFullType, kRecyclableFullType,
    kFirstType, kRecyclableFirstType, kMiddleType, kRecyclableMiddleType, kLastType,
    kRecyclableLastType]

/-- A middle or last fragment outside a fragmented record is reported and
skipped. -/
theorem readRecordLoop_orphan (isEnd : Bool)
    (hread : readPhysicalRecord (r.file.length + 3) r =
      (⟨Writer.fragmentType recycle false isEnd, frag, d⟩, r')) :
    readRecordLoop mode (fuel + 1) r false scratch po =
      readRecordLoop mode fuel (r'.reportCorruption frag.length
        (if isEnd then "missing start of fragmented record(2)"
          else "missing start of fragmented record(1)")) false scratch po := by
  cases recycle <;> cases isEnd <;>
    simp [readRecordLoop, hread, Writer.fragmentType, kFullType, kRecyclableFullType,
      kFirstType, kRecyclableFirstType, kMiddleType, kRecyclableMiddleType, kLastType,
      kRecyclableLastType]

theorem readRecordLoop_eof
    (hread : (readPhysicalRecord (r.file.length + 3) r).1 = ⟨kEof, frag, d⟩) :
    (readRecordLoop mode (fuel + 1) r false scratch po).1 = none := by
  rcases hp : readPhysicalRecord (r.file.length + 3) r with ⟨rec, r₁⟩
  rw [hp] at hread
  subst hread
  simp [readRecordLoop, hp, kEof, kMaxRecordType, kFullType, kRecyclableFullType, kFirstType,
    kRecyclableFirstType, kMiddleType, kRecyclableMiddleType, kLastType, kRecyclableLastType,
    kBadHeader]

end Loop

/-! ## The fragments of one record -/

section Fragments

variable {F : List UInt8} {o : Nat} {L : UInt64} (mode : WALRecoveryMode) (w : Writer)
  (hL : w.logNumber = L) (hsmall : w.recycleLogFiles = true → L.toNat < 2 ^ 32)
include hL hsmall

/-- Inside a fragmented record the reader gathers the middle fragments and
returns the record at its last one, with the offset where the record began. -/
theorem readRecordLoop_tail (qs : List PhysicalRecord) :
    ∀ (P : Nat) (r : Reader) (fuel : Nat) (scratch : List UInt8) (po : Nat) (rest : List UInt8),
      qs ≠ [] → Chain w.recycleLogFiles false qs → (∀ q ∈ qs, q.pad = 0) →
      Layout (headerSize w.recycleLogFiles) P qs →
      F.drop P = (qs.map (·.bytes w)).flatten ++ rest → o ≤ P → At F o L r P →
      F.length - P < fuel →
      ∃ r', readRecordLoop mode fuel r true scratch po =
          (some (scratch ++ (qs.map (·.payload)).flatten), { r' with lastRecordOffset := po }) ∧
        At F o L r' (P + ((qs.map (·.bytes w)).flatten).length) := by
  induction qs with
  | nil => intro _ _ _ _ _ _ hne; exact absurd rfl hne
  | cons q qs ih =>
    intro P r fuel scratch po rest _ hchain hpads hlay hF ho h hfuel
    obtain ⟨htype, hchain'⟩ := hchain
    have hpad := hpads q List.mem_cons_self
    cases hlay with
    | cons _ hfit htail =>
    rw [hpad, Nat.add_zero] at hfit htail
    have hframe : F.drop P = List.replicate 0 0 ++ (w.header (Writer.fragmentType w.recycleLogFiles
        false qs.isEmpty) q.payload ++ q.payload ++ ((qs.map (·.bytes w)).flatten ++ rest)) := by
      rw [hF, List.map_cons, List.flatten_cons, PhysicalRecord.bytes_eq, hpad, htype]
      simp
    have hlenF := congrArg List.length hF
    obtain ⟨r₁, hr₁, hat₁, -⟩ := readPhysicalRecord_frame h w hL hsmall false qs.isEmpty q.payload _
      (by unfold kBlockSize at hfit; omega) hframe (Or.inl rfl) (by simpa using hfit) (r.file.length + 1)
    rw [if_neg (by omega), if_neg (by omega), Nat.add_zero] at hr₁
    have hq : (q.bytes w).length = headerSize w.recycleLogFiles + q.payload.length := by
      rw [PhysicalRecord.bytes_eq, hpad, htype]
      simp [Writer.header_fragmentType_length]
    obtain ⟨fuel, rfl⟩ : ∃ k, fuel = k + 1 := ⟨fuel - 1, by omega⟩
    simp only [List.map_cons, List.flatten_cons, List.length_append, List.length_drop, hq] at hlenF ⊢
    have hhs := headerSize_pos w.recycleLogFiles
    rw [Nat.add_zero, ← Nat.add_assoc] at hat₁
    cases qs with
    | nil =>
      -- the last fragment ends the record
      refine ⟨r₁, ?_, hat₁.of_eq (by simp; omega)⟩
      rw [readRecordLoop_last mode fuel r r₁ q.payload scratch 0 po _ hr₁]
      simp
    | cons q' qs' =>
      rw [readRecordLoop_middle mode fuel r r₁ q.payload scratch 0 po _ hr₁]
      have hF' : F.drop (P + headerSize w.recycleLogFiles + q.payload.length) =
          ((q' :: qs').map (·.bytes w)).flatten ++ rest := by
        rw [Nat.add_assoc, ← hq, ← List.drop_drop, hF, List.map_cons, List.flatten_cons,
          List.append_assoc, List.drop_left]
      obtain ⟨r', hr', hat'⟩ := ih _ r₁ fuel (scratch ++ q.payload) po rest (List.cons_ne_nil _ _)
        hchain' (fun q hq => hpads q (List.mem_cons_of_mem _ hq)) htail hF' (by omega) hat₁
        (by omega)
      exact ⟨r', by rw [hr', List.append_assoc], hat'.of_eq (by omega)⟩

/-- Outside a fragmented record middle and last fragments are skipped, whether
they began before the initial offset or not. -/
theorem readRecordLoop_skipTail (qs : List PhysicalRecord) :
    ∀ (P : Nat) (r : Reader) (fuel : Nat) (scratch : List UInt8) (po : Nat) (rest : List UInt8),
      Chain w.recycleLogFiles false qs → (∀ q ∈ qs, q.pad = 0) →
      Layout (headerSize w.recycleLogFiles) P qs →
      F.drop P = (qs.map (·.bytes w)).flatten ++ rest → At F o L r P → F.length - P < fuel →
      ∃ r' fuel', readRecordLoop mode fuel r false scratch po =
          readRecordLoop mode fuel' r' false scratch po ∧
        At F o L r' (P + ((qs.map (·.bytes w)).flatten).length) ∧
        F.length - (P + ((qs.map (·.bytes w)).flatten).length) < fuel' := by
  induction qs with
  | nil => intro P r fuel _ _ _ _ _ _ _ h hfuel; exact ⟨r, fuel, rfl, by simpa using h, by simpa using hfuel⟩
  | cons q qs ih =>
    intro P r fuel scratch po rest hchain hpads hlay hF h hfuel
    obtain ⟨htype, hchain'⟩ := hchain
    have hpad := hpads q List.mem_cons_self
    cases hlay with
    | cons _ hfit htail =>
    rw [hpad, Nat.add_zero] at hfit htail
    have hframe : F.drop P = List.replicate 0 0 ++ (w.header (Writer.fragmentType w.recycleLogFiles
        false qs.isEmpty) q.payload ++ q.payload ++ ((qs.map (·.bytes w)).flatten ++ rest)) := by
      rw [hF, List.map_cons, List.flatten_cons, PhysicalRecord.bytes_eq, hpad, htype]
      simp
    have hlenF := congrArg List.length hF
    obtain ⟨r₁, hr₁, hat₁, -⟩ := readPhysicalRecord_frame h w hL hsmall false qs.isEmpty q.payload _
      (by unfold kBlockSize at hfit; omega) hframe (Or.inl rfl) (by simpa using hfit) (r.file.length + 1)
    rw [Nat.add_zero] at hr₁
    have hq : (q.bytes w).length = headerSize w.recycleLogFiles + q.payload.length := by
      rw [PhysicalRecord.bytes_eq, hpad, htype]
      simp [Writer.header_fragmentType_length]
    obtain ⟨fuel, rfl⟩ : ∃ k, fuel = k + 1 := ⟨fuel - 1, by omega⟩
    simp only [List.map_cons, List.flatten_cons, List.length_append, List.length_drop, hq] at hlenF ⊢
    have hhs := headerSize_pos w.recycleLogFiles
    rw [Nat.add_zero, ← Nat.add_assoc] at hat₁
    have hF' : F.drop (P + headerSize w.recycleLogFiles + q.payload.length) =
        (qs.map (·.bytes w)).flatten ++ rest := by
      rw [Nat.add_assoc, ← hq, ← List.drop_drop, hF, List.map_cons, List.flatten_cons,
        List.append_assoc, List.drop_left]
    -- the fragment is dropped silently before the initial offset, reported after it
    obtain ⟨r₂, hstep, hat₂⟩ : ∃ r₂, readRecordLoop mode (fuel + 1) r false scratch po =
        readRecordLoop mode fuel r₂ false scratch po ∧
        At F o L r₂ (P + headerSize w.recycleLogFiles + q.payload.length) := by
      split_ifs at hr₁ with hbefore
      · exact ⟨r₁, readRecordLoop_bad mode fuel r r₁ [] scratch 0 po false hr₁ rfl, hat₁⟩
      · exact ⟨_, readRecordLoop_orphan mode fuel r r₁ q.payload scratch 0 po _ _ hr₁,
          hat₁.reportCorruption _ _⟩
    obtain ⟨r', fuel', hr', hat', hfuel'⟩ := ih _ r₂ fuel scratch po rest hchain'
      (fun q hq => hpads q (List.mem_cons_of_mem _ hq)) htail hF' hat₂ (by omega)
    exact ⟨r', fuel', hstep.trans hr', hat'.of_eq (by omega), by omega⟩

omit hL hsmall in
/-- The zeros of a recyclable writer too long to be read as a short buffer are
read as a bad record and skipped. -/
theorem readRecordLoop_zeros {P z : Nat} {r : Reader} {fuel : Nat} (scratch : List UInt8)
    (po : Nat) (rest : List UInt8) (h : At F o L r P) (hF : F.drop P = List.replicate z 0 ++ rest)
    (hz : kHeaderSize ≤ z) (hzk : z < kBlockSize) (hal : (P + z) % kBlockSize = 0)
    (hmore : P + z < F.length) (hfuel : F.length - P < fuel) :
    ∃ r' fuel', readRecordLoop mode fuel r false scratch po =
        readRecordLoop mode fuel' r' false scratch po ∧ At F o L r' (P + z) ∧
      F.length - (P + z) < fuel' := by
  obtain ⟨r₁, hr₁, hat₁, -⟩ := readPhysicalRecord_zeros h rest hF hz hzk hal hmore (r.file.length + 2)
  obtain ⟨fuel, rfl⟩ : ∃ k, fuel = k + 1 := ⟨fuel - 1, by omega⟩
  refine ⟨r₁, fuel, readRecordLoop_bad mode fuel r r₁ [] scratch 0 po false hr₁ rfl, hat₁, ?_⟩
  unfold kHeaderSize at hz
  omega

omit hL hsmall in
/-- A recyclable writer's zeros of a header's length or more take one iteration
of their own; the reader then stands at the block boundary, before the record
without its zeros. -/
theorem readRecordLoop_dropZeros {q : PhysicalRecord} {qs : List PhysicalRecord} {P : Nat}
    {r : Reader} {fuel : Nat} (scratch : List UInt8) (po : Nat) (rest : List UInt8)
    (hlay : Layout (headerSize w.recycleLogFiles) P (q :: qs))
    (hF : F.drop P = ((q :: qs).map (·.bytes w)).flatten ++ rest)
    (hz : kHeaderSize ≤ q.pad) (h : At F o L r P) (hfuel : F.length - P < fuel) :
    ∃ r' fuel', readRecordLoop mode fuel r false scratch po =
        readRecordLoop mode fuel' r' false scratch po ∧ At F o L r' (P + q.pad) ∧
      F.length - (P + q.pad) < fuel' ∧
      Layout (headerSize w.recycleLogFiles) (P + q.pad) (q.unpadded :: qs) ∧
      F.drop (P + q.pad) = ((q.unpadded :: qs).map (·.bytes w)).flatten ++ rest := by
  have hhs := headerSize_pos w.recycleLogFiles
  have hsmall11 := headerSize_le w.recycleLogFiles
  obtain ⟨hlt, hal⟩ := hlay.pad_spec hhs
  have hal' : (P + q.pad) % kBlockSize = 0 := by
    rcases hal with h0 | hal
    · rw [h0] at hz; unfold kHeaderSize at hz; omega
    · exact hal
  have hF' : F.drop (P + q.pad) = ((q.unpadded :: qs).map (·.bytes w)).flatten ++ rest := by
    rw [← List.drop_drop, hF, bytes_unpadded w, List.append_assoc, List.drop_left']
    simp
  have hlenF : P + q.pad < F.length := by
    have := congrArg List.length hF'
    simp only [List.length_drop, List.map_cons, List.flatten_cons, List.length_append,
      PhysicalRecord.bytes, List.length_replicate] at this
    have hhead : 0 < (w.header q.unpadded.type q.unpadded.payload).length := by
      rw [Writer.header_length]; split_ifs <;> decide
    omega
  obtain ⟨r', fuel', hr', hat', hfuel'⟩ := readRecordLoop_zeros mode scratch po
    (((q.unpadded :: qs).map (·.bytes w)).flatten ++ rest) h
    (by rw [hF, bytes_unpadded w, List.append_assoc]) hz (by unfold kBlockSize; omega) hal' hlenF hfuel
  exact ⟨r', fuel', hr', hat', hfuel', hlay.unpadded (by unfold kBlockSize; omega) hal', hF'⟩

/-- A record whose first fragment begins at or after the initial offset is
returned whole. `LastRecordOffset` is where the reader stood before it: the start
of the zeros closing the previous block when they were too few to be read as a
record, else the first fragment's. -/
theorem readRecordLoop_record (q : PhysicalRecord) (qs : List PhysicalRecord) :
    ∀ (P : Nat) (r : Reader) (fuel po : Nat) (rest : List UInt8),
      Chain w.recycleLogFiles true (q :: qs) → (∀ q' ∈ qs, q'.pad = 0) →
      Layout (headerSize w.recycleLogFiles) P (q :: qs) →
      F.drop P = ((q :: qs).map (·.bytes w)).flatten ++ rest → o ≤ P + q.pad →
      At F o L r P → F.length - P < fuel →
      ∃ r', readRecordLoop mode fuel r false [] po =
          (some ((q :: qs).map (·.payload)).flatten,
            { r' with lastRecordOffset := if q.pad < kHeaderSize then P else P + q.pad }) ∧
        At F o L r' (P + (((q :: qs).map (·.bytes w)).flatten).length) := by
  -- zeros that fill a header are first read as a record of their own
  suffices hshort : ∀ (q : PhysicalRecord) (P : Nat) (r : Reader) (fuel po : Nat) (rest : List UInt8),
      q.pad < kHeaderSize →
      Chain w.recycleLogFiles true (q :: qs) → (∀ q' ∈ qs, q'.pad = 0) →
      Layout (headerSize w.recycleLogFiles) P (q :: qs) →
      F.drop P = ((q :: qs).map (·.bytes w)).flatten ++ rest → o ≤ P + q.pad →
      At F o L r P → F.length - P < fuel →
      ∃ r', readRecordLoop mode fuel r false [] po =
          (some ((q :: qs).map (·.payload)).flatten, { r' with lastRecordOffset := P }) ∧
        At F o L r' (P + (((q :: qs).map (·.bytes w)).flatten).length) by
    intro P r fuel po rest hchain hpads hlay hF ho h hfuel
    by_cases hz : q.pad < kHeaderSize
    · rw [if_pos hz]
      exact hshort q P r fuel po rest hz hchain hpads hlay hF ho h hfuel
    · obtain ⟨r₁, fuel₁, hr₁, hat₁, hfuel₁, hlay₁, hF₁⟩ :=
        readRecordLoop_dropZeros mode w [] po rest hlay hF (by omega) h hfuel
      obtain ⟨r', hr', hat'⟩ := hshort q.unpadded (P + q.pad) r₁ fuel₁ po rest
        (by simp [PhysicalRecord.unpadded, kHeaderSize]) hchain hpads hlay₁ hF₁
        (by simpa [PhysicalRecord.unpadded] using ho) hat₁ hfuel₁
      refine ⟨r', ?_, hat'.of_eq ?_⟩
      · rw [hr₁, hr', if_neg hz]
        rfl
      · rw [bytes_unpadded w q qs]
        simp [Nat.add_assoc]
  intro q P r fuel po rest hz hchain hpads hlay hF ho h hfuel
  obtain ⟨htype, hchain'⟩ := hchain
  have hhs := headerSize_pos w.recycleLogFiles
  obtain ⟨-, hal⟩ := hlay.pad_spec hhs
  cases hlay with
  | cons _ hfit htail =>
  have hframe : F.drop P = List.replicate q.pad 0 ++ (w.header (Writer.fragmentType
      w.recycleLogFiles true qs.isEmpty) q.payload ++ q.payload ++ ((qs.map (·.bytes w)).flatten ++ rest)) := by
    rw [hF, List.map_cons, List.flatten_cons, PhysicalRecord.bytes_eq, htype]
    simp
  have hlenF := congrArg List.length hF
  obtain ⟨r₁, hr₁, hat₁, -⟩ := readPhysicalRecord_frame h w hL hsmall true qs.isEmpty q.payload _
    (by unfold kBlockSize at hfit; omega) hframe (by rcases hal with h0 | hal <;> [left; right] <;> omega)
    hfit (r.file.length + 1)
  rw [if_neg (by omega), if_neg (by omega)] at hr₁
  have hq : (q.bytes w).length = q.pad + (headerSize w.recycleLogFiles + q.payload.length) := by
    rw [PhysicalRecord.bytes_eq, htype]
    simp [Writer.header_fragmentType_length]
  obtain ⟨fuel, rfl⟩ : ∃ k, fuel = k + 1 := ⟨fuel - 1, by omega⟩
  simp only [List.map_cons, List.flatten_cons, List.length_append, List.length_drop, hq] at hlenF ⊢
  rw [← Nat.add_assoc] at hat₁
  have hoff := h.physicalOffset
  cases qs with
  | nil =>
    -- a full record
    refine ⟨r₁, ?_, hat₁.of_eq (by simp; omega)⟩
    rw [readRecordLoop_full mode fuel r r₁ q.payload [] 0 po _ hr₁, hoff]
    simp
  | cons q' qs' =>
    -- a first fragment; the rest of the record follows it
    rw [readRecordLoop_first mode fuel r r₁ q.payload [] 0 po _ hr₁, hoff]
    have hF' : F.drop (P + q.pad + headerSize w.recycleLogFiles + q.payload.length) =
        ((q' :: qs').map (·.bytes w)).flatten ++ rest := by
      rw [show P + q.pad + headerSize w.recycleLogFiles + q.payload.length = P + (q.bytes w).length
        by rw [hq]; omega, ← List.drop_drop, hF, List.map_cons, List.flatten_cons,
        List.append_assoc, List.drop_left]
    obtain ⟨r', hr', hat'⟩ := readRecordLoop_tail mode w hL hsmall (q' :: qs') _ r₁ fuel q.payload P
      rest (List.cons_ne_nil _ _) hchain' hpads htail hF' (by omega) hat₁ (by omega)
    exact ⟨r', hr', hat'.of_eq (by omega)⟩

/-- A record whose first fragment begins before the initial offset is skipped
whole: its first fragment as a bad record, the others as orphans or bad records. -/
theorem readRecordLoop_skipRecord (q : PhysicalRecord) (qs : List PhysicalRecord) :
    ∀ (P : Nat) (r : Reader) (fuel po : Nat) (rest : List UInt8),
      Chain w.recycleLogFiles true (q :: qs) → (∀ q' ∈ qs, q'.pad = 0) →
      Layout (headerSize w.recycleLogFiles) P (q :: qs) →
      F.drop P = ((q :: qs).map (·.bytes w)).flatten ++ rest → P + q.pad < o →
      At F o L r P → F.length - P < fuel →
      ∃ r' fuel', readRecordLoop mode fuel r false [] po = readRecordLoop mode fuel' r' false [] po ∧
        At F o L r' (P + (((q :: qs).map (·.bytes w)).flatten).length) ∧
        F.length - (P + (((q :: qs).map (·.bytes w)).flatten).length) < fuel' := by
  suffices hshort : ∀ (q : PhysicalRecord) (P : Nat) (r : Reader) (fuel po : Nat) (rest : List UInt8),
      q.pad < kHeaderSize →
      Chain w.recycleLogFiles true (q :: qs) → (∀ q' ∈ qs, q'.pad = 0) →
      Layout (headerSize w.recycleLogFiles) P (q :: qs) →
      F.drop P = ((q :: qs).map (·.bytes w)).flatten ++ rest → P + q.pad < o →
      At F o L r P → F.length - P < fuel →
      ∃ r' fuel', readRecordLoop mode fuel r false [] po = readRecordLoop mode fuel' r' false [] po ∧
        At F o L r' (P + (((q :: qs).map (·.bytes w)).flatten).length) ∧
        F.length - (P + (((q :: qs).map (·.bytes w)).flatten).length) < fuel' by
    intro P r fuel po rest hchain hpads hlay hF ho h hfuel
    by_cases hz : q.pad < kHeaderSize
    · exact hshort q P r fuel po rest hz hchain hpads hlay hF ho h hfuel
    · obtain ⟨r₁, fuel₁, hr₁, hat₁, hfuel₁, hlay₁, hF₁⟩ :=
        readRecordLoop_dropZeros mode w [] po rest hlay hF (by omega) h hfuel
      obtain ⟨r', fuel', hr', hat', hfuel'⟩ := hshort q.unpadded (P + q.pad) r₁ fuel₁ po rest
        (by simp [PhysicalRecord.unpadded, kHeaderSize]) hchain hpads hlay₁ hF₁
        (by simpa [PhysicalRecord.unpadded] using ho) hat₁ hfuel₁
      have hlen : P + q.pad + (((q.unpadded :: qs).map (·.bytes w)).flatten).length =
          P + (((q :: qs).map (·.bytes w)).flatten).length := by
        rw [bytes_unpadded w q qs]
        simp [Nat.add_assoc]
      rw [hlen] at hat' hfuel'
      exact ⟨r', fuel', hr₁.trans hr', hat', hfuel'⟩
  intro q P r fuel po rest hz hchain hpads hlay hF ho h hfuel
  obtain ⟨htype, hchain'⟩ := hchain
  have hhs := headerSize_pos w.recycleLogFiles
  obtain ⟨-, hal⟩ := hlay.pad_spec hhs
  cases hlay with
  | cons _ hfit htail =>
  have hframe : F.drop P = List.replicate q.pad 0 ++ (w.header (Writer.fragmentType
      w.recycleLogFiles true qs.isEmpty) q.payload ++ q.payload ++ ((qs.map (·.bytes w)).flatten ++ rest)) := by
    rw [hF, List.map_cons, List.flatten_cons, PhysicalRecord.bytes_eq, htype]
    simp
  have hlenF := congrArg List.length hF
  obtain ⟨r₁, hr₁, hat₁, -⟩ := readPhysicalRecord_frame h w hL hsmall true qs.isEmpty q.payload _
    (by unfold kBlockSize at hfit; omega) hframe (by rcases hal with h0 | hal <;> [left; right] <;> omega)
    hfit (r.file.length + 1)
  rw [if_pos ho, if_pos ho] at hr₁
  have hq : (q.bytes w).length = q.pad + (headerSize w.recycleLogFiles + q.payload.length) := by
    rw [PhysicalRecord.bytes_eq, htype]
    simp [Writer.header_fragmentType_length]
  obtain ⟨fuel, rfl⟩ : ∃ k, fuel = k + 1 := ⟨fuel - 1, by omega⟩
  simp only [List.map_cons, List.flatten_cons, List.length_append, List.length_drop, hq] at hlenF ⊢
  rw [← Nat.add_assoc] at hat₁
  -- the first fragment reads as a bad record; the rest are orphans
  rw [readRecordLoop_bad mode fuel r r₁ [] [] 0 po false hr₁ rfl]
  have hF' : F.drop (P + q.pad + headerSize w.recycleLogFiles + q.payload.length) =
      (qs.map (·.bytes w)).flatten ++ rest := by
    rw [show P + q.pad + headerSize w.recycleLogFiles + q.payload.length = P + (q.bytes w).length
      by rw [hq]; omega, ← List.drop_drop, hF, List.map_cons, List.flatten_cons,
      List.append_assoc, List.drop_left]
  obtain ⟨r', fuel', hr', hat', hfuel'⟩ := readRecordLoop_skipTail mode w hL hsmall qs _ r₁ fuel [] po
    rest hchain' hpads htail hF' hat₁ (by omega)
  exact ⟨r', fuel', hr', hat'.of_eq (by omega), by omega⟩

end Fragments

/-! ## Whole runs -/

/-- What a caller's loop collects from one result of `ReadRecord` on: the record
with `LastRecordOffset()`, then what the later calls return. -/
def collect (mode : WALRecoveryMode) (n : Nat) : Option (List UInt8) × Reader →
    List (List UInt8 × Nat)
  | (some record, r) => (record, r.lastRecordOffset) :: readRecords mode n r
  | (none, _) => []

theorem readRecords_succ (mode : WALRecoveryMode) (n : Nat) (r : Reader) :
    readRecords mode (n + 1) r = collect mode n (r.readRecord mode) := by
  unfold readRecords
  rcases r.readRecord mode with ⟨_ | _, _⟩ <;> rfl

theorem collect_of_none (mode : WALRecoveryMode) (n : Nat) {res : Option (List UInt8) × Reader}
    (h : res.1 = none) : collect mode n res = [] := by
  obtain ⟨_ | _, _⟩ := res
  · rfl
  · cases h

/-- The block `SkipToInitialBlock` starts from: the initial offset's, or the next
one when the offset lies in the last six bytes of its block. -/
theorem skipToInitialBlock_endOfBufferOffset (r : Reader) :
    (r.initialOffset % kBlockSize > kBlockSize - 6 ∧ r.skipToInitialBlock.endOfBufferOffset =
        r.initialOffset - r.initialOffset % kBlockSize + kBlockSize) ∨
      (r.initialOffset % kBlockSize ≤ kBlockSize - 6 ∧ r.skipToInitialBlock.endOfBufferOffset =
        r.initialOffset - r.initialOffset % kBlockSize) := by
  unfold skipToInitialBlock
  dsimp only
  split_ifs with h
  · exact Or.inl ⟨h, rfl⟩
  · exact Or.inr ⟨Nat.le_of_not_lt h, rfl⟩

end Reader

namespace Writer

/-- What a reader from initial offset `o`, whose first block starts at `start`,
reads back of the records written from `w` on: each record whose first physical
record begins at or after `o`, with the offset where it begins, or, when zeros
too few for a header close the block before it and the reader read that block,
the offset where those zeros begin. -/
def readBack (o start : Nat) (w : Writer) (records : List (List UInt8)) : List (List UInt8 × Nat) :=
  ((records.zip (w.recordStarts records)).filter (fun x => o ≤ x.2.2)).map
    (fun x => (x.1, if x.2.2 - x.2.1 < kHeaderSize ∧ start ≤ x.2.1 then x.2.1 else x.2.2))

theorem readBack_cons (o start : Nat) (w : Writer) (record : List UInt8) (rest : List (List UInt8)) :
    w.readBack o start (record :: rest) =
      (if o ≤ w.dest.length + w.padOf then
        [(record, if w.padOf < kHeaderSize ∧ start ≤ w.dest.length then w.dest.length
          else w.dest.length + w.padOf)] else []) ++
        (w.addRecord record).readBack o start rest := by
  unfold readBack
  rw [recordStarts, List.zip_cons_cons, List.filter_cons]
  split_ifs with h₁ h₂ h₂ <;> simp_all

end Writer

namespace Reader

/-- A fresh reader stands at the start of its file. -/
theorem create_at (F : List UInt8) (checksum : Bool) (o : Nat) (L : UInt64) :
    At F o L (create F checksum o L) 0 :=
  ⟨rfl, by simp [create], le_rfl, Nat.zero_le _, by simp [create], fun _ => rfl,
    fun h => by simp [create] at h, rfl, rfl⟩

/-- After `SkipToInitialBlock` a fresh reader stands at the start of the block it
skipped to, with nothing buffered. -/
theorem skipToInitialBlock_at (F : List UInt8) (checksum : Bool) (o : Nat) (L : UInt64)
    (hB : (create F checksum o L).skipToInitialBlock.endOfBufferOffset % kBlockSize = 0)
    (hle : (create F checksum o L).skipToInitialBlock.endOfBufferOffset ≤ F.length) :
    At F o L (create F checksum o L).skipToInitialBlock
      (create F checksum o L).skipToInitialBlock.endOfBufferOffset := by
  refine ⟨rfl, by simp [skipToInitialBlock, create], le_rfl, hle, ?_, fun _ => hB,
    fun h => by simp [skipToInitialBlock, create] at h, rfl, rfl⟩
  omega

section Run

variable {F : List UInt8} {o : Nat} {L : UInt64} (mode : WALRecoveryMode) {B : Nat}
  (hB : (o % kBlockSize > kBlockSize - 6 ∧ B = o - o % kBlockSize + kBlockSize) ∨
    (o % kBlockSize ≤ kBlockSize - 6 ∧ B = o - o % kBlockSize))

include hB in
/-- A physical record that begins before the reader's first block began before
the initial offset: the block is skipped only when the offset lies in its last
six bytes, where no header begins. -/
theorem lt_initialOffset {s : Nat} (hs : s % kBlockSize + kHeaderSize ≤ kBlockSize) (hlt : s < B) :
    s < o := by
  unfold kBlockSize kHeaderSize at *
  omega

include hB in
/-- Zeros too few for a header, read by the reader, start at or after the
initial offset when the record after them does. -/
theorem initialOffset_le_trailer {T z : Nat} (hz : z < kHeaderSize)
    (hal : z = 0 ∨ (T + z) % kBlockSize = 0) (hBT : B ≤ T) (ho : o ≤ T + z) : o ≤ T := by
  unfold kBlockSize kHeaderSize at *
  omega

/-- A reader that has returned a record at or after the initial offset does not
skip again: its next `ReadRecord` runs the loop from where it stands. -/
theorem readRecords_of_collect {r : Reader} {P : Nat} (h : At F o L r P) (hlast : o ≤ r.lastRecordOffset)
    (m : Nat) (X : List (List UInt8 × Nat))
    (hloop : ∀ fuel, F.length - P < fuel → collect mode m (readRecordLoop mode fuel r false [] 0) = X) :
    readRecords mode (m + 1) r = X := by
  rw [readRecords_succ, readRecord, if_neg (by rw [h.initialOffset_eq]; omega)]
  exact hloop _ (by rw [h.unread_length]; omega)

/-- After a record returned at or after the initial offset, the later calls
return what the loop returns from the reader's position. -/
theorem collect_some {r : Reader} {P : Nat} (h : At F o L r P) (record : List UInt8)
    {x : Nat} (hx : o ≤ x) (n : Nat) (X : List (List UInt8 × Nat)) (hlen : X.length ≤ n)
    (hloop : ∀ fuel m, F.length - P < fuel → X.length ≤ m + 1 →
      collect mode m (readRecordLoop mode fuel { r with lastRecordOffset := x } false [] 0) = X) :
    collect mode n (some record, { r with lastRecordOffset := x }) = (record, x) :: X := by
  rw [collect]
  congr 1
  cases n with
  | zero =>
    have hnil : X.length = 0 := by omega
    rw [readRecords, List.eq_nil_of_length_eq_zero hnil]
  | succ m =>
    exact readRecords_of_collect mode (h.setLastRecordOffset x) hx m X
      (fun fuel hfuel => hloop fuel m hfuel hlen)

include hB in
/-- From the start of a record of the writer's file, with the reader's first
block at or before it, the calls of `ReadRecord` return exactly the records
`readBack` lists. The induction is on the records; each one is read whole or
skipped whole by `readRecordLoop_record` and `readRecordLoop_skipRecord`. -/
theorem collect_loop (records : List (List UInt8)) :
    ∀ (w : Writer) (r : Reader) (fuel n po : Nat), w.Inv → w.logNumber = L →
      (w.recycleLogFiles = true → L.toNat < 2 ^ 32) →
      F = (records.foldl Writer.addRecord w).dest → At F o L r w.dest.length →
      F.length - w.dest.length < fuel → B ≤ w.dest.length →
      (w.readBack o B records).length ≤ n + 1 →
      collect mode n (readRecordLoop mode fuel r false [] po) = w.readBack o B records := by
  induction records with
  | nil =>
    intro w r fuel n po _ _ _ hF h hfuel _ _
    -- the end of the file
    rw [List.foldl_nil] at hF
    subst hF
    have hE := h.end_le
    have hP := h.pos_le
    have hfile : r.file = [] := by
      rw [h.file_eq]
      exact List.drop_eq_nil_of_le (by omega)
    have hbuf : r.buffer = [] := List.eq_nil_of_length_eq_zero (by rw [h.buffer_length]; omega)
    obtain ⟨fuel, rfl⟩ : ∃ k, fuel = k + 1 := ⟨fuel - 1, by omega⟩
    rw [collect_of_none mode n (readRecordLoop_eof mode fuel r [] [] 0 po
      (readPhysicalRecord_eof _ r hfile hbuf))]
    rfl
  | cons record rest ih =>
    intro w r fuel n po hw hL hsmall hF h hfuel hBT hlen
    obtain ⟨q, qs, hdest, hpay, hlay, hchain, hpads, hpad, hw₁⟩ :=
      Writer.addRecord_physicalRecords hw record
    rw [List.foldl_cons] at hF
    obtain ⟨more, hmore⟩ := Writer.foldl_addRecord_dest rest (w.addRecord record)
    have hdrop : F.drop w.dest.length = ((q :: qs).map (·.bytes w)).flatten ++ more := by
      rw [hF, hmore, hdest, List.append_assoc, List.drop_left]
    have hT₁ : (w.addRecord record).dest.length =
        w.dest.length + ((q :: qs).map (·.bytes w)).flatten.length := by
      rw [hdest, List.length_append]
    obtain ⟨hL₁, hr₁⟩ := Writer.addRecord_frame w record
    rw [Writer.readBack_cons, ← hpad] at hlen ⊢
    by_cases hS : o ≤ w.dest.length + q.pad
    · -- the record is read; `LastRecordOffset()` is where the reader stood before it
      obtain ⟨r', hr', hat'⟩ := readRecordLoop_record mode w hL hsmall q qs _ r fuel po more
        hchain hpads hlay hdrop hS h hfuel
      have hlro : (if q.pad < kHeaderSize then w.dest.length else w.dest.length + q.pad) =
          if q.pad < kHeaderSize ∧ B ≤ w.dest.length then w.dest.length
          else w.dest.length + q.pad := by
        simp [hBT]
      obtain ⟨hlt, hal⟩ := hlay.pad_spec (headerSize_pos _)
      have hlast : o ≤ (if q.pad < kHeaderSize then w.dest.length else w.dest.length + q.pad) := by
        split_ifs with hz
        · exact initialOffset_le_trailer hB hz hal hBT hS
        · exact hS
      simp only [if_pos hS, List.length_cons, List.singleton_append] at hlen
      rw [hr', if_pos hS, hpay, List.singleton_append, ← hlro]
      refine collect_some mode hat' record hlast n ((w.addRecord record).readBack o B rest)
        (by omega) ?_
      intro fuel' m hfuel' hlen'
      exact ih (w.addRecord record) _ fuel' m 0 hw₁ (hL₁.trans hL) (hr₁ ▸ hsmall) hF
        ((hat'.setLastRecordOffset _).of_eq hT₁.symm) (by rwa [hT₁]) (by rw [hT₁]; omega) hlen'
    · -- the record began before the initial offset
      obtain ⟨r', fuel', hr', hat', hfuel'⟩ := readRecordLoop_skipRecord mode w hL hsmall q qs _ r
        fuel po more hchain hpads hlay hdrop (by omega) h hfuel
      rw [hr', if_neg hS, List.nil_append]
      rw [if_neg hS, List.nil_append] at hlen
      exact ih (w.addRecord record) r' fuel' n po hw₁ (hL₁.trans hL) (hr₁ ▸ hsmall) hF
        (hat'.of_eq hT₁.symm) (by rwa [hT₁]) (by rw [hT₁]; omega) hlen

include hB in
/-- From the reader's first block on, the calls of `ReadRecord` return exactly
the records `readBack` lists. The block boundary falls between two records, after
the zeros before a record's first fragment, or between two of its fragments; the
records before it were all begun before the initial offset. -/
theorem collect_start (records : List (List UInt8)) :
    ∀ (w : Writer) (r : Reader) (fuel n : Nat), w.Inv → w.logNumber = L →
      (w.recycleLogFiles = true → L.toNat < 2 ^ 32) →
      F = (records.foldl Writer.addRecord w).dest → w.dest.length ≤ B → At F o L r B →
      F.length - B < fuel → B % kBlockSize = 0 →
      (w.readBack o B records).length ≤ n + 1 →
      collect mode n (readRecordLoop mode fuel r false [] 0) = w.readBack o B records := by
  induction records with
  | nil =>
    intro w r fuel n hw hL hsmall hF hTB h hfuel _ hlen
    have hE := h.end_le
    have hP := h.pos_le
    rw [List.foldl_nil] at hF
    have hB' : B = w.dest.length := by subst hF; omega
    subst hB'
    exact collect_loop mode hB [] w r fuel n 0 hw hL hsmall hF h hfuel le_rfl hlen
  | cons record rest ih =>
    intro w r fuel n hw hL hsmall hF hTB h hfuel hal hlen
    by_cases hBT : B = w.dest.length
    · subst hBT
      exact collect_loop mode hB _ w r fuel n 0 hw hL hsmall hF h hfuel le_rfl hlen
    obtain ⟨q, qs, hdest, hpay, hlay, hchain, hpads, hpad, hw₁⟩ :=
      Writer.addRecord_physicalRecords hw record
    rw [List.foldl_cons] at hF
    obtain ⟨more, hmore⟩ := Writer.foldl_addRecord_dest rest (w.addRecord record)
    have hdrop : F.drop w.dest.length = ((q :: qs).map (·.bytes w)).flatten ++ more := by
      rw [hF, hmore, hdest, List.append_assoc, List.drop_left]
    have hT₁ : (w.addRecord record).dest.length =
        w.dest.length + ((q :: qs).map (·.bytes w)).flatten.length := by
      rw [hdest, List.length_append]
    obtain ⟨hL₁, hr₁⟩ := Writer.addRecord_frame w record
    rw [Writer.readBack_cons, ← hpad] at hlen ⊢
    obtain ⟨hchain₀, hchain'⟩ := hchain
    have hhs := headerSize_pos w.recycleLogFiles
    have hhs7 : kHeaderSize ≤ headerSize w.recycleLogFiles := by
      cases w.recycleLogFiles <;> decide
    have hq : ((q :: qs).map (·.bytes w)).flatten.length = q.pad +
        (headerSize w.recycleLogFiles + q.payload.length) +
        (qs.map (·.bytes w)).flatten.length := by
      rw [List.map_cons, List.flatten_cons, List.length_append, PhysicalRecord.bytes_eq, hchain₀]
      simp [Writer.header_fragmentType_length]
    obtain ⟨hlt, hpadal⟩ := hlay.pad_spec hhs
    have hfit := hlay
    cases hfit with
    | cons _ hfit htail =>
    -- the record's first fragment is a frame start
    have hframe : (w.dest.length + q.pad) % kBlockSize + kHeaderSize ≤ kBlockSize := by omega
    by_cases hafter : (w.addRecord record).dest.length ≤ B
    · -- the whole record lies before the reader's first block
      have hS : ¬ o ≤ w.dest.length + q.pad := by
        have := lt_initialOffset hB hframe (by omega)
        omega
      rw [if_neg hS, List.nil_append] at hlen ⊢
      exact ih (w.addRecord record) r fuel n hw₁ (hL₁.trans hL) (hr₁ ▸ hsmall) hF hafter h hfuel
        hal hlen
    -- the rest of the file is read as from the start of the next record
    have hrest : ∀ (r' : Reader) (fuel' : Nat), At F o L r' (w.addRecord record).dest.length →
        F.length - (w.addRecord record).dest.length < fuel' →
        collect mode n (readRecordLoop mode fuel' r' false [] 0) =
          (w.addRecord record).readBack o B rest := fun r' fuel' hat' hfuel' =>
      collect_loop mode hB rest (w.addRecord record) r' fuel' n 0 hw₁ (hL₁.trans hL) (hr₁ ▸ hsmall)
        hF hat' hfuel' (by omega) (by split_ifs at hlen <;> simp at hlen <;> omega)
    by_cases hzeros : B ≤ w.dest.length + q.pad
    · -- the block starts after the zeros, at the record's first fragment
      have hBS : B = w.dest.length + q.pad := by
        rcases hpadal with h0 | hpadal
        · omega
        · unfold kBlockSize at *
          omega
      subst hBS
      have hlay' := hlay.unpadded (by have := headerSize_le w.recycleLogFiles; unfold kBlockSize; omega)
        hal
      have hdrop' : F.drop (w.dest.length + q.pad) =
          ((q.unpadded :: qs).map (·.bytes w)).flatten ++ more := by
        rw [← List.drop_drop, hdrop, bytes_unpadded w q qs, List.append_assoc, List.drop_left']
        simp
      have hlen' : w.dest.length + q.pad + ((q.unpadded :: qs).map (·.bytes w)).flatten.length =
          (w.addRecord record).dest.length := by
        rw [hT₁, bytes_unpadded w q qs]
        simp [Nat.add_assoc]
      by_cases hS : o ≤ w.dest.length + q.pad
      · obtain ⟨r', hr', hat'⟩ := readRecordLoop_record mode w hL hsmall q.unpadded qs _ r fuel 0
          more ⟨hchain₀, hchain'⟩ hpads hlay' hdrop' (by simpa [PhysicalRecord.unpadded] using hS) h
          hfuel
        -- `LastRecordOffset()` is the block start: the zeros before it were not read
        have hx : (if q.unpadded.pad < kHeaderSize then w.dest.length + q.pad
            else w.dest.length + q.pad + q.unpadded.pad) =
            if q.pad < kHeaderSize ∧ w.dest.length + q.pad ≤ w.dest.length then w.dest.length
            else w.dest.length + q.pad := by
          simp [PhysicalRecord.unpadded, kHeaderSize]
        have hpay' : ((q.unpadded :: qs).map (·.payload)).flatten = record := hpay
        simp only [if_pos hS, List.length_cons, List.singleton_append] at hlen
        rw [hr', if_pos hS, hpay', List.singleton_append, hx]
        refine collect_some mode (hat'.of_eq hlen') record (by rw [if_neg (by omega)]; exact hS) n _
          (by omega) ?_
        intro fuel' m hfuel' hlen''
        exact collect_loop mode hB rest (w.addRecord record) _ fuel' m 0 hw₁ (hL₁.trans hL)
          (hr₁ ▸ hsmall) hF ((hat'.of_eq hlen').setLastRecordOffset _) hfuel' (by omega) hlen''
      · obtain ⟨r', fuel', hr', hat', hfuel'⟩ := readRecordLoop_skipRecord mode w hL hsmall q.unpadded
          qs _ r fuel 0 more ⟨hchain₀, hchain'⟩ hpads hlay' hdrop'
          (by simp [PhysicalRecord.unpadded]; omega) h hfuel
        rw [hr', if_neg hS, List.nil_append]
        exact hrest r' fuel' (hat'.of_eq hlen') (by rw [← hlen']; exact hfuel')
    · -- the block starts between two fragments of the record: the rest are orphans
      have hS : ¬ o ≤ w.dest.length + q.pad := by
        have := lt_initialOffset hB hframe (by omega)
        omega
      rw [if_neg hS, List.nil_append]
      have hP₁ : w.dest.length + q.pad + headerSize w.recycleLogFiles + q.payload.length ≤ B := by
        unfold kBlockSize at *
        omega
      have hdrop₁ : F.drop (w.dest.length + q.pad + headerSize w.recycleLogFiles + q.payload.length) =
          (qs.map (·.bytes w)).flatten ++ more := by
        have hqb : (q.bytes w).length = q.pad + (headerSize w.recycleLogFiles + q.payload.length) := by
          rw [PhysicalRecord.bytes_eq, hchain₀]
          simp [Writer.header_fragmentType_length]
        rw [Nat.add_assoc, Nat.add_assoc, ← hqb, ← List.drop_drop, hdrop, List.map_cons,
          List.flatten_cons, List.append_assoc, List.drop_left]
      obtain ⟨post, hc, hp, hl, hd, hpost⟩ := Layout.split_at_boundary w hal qs _ more hchain' hpads
        htail hdrop₁ hP₁ (by omega)
      obtain ⟨r', fuel', hr', hat', hfuel'⟩ := readRecordLoop_skipTail mode w hL hsmall post B r fuel
        [] 0 more hc hp hl hd h hfuel
      rw [hr']
      exact hrest r' fuel' (hat'.of_eq (by omega)) (by omega)

include hB in
/-- Records that end before the reader's first block are not read back. -/
theorem readBack_eq_nil (records : List (List UInt8)) :
    ∀ w : Writer, w.Inv → (records.foldl Writer.addRecord w).dest.length ≤ B →
      w.readBack o B records = [] := by
  induction records with
  | nil => intro w _ _; rfl
  | cons record rest ih =>
    intro w hw hend
    obtain ⟨q, qs, hdest, -, hlay, hchain, -, hpad, hw₁⟩ := Writer.addRecord_physicalRecords hw record
    obtain ⟨more, hmore⟩ := Writer.foldl_addRecord_dest rest (w.addRecord record)
    rw [List.foldl_cons, hmore, List.length_append] at hend
    have hq : w.dest.length + q.pad + headerSize w.recycleLogFiles ≤ (w.addRecord record).dest.length := by
      rw [hdest, List.length_append, List.map_cons, List.flatten_cons, List.length_append,
        PhysicalRecord.bytes_eq, hchain.1]
      simp [Writer.header_fragmentType_length]
      omega
    have hhs7 : kHeaderSize ≤ headerSize w.recycleLogFiles := by
      cases w.recycleLogFiles <;> decide
    have hhs := headerSize_pos w.recycleLogFiles
    have hfit : (w.dest.length + q.pad) % kBlockSize + headerSize w.recycleLogFiles ≤ kBlockSize := by
      cases hlay with
      | cons _ hfit _ => omega
    have hS := lt_initialOffset hB (s := w.dest.length + q.pad) (by omega) (by omega)
    rw [Writer.readBack_cons, ← hpad, if_neg (by omega), List.nil_append]
    exact ih _ hw₁ (by rw [hmore, List.length_append]; omega)

end Run

end Reader

namespace Reader

/-- From offset `0` nothing is skipped: the reader starts at the beginning of the
file, which is the first record's start. -/
theorem readRecords_from_start (logNumber : UInt64) (recycle : Bool)
    (records : List (List UInt8)) (checksum : Bool) (mode : WALRecoveryMode)
    (hsmall : recycle = true → logNumber.toNat < 2 ^ 32) (n : Nat)
    (hlen : ((Writer.create logNumber recycle).readBack 0 0 records).length ≤ n + 1) :
    readRecords mode (n + 1) (create (writeRecords logNumber recycle records) checksum 0 logNumber) =
      (Writer.create logNumber recycle).readBack 0 0 records := by
  have hB : (0 % kBlockSize > kBlockSize - 6 ∧ 0 = 0 - 0 % kBlockSize + kBlockSize) ∨
      (0 % kBlockSize ≤ kBlockSize - 6 ∧ 0 = 0 - 0 % kBlockSize) := by
    unfold kBlockSize
    omega
  rw [readRecords_succ, readRecord, if_neg (by simp [create])]
  exact collect_loop mode hB records _ _ _ n 0 (Writer.create_inv logNumber recycle) rfl hsmall rfl
    (create_at _ checksum 0 logNumber) (by simp only [create, writeRecords]; omega) le_rfl hlen

end Reader

/-- A reader created with any initial offset on a file of `AddRecord` calls
returns, call after call, the records whose first physical record begins at or
after the offset, in order, and then `false`. After each, `LastRecordOffset()` is
that record's offset, except when zeros too few for a header close the block
before it and the reader read that block: it is then where the zeros begin. -/
theorem log_reader_reads_from_initialOffset (logNumber : UInt64) (recycle : Bool)
    (records : List (List UInt8)) (checksum : Bool) (initialOffset : Nat) (mode : WALRecoveryMode)
    (hsmall : recycle = true → logNumber.toNat < 2 ^ 32) (fuel : Nat) (hfuel : records.length < fuel) :
    Reader.readRecords mode fuel
        (Reader.create (writeRecords logNumber recycle records) checksum initialOffset logNumber) =
      (Writer.create logNumber recycle).readBack initialOffset
        (Reader.create (writeRecords logNumber recycle records) checksum initialOffset
          logNumber).skipToInitialBlock.endOfBufferOffset records := by
  set F := writeRecords logNumber recycle records
  have hB := Reader.skipToInitialBlock_endOfBufferOffset (Reader.create F checksum initialOffset logNumber)
  have hat := Reader.skipToInitialBlock_at F checksum initialOffset logNumber
  generalize hBdef : (Reader.create F checksum initialOffset logNumber).skipToInitialBlock.endOfBufferOffset = B
    at hB hat ⊢
  simp only [Reader.create] at hB
  have hw := Writer.create_inv logNumber recycle
  have hrun : F = (records.foldl Writer.addRecord (Writer.create logNumber recycle)).dest := rfl
  obtain ⟨n, rfl⟩ : ∃ n, fuel = n + 1 := ⟨fuel - 1, by omega⟩
  have hlen : ((Writer.create logNumber recycle).readBack initialOffset B records).length ≤ n + 1 := by
    unfold Writer.readBack
    rw [List.length_map]
    exact (List.length_filter_le _ _).trans (by simp; omega)
  have hal : B % kBlockSize = 0 := by
    unfold kBlockSize at *
    rcases hB with ⟨-, h⟩ | ⟨-, h⟩ <;> rw [h] <;> omega
  by_cases ho : initialOffset = 0
  · subst ho
    have hB0 : B = 0 := by
      unfold kBlockSize at hB
      omega
    subst hB0
    exact Reader.readRecords_from_start logNumber recycle records checksum mode hsmall n hlen
  rw [Reader.readRecords_succ, Reader.readRecord, if_pos (by simp [Reader.create]; omega)]
  by_cases hBF : B ≤ F.length
  · -- the reader starts at the block it skipped to
    have hat' := hat hal hBF
    exact Reader.collect_start mode hB records _ _ _ n hw rfl hsmall hrun (Nat.zero_le _) hat'
      (by rw [hat'.unread_length]; omega) hal hlen
  · -- the block skipped to is past the end of the file
    have hfile : (Reader.create F checksum initialOffset logNumber).skipToInitialBlock.file = [] := by
      simp only [Reader.skipToInitialBlock, Reader.create]
      exact List.drop_eq_nil_of_le (by simp only [Reader.skipToInitialBlock, Reader.create] at hBdef; omega)
    rw [hfile, Reader.collect_of_none mode n (Reader.readRecordLoop_eof mode _ _ [] [] 0 0
      (Reader.readPhysicalRecord_eof _ _ hfile (by simp [Reader.skipToInitialBlock, Reader.create])))]
    exact (Reader.readBack_eq_nil hB records _ hw (by rw [← hrun]; omega)).symm

theorem log_reader_reads_from_initialOffset_sample :
    (false = true → (7 : UInt64).toNat < 2 ^ 32) ∧ [[(1 : UInt8), 2, 3]].length < 2 ∧
      Reader.readRecords .tolerateCorruptedTailRecords 2
          (Reader.create (writeRecords 7 false [[1, 2, 3]]) true 5 7) =
        (Writer.create 7 false).readBack 5
          (Reader.create (writeRecords 7 false [[1, 2, 3]]) true 5 7).skipToInitialBlock.endOfBufferOffset
          [[1, 2, 3]] :=
  ⟨by decide, by decide,
    log_reader_reads_from_initialOffset 7 false [[1, 2, 3]] true 5 _ (by decide) 2 (by decide)⟩

namespace Writer

/-- A record that fits in what is left of the block, its header included, is one
`FULL` fragment written in place. -/
theorem addRecord_of_fits (w : Writer) (record : List UInt8)
    (hfit : headerSize w.recycleLogFiles + record.length ≤ kBlockSize - w.blockOffset) :
    (w.addRecord record).dest.length =
        w.dest.length + headerSize w.recycleLogFiles + record.length ∧
      (w.addRecord record).blockOffset =
        w.blockOffset + headerSize w.recycleLogFiles + record.length := by
  have hswitch : w.switchBlock = w := by
    rw [switchBlock, if_neg (by omega)]
  have hfrag : w.fragmentLength record = record.length := by
    rw [fragmentLength, hswitch]
    omega
  rw [addRecord, addRecordLoop_succ]
  simp only [hfrag, hswitch, List.drop_length, List.length_nil, gt_iff_lt, Nat.lt_irrefl,
    if_false, List.take_length]
  refine ⟨?_, ?_⟩
  · rw [emitPhysicalRecord_dest, List.length_append, List.length_append,
      header_fragmentType_length, Nat.add_assoc]
  · simp only [emitPhysicalRecord, header_fragmentType_length]

/-- A first record of `32755` bytes leaves six bytes of the first block, too few
for a header: the next record's first header is at `32768`. -/
theorem create_addRecord_32755 (R : List UInt8) (hR : R.length = 32755) :
    ((create 0 false).addRecord R).dest.length = 32762 ∧
      ((create 0 false).addRecord R).padOf = 6 := by
  have hhs : headerSize (create 0 false).recycleLogFiles = 7 := rfl
  have h₀ : (create 0 false).dest.length = 0 ∧ (create 0 false).blockOffset = 0 := ⟨rfl, rfl⟩
  obtain ⟨hlen, hoff⟩ := addRecord_of_fits (create 0 false) R
    (by rw [hhs, hR, h₀.2]; decide)
  rw [hhs, hR, h₀.1] at hlen
  rw [hhs, hR, h₀.2] at hoff
  refine ⟨hlen, ?_⟩
  rw [padOf, hoff, (addRecord_frame _ _).2]
  decide

end Writer

/-- Two records, the first `32755` bytes long: the second record's first
header is at `32768`, after six zeros, but the reader, which read the first
block with those zeros in it, reports `32762` as its `LastRecordOffset()`. -/
theorem log_reader_lastRecordOffset_at_trailer :
    (Writer.create 0 false).recordStarts [List.replicate 32755 1, [2]] = [(0, 0), (32762, 32768)] ∧
      Reader.readRecords .tolerateCorruptedTailRecords 3
          (Reader.create (writeRecords 0 false [List.replicate 32755 1, [2]]) true 0 0) =
        [(List.replicate 32755 1, 0), ([2], 32762)] := by
  have hR : (List.replicate 32755 (1 : UInt8)).length = 32755 := List.length_replicate
  generalize List.replicate 32755 (1 : UInt8) = R at hR ⊢
  obtain ⟨hlen, hpad⟩ := Writer.create_addRecord_32755 R hR
  have h₀ : (Writer.create 0 false).dest.length = 0 ∧ (Writer.create 0 false).padOf = 0 := ⟨rfl, rfl⟩
  refine ⟨?_, ?_⟩
  · simp only [Writer.recordStarts, hlen, hpad, h₀]
  · rw [Reader.readRecords_from_start 0 false _ true _ (by decide) 2
      (by simp only [Writer.readBack_cons, hlen, hpad, h₀]; simp [Writer.readBack])]
    simp only [Writer.readBack_cons, hlen, hpad, h₀]
    simp [Writer.readBack, kHeaderSize]

end Log
end RocksDB
