import Mathlib
import RocksDB.Db.Log

/-!
# Recyclable logs with a log number of 33 bits or more

In the recyclable format the writer stores only the low 32 bits of its log
number in each header, while the reader compares that `uint32_t` field with its
own 64-bit log number. With a log number of `2 ^ 32` or more the two never agree:
the reader takes the very first header of the file for a record of an older
incarnation of the log and reports the end of the log before any record.

`Log.Writer.addRecordLoop_dest` says that the writer only appends;
`Log.Writer.create_addRecord_startsWith` gives the first header of a recyclable
log; `Log.Reader.create_readRecord_old` is the reader's side.
-/

namespace RocksDB

namespace Log

/-- A file whose first header is a recyclable `FULL` or `FIRST` header with the
log-number field `n`. -/
def StartsWithRecyclableHeader (file : List UInt8) (n : UInt32) : Prop :=
  ∃ pre t rest, pre.length = 6 ∧ (t = kRecyclableFullType ∨ t = kRecyclableFirstType) ∧
    file = pre ++ UInt8.ofNat t :: (encodeFixed32 n ++ rest)

theorem StartsWithRecyclableHeader.append {file : List UInt8} {n : UInt32}
    (h : StartsWithRecyclableHeader file n) (more : List UInt8) :
    StartsWithRecyclableHeader (file ++ more) n := by
  obtain ⟨pre, t, rest, hpre, ht, rfl⟩ := h
  exact ⟨pre, t, rest ++ more, hpre, ht, by simp⟩

namespace Writer

theorem emitPhysicalRecord_dest (w : Writer) (t : Nat) (payload : List UInt8) :
    (w.emitPhysicalRecord t payload).dest = w.dest ++ (w.header t payload ++ payload) := by
  simp [emitPhysicalRecord]

/-- The writer only appends to its file. The induction is on the fuel, one
fragment per step. -/
theorem addRecordLoop_dest (fuel : Nat) :
    ∀ (w : Writer) (left : List UInt8) (isBegin : Bool),
      ∃ more, (w.addRecordLoop fuel left isBegin).dest = w.dest ++ more := by
  induction fuel with
  | zero => exact fun w _ _ => ⟨[], by simp [addRecordLoop]⟩
  | succ fuel ih =>
    intro w left isBegin
    -- the trailer, if any, then the fragment, then the rest of the loop
    let headerSize := if w.recycleLogFiles then kRecyclableHeaderSize else kHeaderSize
    let w₁ : Writer := if kBlockSize - w.blockOffset < headerSize then
        { w with dest := w.dest ++ List.replicate (kBlockSize - w.blockOffset) 0,
                 blockOffset := 0 }
      else w
    have h₁ : ∃ pad, w₁.dest = w.dest ++ pad := by
      by_cases h : kBlockSize - w.blockOffset < headerSize
      · exact ⟨List.replicate (kBlockSize - w.blockOffset) 0, by simp [w₁, h]⟩
      · exact ⟨[], by simp [w₁, h]⟩
    obtain ⟨pad, hpad⟩ := h₁
    let n := min left.length (kBlockSize - w₁.blockOffset - headerSize)
    let w₂ := w₁.emitPhysicalRecord
      (fragmentType w₁.recycleLogFiles isBegin (left.length = n)) (left.take n)
    have hstep : w.addRecordLoop (fuel + 1) left isBegin =
        if (left.drop n).length > 0 then w₂.addRecordLoop fuel (left.drop n) false else w₂ := by
      simp only [addRecordLoop, w₂, n, w₁, headerSize]
    rw [hstep]
    obtain ⟨frag, hw₂⟩ : ∃ frag, w₂.dest = w.dest ++ frag :=
      ⟨_, by rw [emitPhysicalRecord_dest, hpad, List.append_assoc]⟩
    split
    · obtain ⟨more, hmore⟩ := ih w₂ (left.drop n) false
      exact ⟨_, by rw [hmore, hw₂, List.append_assoc]⟩
    · exact ⟨_, hw₂⟩

theorem foldl_addRecord_dest (records : List (List UInt8)) :
    ∀ w : Writer, ∃ more, (records.foldl addRecord w).dest = w.dest ++ more := by
  induction records with
  | nil => exact fun w => ⟨[], by simp⟩
  | cons p records ih =>
    intro w
    obtain ⟨more₁, h₁⟩ := addRecordLoop_dest (2 * p.length + 2) w p true
    obtain ⟨more₂, h₂⟩ := ih (w.addRecord p)
    exact ⟨more₁ ++ more₂, by rw [List.foldl_cons, h₂, addRecord, h₁, List.append_assoc]⟩

/-- The first fragment of the first record of a fresh recyclable writer starts
the file with a `FULL` or `FIRST` header holding the low 32 bits of the log
number. -/
theorem create_addRecord_startsWith (logNumber : UInt64) (p : List UInt8) :
    StartsWithRecyclableHeader ((create logNumber true).addRecord p).dest
      logNumber.toUInt32 := by
  -- the block is empty: no trailer, and the fragment begins the record
  let n := min p.length (kBlockSize - 0 - kRecyclableHeaderSize)
  let t := fragmentType true true (p.length = n)
  let w₂ := (create logNumber true).emitPhysicalRecord t (p.take n)
  have ht : t = kRecyclableFullType ∨ t = kRecyclableFirstType := by
    by_cases h : p.length = n <;> simp [t, fragmentType, h]
  have hstep : (create logNumber true).addRecord p =
      if (p.drop n).length > 0 then w₂.addRecordLoop (2 * p.length + 1) (p.drop n) false
      else w₂ := by
    simp [addRecord, addRecordLoop, create, w₂, t, n, kBlockSize, kRecyclableHeaderSize]
  have hlog : ¬ t < kRecyclableFullType := by
    rcases ht with h | h <;> simp [h, kRecyclableFullType, kRecyclableFirstType]
  obtain ⟨more, hmore⟩ : ∃ more, ((create logNumber true).addRecord p).dest = w₂.dest ++ more := by
    rw [hstep]
    split
    · exact addRecordLoop_dest _ w₂ _ false
    · exact ⟨[], by simp⟩
  obtain ⟨c0, c1, c2, c3, hcrc⟩ : ∃ c0 c1 c2 c3 : UInt8,
      encodeFixed32 (Crc32c.mask (Crc32c.extend (Crc32c.extend (Crc32c.value [UInt8.ofNat t])
        (encodeFixed32 logNumber.toUInt32)) (p.take n))) = [c0, c1, c2, c3] :=
    ⟨_, _, _, _, rfl⟩
  refine ⟨[c0, c1, c2, c3, UInt8.ofNat ((p.take n).length % 256),
    UInt8.ofNat ((p.take n).length / 256)], t, p.take n ++ more, rfl, ht, ?_⟩
  rw [hmore, emitPhysicalRecord_dest]
  simp [create, header, hlog, hcrc]

end Writer

namespace Reader

/-- `ReadMore` on a fresh reader buffers the first block of the file. -/
theorem create_readMore (file : List UInt8) (checksum : Bool) (logNumber : UInt64) :
    (create file checksum 0 logNumber).readMore.2 = none ∧
      (create file checksum 0 logNumber).readMore.1.buffer = file.take kBlockSize ∧
      (create file checksum 0 logNumber).readMore.1.logNumber = logNumber ∧
      (create file checksum 0 logNumber).readMore.1.reports = [] := by
  by_cases h : file.length < kBlockSize <;> simp [readMore, create, h]

/-- A buffered recyclable header whose log-number field is not the reader's log
number: `ReadPhysicalRecord` returns `kOldRecord` and reports nothing. -/
theorem readPhysicalRecord_oldHeader (fuel : Nat) (r : Reader)
    (hrec : kRecyclableFullType ≤ headerType r.buffer ∧ headerType r.buffer ≤ kRecyclableLastType)
    (hlen : kRecyclableHeaderSize ≤ r.buffer.length)
    (hn : (decodeFixed32 (r.buffer.drop 7)).toNat ≠ r.logNumber.toNat) :
    (readPhysicalRecord (fuel + 1) r).1.code = kOldRecord ∧
      (readPhysicalRecord (fuel + 1) r).2.reports = r.reports := by
  have hshort : ¬ r.buffer.length < kHeaderSize := by
    simp only [kRecyclableHeaderSize, kHeaderSize] at hlen ⊢
    omega
  have hlarge : ¬ r.buffer.length < kRecyclableHeaderSize := Nat.not_lt.mpr hlen
  -- marking the reader as recycled changes neither the buffer nor the log number
  by_cases hstart : r.endOfBufferOffset - r.buffer.length = 0
  · simp [readPhysicalRecord, hshort, hrec, hstart, hlarge, hn]
  · simp [readPhysicalRecord, hshort, hrec, hstart, hlarge, hn]

/-- The first call of `ReadPhysicalRecord` on a file that starts with a
recyclable header whose log-number field differs from the reader's. -/
theorem create_readPhysicalRecord_old (file : List UInt8) (checksum : Bool)
    (logNumber : UInt64) (n : UInt32) (hfile : StartsWithRecyclableHeader file n)
    (hn : n.toNat ≠ logNumber.toNat) (fuel : Nat) (hfuel : 2 ≤ fuel) :
    (readPhysicalRecord fuel (create file checksum 0 logNumber)).1.code = kOldRecord ∧
      (readPhysicalRecord fuel (create file checksum 0 logNumber)).2.reports = [] := by
  obtain ⟨fuel, rfl⟩ : ∃ k, fuel = k + 2 := ⟨fuel - 2, by omega⟩
  obtain ⟨hnone, hbuf, hlog, hrep⟩ := create_readMore file checksum logNumber
  set r := (create file checksum 0 logNumber).readMore.1
  -- the buffer is empty, so the first step reads a block
  have hfirst : readPhysicalRecord (fuel + 2) (create file checksum 0 logNumber) =
      readPhysicalRecord (fuel + 1) r := by
    have hmore : (create file checksum 0 logNumber).readMore = (r, none) := Prod.ext rfl hnone
    have hempty : (create file checksum 0 logNumber).buffer.length < kHeaderSize := by
      simp [create, kHeaderSize]
    rw [readPhysicalRecord, if_pos hempty, hmore]
  obtain ⟨pre, t, rest, hpre, ht, rfl⟩ := hfile
  -- the first block holds the whole header
  have hblock : r.buffer = pre ++ UInt8.ofNat t :: (encodeFixed32 n ++ rest.take (kBlockSize - 11)) := by
    rw [hbuf]
    simp [List.take_append, hpre, kBlockSize, List.take_of_length_le]
  have htype : headerType r.buffer = t := by
    have h6 : r.buffer.getD 6 0 = UInt8.ofNat t := by
      simp [hblock, List.getD_eq_getElem?_getD, hpre]
    rw [headerType, h6]
    rcases ht with rfl | rfl <;> rfl
  have hfield : decodeFixed32 (r.buffer.drop 7) = n := by
    rw [hblock, show pre ++ UInt8.ofNat t :: (encodeFixed32 n ++ rest.take (kBlockSize - 11)) =
      (pre ++ [UInt8.ofNat t]) ++ (encodeFixed32 n ++ rest.take (kBlockSize - 11)) by simp,
      List.drop_left' (by simp [hpre]), decodeFixed32_encode]
  have hrecyclable : kRecyclableFullType ≤ headerType r.buffer ∧
      headerType r.buffer ≤ kRecyclableLastType := by
    rw [htype]
    rcases ht with rfl | rfl <;> decide
  have hlen : kRecyclableHeaderSize ≤ r.buffer.length := by
    simp only [hblock, List.length_append, List.length_cons, encodeFixed32_length, hpre,
      kRecyclableHeaderSize]
    omega
  rw [hfirst, ← hrep]
  exact readPhysicalRecord_oldHeader fuel r hrecyclable hlen (by rw [hfield, hlog]; exact hn)

/-- On such a file, in every recovery mode but `kSkipAnyCorruptedRecords`, the
first `ReadRecord` returns `false` and reports nothing. -/
theorem create_readRecord_old (file : List UInt8) (checksum : Bool) (logNumber : UInt64)
    (n : UInt32) (hfile : StartsWithRecyclableHeader file n) (hn : n.toNat ≠ logNumber.toNat)
    (mode : WALRecoveryMode) (hmode : mode ≠ .skipAnyCorruptedRecords) :
    ((create file checksum 0 logNumber).readRecord mode).1 = none ∧
      ((create file checksum 0 logNumber).readRecord mode).2.reports = [] := by
  obtain ⟨hcode, hrep⟩ := create_readPhysicalRecord_old file checksum logNumber n hfile hn
    (file.length + 3) (by omega)
  have hloop : (create file checksum 0 logNumber).readRecord mode =
      readRecordLoop mode (file.length + 1) (create file checksum 0 logNumber) false [] 0 := by
    simp [readRecord, create]
  have hfile' : (create file checksum 0 logNumber).file = file := rfl
  rw [hloop, readRecordLoop, hfile']
  generalize readPhysicalRecord (file.length + 3) (create file checksum 0 logNumber) = res
    at hcode hrep ⊢
  obtain ⟨rec, r⟩ := res
  -- `kOldRecord` is none of the record types nor `kEof` or `kBadHeader`
  simp only at hcode hrep
  simp [hcode, hrep, hmode, kOldRecord, kFullType, kFirstType, kMiddleType, kLastType,
    kRecyclableFullType, kRecyclableFirstType, kRecyclableMiddleType, kRecyclableLastType,
    kMaxRecordType, kBadHeader, kEof]

end Reader

theorem log_recyclable_large_logNumber_reads_nothing (logNumber : UInt64)
    (records : List (List UInt8)) (hlarge : 2 ^ 32 ≤ logNumber.toNat) (hrecords : records ≠ [])
    (mode : WALRecoveryMode) (hmode : mode ≠ .skipAnyCorruptedRecords) :
    ((Reader.create (writeRecords logNumber true records) true 0 logNumber).readRecord mode).1 =
        none ∧
      ((Reader.create (writeRecords logNumber true records) true 0 logNumber).readRecord
        mode).2.reports = [] := by
  obtain ⟨p, ps, rfl⟩ := List.exists_cons_of_ne_nil hrecords
  -- the first record's first header carries the log number cut to 32 bits
  have hstart : StartsWithRecyclableHeader (writeRecords logNumber true (p :: ps))
      logNumber.toUInt32 := by
    obtain ⟨more, hmore⟩ := Writer.foldl_addRecord_dest ps ((Writer.create logNumber true).addRecord p)
    rw [writeRecords, List.foldl_cons, hmore]
    exact (Writer.create_addRecord_startsWith logNumber p).append more
  have hn : logNumber.toUInt32.toNat ≠ logNumber.toNat := by
    have hlt : logNumber.toUInt32.toNat < 2 ^ 32 := UInt32.toNat_lt _
    omega
  exact Reader.create_readRecord_old _ true logNumber _ hstart hn mode hmode

/-- The record `a` written with log number `2 ^ 32` is not read back. -/
theorem log_recyclable_logNumber_two_pow_32 :
    2 ^ 32 ≤ (2 ^ 32 : UInt64).toNat ∧ [[(97 : UInt8)]] ≠ [] ∧
      WALRecoveryMode.tolerateCorruptedTailRecords ≠ .skipAnyCorruptedRecords ∧
      ((Reader.create (writeRecords (2 ^ 32) true [[97]]) true 0 (2 ^ 32)).readRecord
          .tolerateCorruptedTailRecords).1 = none ∧
        ((Reader.create (writeRecords (2 ^ 32) true [[97]]) true 0 (2 ^ 32)).readRecord
          .tolerateCorruptedTailRecords).2.reports = [] :=
  ⟨by decide, by decide, by decide,
    log_recyclable_large_logNumber_reads_nothing (2 ^ 32) [[97]] (by decide) (by decide)
      .tolerateCorruptedTailRecords (by decide)⟩

end Log

end RocksDB
