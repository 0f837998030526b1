import Mathlib
import RocksDB.Db.WriteBatch

/-!
# `table/format.h`, `table/format.cc`: block handles and the table footer

A table file ends with a footer: the handles (offset and size) of the
metaindex and index blocks, padded to a fixed width, and the table's magic
number as two fixed32 words. The legacy layout (magic numbers of the old block
based and plain tables) has no checksum byte and no version; the newer one
starts with the checksum type and puts a fixed32 version before the magic.

`Footer::DecodeFrom` reads from the end: the magic decides the layout, a
legacy magic is replaced by its new value, and the handles are read from the
start of the fixed-width window, so whatever precedes the footer is ignored.

Magic numbers are those of a build with the plain table (not `ROCKSDB_LITE`).
-/

namespace RocksDB

def kMagicNumberLengthByte : Nat := 8

def kBlockBasedTableMagicNumber : UInt64 := 0x88e241b785f4cff7

def kLegacyBlockBasedTableMagicNumber : UInt64 := 0xdb4775248b80fb57

def kPlainTableMagicNumber : UInt64 := 0x8242229663bf9564

def kLegacyPlainTableMagicNumber : UInt64 := 0x4f3418eb7a8f13b8

/-- `ChecksumType` is an enumeration over `char`: a footer may carry any byte.
These are its named values. -/
def kNoChecksum : UInt8 := 0

def kCRC32c : UInt8 := 1

def kxxHash : UInt8 := 2

/-- `BlockHandle`: where a block sits in the file. -/
structure BlockHandle where
  offset : UInt64
  size : UInt64
  deriving DecidableEq, Repr

namespace BlockHandle

def kMaxEncodedLength : Nat := 10 + 10

def encodeTo (h : BlockHandle) (dst : List UInt8) : List UInt8 :=
  putVarint64Varint64 dst h.offset h.size

/-- `BlockHandle::DecodeFrom`: two varint64s, advancing the input. -/
def decodeFrom (input : List UInt8) : Except Status (BlockHandle × List UInt8) :=
  match getVarint64 input with
  | some (offset, input) =>
    match getVarint64 input with
    | some (size, input) => .ok (⟨offset, size⟩, input)
    | none => .error (.corruption "bad block handle")
  | none => .error (.corruption "bad block handle")

theorem encodeTo_eq (h : BlockHandle) (dst : List UInt8) :
    h.encodeTo dst = dst ++ h.encodeTo [] := by
  simp [encodeTo, putVarint64Varint64]

/-- Two varints of at most ten bytes each. -/
theorem length_encodeTo_le (h : BlockHandle) : (h.encodeTo []).length ≤ kMaxEncodedLength := by
  have h1 := encodeVarint64_length_le h.offset
  have h2 := encodeVarint64_length_le h.size
  simp only [encodeTo, putVarint64Varint64, List.nil_append, List.length_append]
  unfold kMaxEncodedLength
  omega

theorem decodeFrom_encodeTo (h : BlockHandle) (rest : List UInt8) :
    decodeFrom (h.encodeTo [] ++ rest) = .ok (h, rest) := by
  simp only [encodeTo, putVarint64Varint64, List.nil_append, List.append_assoc, decodeFrom,
    getVarint64_encode]

end BlockHandle

/-- `Footer`: `version_`, `checksum_`, the two handles and the magic number. -/
structure Footer where
  version : UInt32
  checksum : UInt8
  metaindexHandle : BlockHandle
  indexHandle : BlockHandle
  tableMagicNumber : UInt64
  deriving DecidableEq, Repr

namespace Footer

def kVersion0EncodedLength : Nat := 2 * BlockHandle.kMaxEncodedLength + 8

def kNewVersionsEncodedLength : Nat := 1 + 2 * BlockHandle.kMaxEncodedLength + 4 + 8

def kMinEncodedLength : Nat := kVersion0EncodedLength

def isLegacyFooterFormat (magicNumber : UInt64) : Bool :=
  magicNumber == kLegacyBlockBasedTableMagicNumber || magicNumber == kLegacyPlainTableMagicNumber

/-- `UpconvertLegacyFooterFormat`; any other magic fails its assertion and gives 0. -/
def upconvertLegacyFooterFormat (magicNumber : UInt64) : UInt64 :=
  if magicNumber == kLegacyBlockBasedTableMagicNumber then kBlockBasedTableMagicNumber
  else if magicNumber == kLegacyPlainTableMagicNumber then kPlainTableMagicNumber
  else 0

/-- `Footer::EncodeTo`: the handles padded by `resize` to their fixed width,
after the checksum byte in the newer layout, then the version in the newer
layout, then the magic number low word first. -/
def encodeTo (f : Footer) (dst : List UInt8) : List UInt8 :=
  let originalSize := dst.length
  let magicLo := (f.tableMagicNumber &&& 0xffffffff).toUInt32
  let magicHi := (f.tableMagicNumber >>> 32).toUInt32
  if isLegacyFooterFormat f.tableMagicNumber then
    let dst := f.indexHandle.encodeTo (f.metaindexHandle.encodeTo dst)
    let dst := stringResize dst (originalSize + 2 * BlockHandle.kMaxEncodedLength)
    putFixed32 (putFixed32 dst magicLo) magicHi
  else
    let dst := dst ++ [f.checksum]
    let dst := f.indexHandle.encodeTo (f.metaindexHandle.encodeTo dst)
    let dst := stringResize dst (originalSize + kNewVersionsEncodedLength - 12)
    putFixed32 (putFixed32 (putFixed32 dst f.version) magicLo) magicHi

/-- `Footer::DecodeFrom` into a fresh footer. The caller guarantees at least
`kMinEncodedLength` bytes; on success the input is left empty. -/
def decodeFrom (input : List UInt8) : Except Status Footer := do
  let magicPtr := input.drop (input.length - kMagicNumberLengthByte)
  let magicLo := decodeFixed32 magicPtr
  let magicHi := decodeFixed32 (magicPtr.drop 4)
  let magic := (magicHi.toUInt64 <<< 32) ||| magicLo.toUInt64
  let legacy := isLegacyFooterFormat magic
  let magic := if legacy then upconvertLegacyFooterFormat magic else magic
  let (version, checksum, input) ←
    if legacy then
      pure (0, kCRC32c, input.drop (input.length - kVersion0EncodedLength))
    else do
      -- `DecodeFixed32(magic_ptr - 4)`
      let version := decodeFixed32 (input.drop (input.length - kMagicNumberLengthByte - 4))
      if input.length < kNewVersionsEncodedLength then
        throw (.corruption "input is too short to be an sstable")
      let input := input.drop (input.length - kNewVersionsEncodedLength)
      let some (chksum, input) := getVarint32 input
        | throw (.corruption "bad checksum type")
      pure (version, chksum.toUInt8, input)
  let (metaindexHandle, input) ← BlockHandle.decodeFrom input
  let (indexHandle, _) ← BlockHandle.decodeFrom input
  pure ⟨version, checksum, metaindexHandle, indexHandle, magic⟩

/-! ## The round trip -/

/-- The magic number's two words put back together. -/
theorem magic_words (m : UInt64) :
    ((m >>> 32).toUInt32.toUInt64 <<< 32) ||| (m &&& 0xffffffff).toUInt32.toUInt64 = m := by
  apply UInt64.toNat_inj.mp
  have hm := m.toNat_lt
  have hlow : m.toNat &&& 4294967295 = m.toNat % 2 ^ 32 := Nat.and_two_pow_sub_one_eq_mod _ 32
  simp only [UInt64.toNat_or, UInt64.toNat_shiftLeft, UInt32.toNat_toUInt64, UInt64.toNat_toUInt32,
    UInt64.toNat_shiftRight, UInt64.toNat_and, UInt64.reduceToNat, Nat.reduceMod, hlow,
    Nat.shiftRight_eq_div_pow, Nat.shiftLeft_eq]
  -- the high word shifted back is below `2 ^ 64`, and its bits miss the low word's
  rw [Nat.mod_eq_of_lt (a := m.toNat / 2 ^ 32) (by omega),
    Nat.mod_eq_of_lt (a := m.toNat % 2 ^ 32) (by omega),
    Nat.mod_eq_of_lt (a := m.toNat / 2 ^ 32 * 2 ^ 32) (by omega), Nat.or_comm,
    ByteCoding.Varint.or_mul_two_pow (by omega)]
  omega

theorem stringResize_of_le {s : List UInt8} {n : Nat} (h : s.length ≤ n) :
    stringResize s n = s ++ List.replicate (n - s.length) 0 := by
  rw [stringResize, List.take_of_length_le h]

/-- A byte below 128 is a one-byte varint32. -/
theorem getVarint32_byte {c : UInt8} (hc : c.toNat < 128) (rest : List UInt8) :
    getVarint32 (c :: rest) = some (UInt32.ofNat c.toNat, rest) := by
  have hbit : c.toNat &&& 128 = 0 := by
    rw [ByteCoding.Varint.and_128 _ c.toNat_lt]
    simp [Nat.div_eq_of_lt hc]
  simp [getVarint32, getVarint32Ptr, hbit]

/-- The bytes of the handles, padded to `n`. -/
def handlesPadded (f : Footer) (pre : List UInt8) (n : Nat) : List UInt8 :=
  let handles := pre ++ f.metaindexHandle.encodeTo [] ++ f.indexHandle.encodeTo []
  handles ++ List.replicate (n - handles.length) 0

theorem handlesPadded_length (f : Footer) {pre : List UInt8} {n : Nat}
    (h : pre.length + 2 * BlockHandle.kMaxEncodedLength ≤ n) :
    (f.handlesPadded pre n).length = n := by
  have h1 := f.metaindexHandle.length_encodeTo_le
  have h2 := f.indexHandle.length_encodeTo_le
  simp only [handlesPadded, List.length_append, List.length_replicate]
  omega

/-- The legacy width: the two longest handles fill the 40 bytes exactly. -/
theorem handlesPadded_legacy_length (f : Footer) :
    (f.handlesPadded [] (2 * BlockHandle.kMaxEncodedLength)).length =
      2 * BlockHandle.kMaxEncodedLength :=
  f.handlesPadded_length (by simp)

/-- The newer width: the checksum byte and the two longest handles fill the 41 bytes. -/
theorem handlesPadded_new_length (f : Footer) :
    (f.handlesPadded [f.checksum] (kNewVersionsEncodedLength - 12)).length =
      kNewVersionsEncodedLength - 12 :=
  f.handlesPadded_length (by simp [kNewVersionsEncodedLength])

/-- The legacy layout: the padded handles and the magic. -/
theorem encodeTo_legacy (f : Footer) (hl : isLegacyFooterFormat f.tableMagicNumber = true)
    (dst : List UInt8) :
    f.encodeTo dst = dst ++ (f.handlesPadded [] (2 * BlockHandle.kMaxEncodedLength) ++
      encodeFixed32 (f.tableMagicNumber &&& 0xffffffff).toUInt32 ++
      encodeFixed32 (f.tableMagicNumber >>> 32).toUInt32) := by
  have h1 := f.metaindexHandle.length_encodeTo_le
  have h2 := f.indexHandle.length_encodeTo_le
  rw [encodeTo, if_pos hl]
  dsimp only
  rw [BlockHandle.encodeTo_eq f.indexHandle, BlockHandle.encodeTo_eq f.metaindexHandle,
    stringResize_of_le (by simp; omega)]
  simp [handlesPadded, putFixed32]
  omega

/-- The newer layout: the checksum byte and the handles padded, the version
and the magic. -/
theorem encodeTo_new (f : Footer) (hl : isLegacyFooterFormat f.tableMagicNumber = false)
    (dst : List UInt8) :
    f.encodeTo dst = dst ++ (f.handlesPadded [f.checksum] (kNewVersionsEncodedLength - 12) ++
      encodeFixed32 f.version ++ encodeFixed32 (f.tableMagicNumber &&& 0xffffffff).toUInt32 ++
      encodeFixed32 (f.tableMagicNumber >>> 32).toUInt32) := by
  have h1 := f.metaindexHandle.length_encodeTo_le
  have h2 := f.indexHandle.length_encodeTo_le
  rw [encodeTo, if_neg (by simp [hl])]
  dsimp only
  rw [BlockHandle.encodeTo_eq f.indexHandle, BlockHandle.encodeTo_eq f.metaindexHandle,
    stringResize_of_le (by simp [kNewVersionsEncodedLength]; omega)]
  simp [handlesPadded, putFixed32, kNewVersionsEncodedLength]
  omega

/-- The magic number's words read back from the last eight bytes. -/
theorem magic_of_words (m : UInt64) (rest : List UInt8) :
    ((decodeFixed32 ((encodeFixed32 (m &&& 0xffffffff).toUInt32 ++
        encodeFixed32 (m >>> 32).toUInt32 ++ rest).drop 4)).toUInt64 <<< 32) |||
      (decodeFixed32 (encodeFixed32 (m &&& 0xffffffff).toUInt32 ++
        encodeFixed32 (m >>> 32).toUInt32 ++ rest)).toUInt64 = m := by
  rw [List.append_assoc, decodeFixed32_encode, List.drop_left' (encodeFixed32_length _),
    decodeFixed32_encode, magic_words]

/-- Whatever precedes a window of `n` bytes, dropping all but the last `n`
leaves the window. -/
theorem drop_to_window (pre window : List UInt8) {n : Nat} (hn : window.length = n) :
    (pre ++ window).drop ((pre ++ window).length - n) = window := by
  rw [List.length_append, hn, Nat.add_sub_cancel, List.drop_left]

theorem decodeFrom_legacy (f : Footer) (hl : isLegacyFooterFormat f.tableMagicNumber = true)
    (pre : List UInt8) :
    decodeFrom (pre ++ f.encodeTo []) =
      .ok ⟨0, kCRC32c, f.metaindexHandle, f.indexHandle,
        upconvertLegacyFooterFormat f.tableMagicNumber⟩ := by
  have hP := f.handlesPadded_legacy_length
  rw [encodeTo_legacy f hl, List.nil_append]
  generalize hlo : encodeFixed32 (f.tableMagicNumber &&& 0xffffffff).toUInt32 = lo
  generalize hhi : encodeFixed32 (f.tableMagicNumber >>> 32).toUInt32 = hi
  have hptr := drop_to_window (pre ++ f.handlesPadded [] (2 * BlockHandle.kMaxEncodedLength)) (lo ++ hi)
    (n := kMagicNumberLengthByte) (by rw [← hlo, ← hhi]; simp [kMagicNumberLengthByte])
  have hwin := drop_to_window pre (f.handlesPadded [] (2 * BlockHandle.kMaxEncodedLength) ++ lo ++ hi)
    (n := kVersion0EncodedLength) (by rw [← hlo, ← hhi]; simp [hP, kVersion0EncodedLength])
  have hmagic := magic_of_words f.tableMagicNumber []
  rw [hlo, hhi, List.append_nil] at hmagic
  simp only [List.append_assoc] at hptr hwin ⊢
  simp only [decodeFrom, hptr, hwin, hmagic, hl, if_true]
  -- the window starts with the two handles
  simp only [handlesPadded, List.nil_append, List.append_assoc, BlockHandle.decodeFrom_encodeTo,
    bind, Except.bind, pure, Except.pure]

/-- A checksum byte below 128 reads back through the varint32. -/
theorem toUInt8_ofNat_toNat {c : UInt8} : (UInt32.ofNat c.toNat).toUInt8 = c := by
  apply UInt8.toNat_inj.mp
  have hc := c.toNat_lt
  simp only [UInt32.toNat_toUInt8, UInt32.toNat_ofNat']
  omega

theorem decodeFrom_new (f : Footer) (hl : isLegacyFooterFormat f.tableMagicNumber = false)
    (hc : f.checksum.toNat < 128) (pre : List UInt8) :
    decodeFrom (pre ++ f.encodeTo []) = .ok f := by
  have hP := f.handlesPadded_new_length
  rw [encodeTo_new f hl, List.nil_append]
  generalize hlo : encodeFixed32 (f.tableMagicNumber &&& 0xffffffff).toUInt32 = lo
  generalize hhi : encodeFixed32 (f.tableMagicNumber >>> 32).toUInt32 = hi
  have hlohi : lo.length + hi.length = 8 := by rw [← hlo, ← hhi]; simp
  have hk : 12 ≤ kNewVersionsEncodedLength := by simp [kNewVersionsEncodedLength]
  have hptr := drop_to_window
    (pre ++ f.handlesPadded [f.checksum] (kNewVersionsEncodedLength - 12) ++ encodeFixed32 f.version)
    (lo ++ hi) (n := kMagicNumberLengthByte) (by simp [hlohi, kMagicNumberLengthByte])
  have hver := drop_to_window (pre ++ f.handlesPadded [f.checksum] (kNewVersionsEncodedLength - 12))
    (encodeFixed32 f.version ++ lo ++ hi) (n := kMagicNumberLengthByte + 4)
    (by simp [hlohi, kMagicNumberLengthByte])
  have hwin := drop_to_window pre
    (f.handlesPadded [f.checksum] (kNewVersionsEncodedLength - 12) ++ encodeFixed32 f.version ++ lo ++ hi)
    (n := kNewVersionsEncodedLength)
    (by simp only [List.length_append, hP, encodeFixed32_length]; omega)
  have hlong : ¬(pre ++ (f.handlesPadded [f.checksum] (kNewVersionsEncodedLength - 12) ++
      (encodeFixed32 f.version ++ (lo ++ hi)))).length < kNewVersionsEncodedLength := by
    simp only [List.length_append, hP, encodeFixed32_length]; omega
  have hmagic := magic_of_words f.tableMagicNumber []
  rw [hlo, hhi, List.append_nil] at hmagic
  rw [← Nat.sub_sub] at hver
  simp only [List.append_assoc] at hptr hver hwin ⊢
  simp only [decodeFrom, hptr, hver, hwin, hmagic, hl, hlong, Bool.false_eq_true, if_false,
    decodeFixed32_encode]
  -- the window starts with the checksum byte and the two handles
  simp only [handlesPadded, List.cons_append, List.nil_append, List.append_assoc,
    getVarint32_byte hc, toUInt8_ofNat_toNat, BlockHandle.decodeFrom_encodeTo,
    bind, Except.bind, pure, Except.pure]

/-- The footer's width: 48 bytes in the legacy layout, 53 in the newer one. -/
def encodedLength (magicNumber : UInt64) : Nat :=
  if isLegacyFooterFormat magicNumber then kVersion0EncodedLength else kNewVersionsEncodedLength

/-- The footer `DecodeFrom` gives back for an encoded one: its magic upconverted. -/
def decoded (f : Footer) : Footer :=
  { f with tableMagicNumber :=
      if isLegacyFooterFormat f.tableMagicNumber then upconvertLegacyFooterFormat f.tableMagicNumber
      else f.tableMagicNumber }

theorem encodeTo_eq (f : Footer) (dst : List UInt8) : f.encodeTo dst = dst ++ f.encodeTo [] := by
  cases hl : isLegacyFooterFormat f.tableMagicNumber
  · rw [encodeTo_new f hl, encodeTo_new f hl, List.nil_append]
  · rw [encodeTo_legacy f hl, encodeTo_legacy f hl, List.nil_append]

theorem length_encodeTo (f : Footer) :
    (f.encodeTo []).length = encodedLength f.tableMagicNumber := by
  cases hl : isLegacyFooterFormat f.tableMagicNumber
  · have hP := f.handlesPadded_new_length
    have hk : 12 ≤ kNewVersionsEncodedLength := by simp [kNewVersionsEncodedLength]
    simp only [encodeTo_new f hl, encodedLength, hl, List.nil_append, List.length_append, hP,
      encodeFixed32_length, Bool.false_eq_true, if_false]
    omega
  · have hP := f.handlesPadded_legacy_length
    simp [encodeTo_legacy f hl, encodedLength, hl, hP, kVersion0EncodedLength]

theorem footer_roundTrip (f : Footer)
    (hlegacy : isLegacyFooterFormat f.tableMagicNumber = true →
      f.version = 0 ∧ f.checksum = kCRC32c)
    (hchecksum : isLegacyFooterFormat f.tableMagicNumber = false → f.checksum.toNat < 128)
    (dst pre : List UInt8) :
    f.encodeTo dst = dst ++ f.encodeTo [] ∧
      (f.encodeTo []).length = encodedLength f.tableMagicNumber ∧
      kMinEncodedLength ≤ (pre ++ f.encodeTo []).length ∧
      decodeFrom (pre ++ f.encodeTo []) = .ok f.decoded := by
  refine ⟨f.encodeTo_eq dst, f.length_encodeTo, ?_, ?_⟩
  · rw [List.length_append, length_encodeTo, encodedLength]
    split <;> simp only [kMinEncodedLength, kVersion0EncodedLength, kNewVersionsEncodedLength] <;>
      omega
  · cases hl : isLegacyFooterFormat f.tableMagicNumber
    · rw [decodeFrom_new f hl (hchecksum hl) pre]
      simp [decoded, hl]
    · obtain ⟨hv, hc⟩ := hlegacy hl
      rw [decodeFrom_legacy f hl pre]
      simp [decoded, hl, hv, hc]

theorem footer_roundTrip_sample :
    decodeFrom ([7, 7] ++ encodeTo ⟨2, kxxHash, ⟨0, 1⟩, ⟨2, 3⟩, kBlockBasedTableMagicNumber⟩ []) =
      .ok ⟨2, kxxHash, ⟨0, 1⟩, ⟨2, 3⟩, kBlockBasedTableMagicNumber⟩ :=
  (footer_roundTrip ⟨2, kxxHash, ⟨0, 1⟩, ⟨2, 3⟩, kBlockBasedTableMagicNumber⟩ (by decide)
    (by decide) [] [7, 7]).2.2.2

end Footer

end RocksDB
