import Mathlib
import RocksDB.Lib.ByteCoding

/-!
# CRC-32C

The Castagnoli CRC over byte strings, bit by bit: the reflected polynomial
`0x82F63B78`, the register preset to all ones and inverted at the end, so that
`extend` continues a checksum over more data. Table-driven and hardware
implementations compute the same function eight bits at a time.

The bit step is linear over GF(2) (`bitStep_xor`), which is all a table-driven
implementation rests on: eight steps of a register are eight steps of its low
byte xor-ed with the rest shifted right by eight (`iterate_bitStep_eight`),
and thirty-two steps split the same way over the register's four bytes
(`iterate_bitStep_thirtyTwo`), the shape of a slicing-by-4 loop.

`mask` and `unmask` are the rotation-and-offset that storage formats apply to a
stored checksum so that a checksum of data containing checksums is not itself a
checksum of the stored bytes.
-/

namespace Crc32c

open ByteCoding

/-- The reflected Castagnoli polynomial. -/
def polynomial : UInt32 := 0x82F63B78

/-- One bit of the register shifted out. -/
def bitStep (c : UInt32) : UInt32 :=
  if c &&& 1 = 1 then (c >>> 1) ^^^ polynomial else c >>> 1

/-- One byte fed into the register. -/
def byteStep (l : UInt32) (b : UInt8) : UInt32 :=
  Nat.iterate bitStep 8 (l ^^^ b.toUInt32)

/-- The checksum of `A ++ data` from the checksum `crc` of `A`. -/
def extend (crc : UInt32) (data : List UInt8) : UInt32 :=
  data.foldl byteStep (crc ^^^ 0xFFFFFFFF) ^^^ 0xFFFFFFFF

/-- The checksum of `data`. -/
def value (data : List UInt8) : UInt32 := extend 0 data

def kMaskDelta : UInt32 := 0xa282ead8

/-- Rotate right by 15 bits and add a constant. -/
def mask (crc : UInt32) : UInt32 := ((crc >>> 15) ||| (crc <<< 17)) + kMaskDelta

def unmask (maskedCrc : UInt32) : UInt32 :=
  let rot := maskedCrc - kMaskDelta
  (rot >>> 17) ||| (rot <<< 15)

/-- `extend` continues a checksum: extending over `a` and then `b` is extending
over `a ++ b`. -/
theorem extend_append (crc : UInt32) (a b : List UInt8) :
    extend (extend crc a) b = extend crc (a ++ b) := by
  simp [extend, List.foldl_append]

/-- `unmask` undoes `mask`: the offset is taken off and the rotation by 15
bits undone by one by 17. -/
theorem unmask_mask (crc : UInt32) : unmask (mask crc) = crc := by
  unfold unmask mask
  simp only [UInt32.add_sub_cancel]
  apply UInt32.toBitVec_inj.mp
  simp only [UInt32.toBitVec_or, UInt32.toBitVec_shiftRight, UInt32.toBitVec_shiftLeft]
  ext i hi
  have hout : crc.toBitVec.getLsbD (15 + (17 + i)) = false := BitVec.getLsbD_of_ge _ _ (by omega)
  simp only [BitVec.getElem_or]
  -- bit `i` comes back through the low or the high part of the first rotation
  by_cases h : i < 15
  · simp [h, hout, show 17 + i < 32 by omega]
  · simp [h, hout, show ¬ 17 + i < 32 by omega, show i - 15 < 17 by omega,
      show 15 + (i - 15) = i by omega, BitVec.getLsbD_eq_getElem hi]

/-! ## Linearity, and the table-driven steps it gives -/

theorem and_one_eq_one_iff (c : UInt32) : c &&& 1 = 1 ↔ c.toNat.testBit 0 = true := by
  rw [← UInt32.toNat_inj, UInt32.toNat_and, Nat.testBit_zero]
  simp [Nat.and_one_is_mod]

/-- Bit `i` of a stepped register: bit `i + 1` of the old one, flipped by the
polynomial when the bit shifted out was set. -/
theorem testBit_bitStep (c : UInt32) (i : Nat) :
    (bitStep c).toNat.testBit i =
      (c.toNat.testBit (i + 1) ^^ (c.toNat.testBit 0 && polynomial.toNat.testBit i)) := by
  unfold bitStep
  split
  · rename_i h
    rw [(and_one_eq_one_iff c).mp h]
    simp [UInt32.toNat_xor, UInt32.toNat_shiftRight, Nat.testBit_xor, Nat.testBit_shiftRight,
      Nat.add_comm]
  · rename_i h
    rw [and_one_eq_one_iff, Bool.not_eq_true] at h
    simp [h, UInt32.toNat_shiftRight, Nat.testBit_shiftRight, Nat.add_comm]

/-- The bit step is linear over GF(2). -/
theorem bitStep_xor (a b : UInt32) : bitStep (a ^^^ b) = bitStep a ^^^ bitStep b := by
  apply UInt32.toNat_inj.mp
  apply Nat.eq_of_testBit_eq
  intro i
  simp only [UInt32.toNat_xor, Nat.testBit_xor, testBit_bitStep]
  -- what is left is an identity of `Bool` in the five bits involved
  generalize a.toNat.testBit (i + 1) = x, b.toNat.testBit (i + 1) = y, a.toNat.testBit 0 = x0,
    b.toNat.testBit 0 = y0, polynomial.toNat.testBit i = q
  revert x y x0 y0 q
  decide

theorem iterate_bitStep_xor (n : Nat) (a b : UInt32) :
    bitStep^[n] (a ^^^ b) = bitStep^[n] a ^^^ bitStep^[n] b := by
  induction n generalizing a b with
  | zero => rfl
  | succ n ih =>
    simp only [Function.iterate_succ_apply, bitStep_xor, ih]

theorem bitStep_toNat_of_even {c : UInt32} (h : 2 ∣ c.toNat) :
    (bitStep c).toNat = c.toNat / 2 := by
  have hbit : c.toNat.testBit 0 = false := by
    rw [Nat.testBit_zero]
    simp only [decide_eq_false_iff_not]
    omega
  unfold bitStep
  rw [if_neg (by rw [and_one_eq_one_iff, hbit]; simp)]
  simp [UInt32.toNat_shiftRight, Nat.shiftRight_eq_div_pow]

/-- Steps on a register whose `n` low bits are clear only shift it. -/
theorem iterate_bitStep_toNat_of_dvd (n : Nat) {c : UInt32} (h : 2 ^ n ∣ c.toNat) :
    (bitStep^[n] c).toNat = c.toNat / 2 ^ n := by
  induction n generalizing c with
  | zero => simp
  | succ n ih =>
    have h2 : 2 ∣ c.toNat := dvd_trans (dvd_pow_self 2 (Nat.succ_ne_zero n)) h
    have hn : 2 ^ n ∣ (bitStep c).toNat := by
      rw [bitStep_toNat_of_even h2]
      exact Nat.dvd_div_of_mul_dvd (by rwa [← pow_succ'])
    rw [Function.iterate_succ_apply, ih hn, bitStep_toNat_of_even h2, Nat.div_div_eq_div_mul,
      ← pow_succ']

/-- Eight steps undo a shift by eight of a value that fits in 24 bits. -/
theorem iterate_bitStep_shiftLeft {y : UInt32} (hy : y.toNat < 2 ^ 24) :
    bitStep^[8] (y <<< 8) = y := by
  have hshift : (y <<< 8).toNat = y.toNat * 2 ^ 8 := by
    rw [UInt32.toNat_shiftLeft, Nat.shiftLeft_eq]
    simp only [UInt32.toNat_ofNat, Nat.reducePow, Nat.reduceMod]
    omega
  apply UInt32.toNat_inj.mp
  rw [iterate_bitStep_toNat_of_dvd 8 (by rw [hshift]; exact Dvd.intro_left _ rfl), hshift]
  simp

/-- Disjoint bit ranges: below `2 ^ s`, xor with a value shifted by `s` is addition. -/
theorem xor_shiftLeft_eq_add {a s : Nat} (ha : a < 2 ^ s) (d : Nat) :
    a ^^^ (d <<< s) = a + d * 2 ^ s := by
  have hor : a ^^^ (d <<< s) = a ||| (d <<< s) := by
    apply Nat.eq_of_testBit_eq
    intro i
    simp only [Nat.testBit_xor, Nat.testBit_or, Nat.testBit_shiftLeft]
    by_cases hi : s ≤ i
    · simp [Nat.testBit_eq_false_of_lt (lt_of_lt_of_le ha (Nat.pow_le_pow_right (by omega) hi))]
    · simp [hi]
  rw [hor, Nat.shiftLeft_eq, Varint.or_mul_two_pow ha]

/-- A register is its low byte xor-ed with the rest shifted back into place. -/
theorem eq_lowByte_xor (x : UInt32) : x = (x &&& (0xff : UInt32)) ^^^ ((x >>> 8) <<< 8) := by
  apply UInt32.toNat_inj.mp
  have hx := x.toNat_lt
  have hlow : x.toNat &&& 255 = x.toNat % 2 ^ 8 := Nat.and_two_pow_sub_one_eq_mod _ 8
  rw [UInt32.toNat_xor, UInt32.toNat_and, UInt32.toNat_shiftLeft, UInt32.toNat_shiftRight]
  simp only [UInt32.toNat_ofNat, Nat.reducePow, Nat.reduceMod, hlow, Nat.shiftRight_eq_div_pow]
  rw [Nat.mod_eq_of_lt (a := (x.toNat / 256) <<< 8) (by rw [Nat.shiftLeft_eq]; omega),
    xor_shiftLeft_eq_add (a := x.toNat % 256) (by omega)]
  omega

/-- Eight steps are the table step: eight steps of the low byte, xor-ed with the
rest of the register shifted right by eight. -/
theorem iterate_bitStep_eight (x : UInt32) :
    bitStep^[8] x = bitStep^[8] (x &&& 0xff) ^^^ (x >>> 8) := by
  have hhigh : (x >>> 8).toNat < 2 ^ 24 := by
    rw [UInt32.toNat_shiftRight]
    simp only [UInt32.toNat_ofNat, Nat.reducePow, Nat.reduceMod, Nat.shiftRight_eq_div_pow]
    have := x.toNat_lt
    omega
  conv_lhs => rw [eq_lowByte_xor x]
  rw [iterate_bitStep_xor, iterate_bitStep_shiftLeft hhigh]

/-- The bitwise byte step in table form. -/
theorem byteStep_eq_table (l : UInt32) (b : UInt8) :
    byteStep l b = bitStep^[8] ((l ^^^ b.toUInt32) &&& 0xff) ^^^ (l >>> 8) := by
  have hb : b.toUInt32 >>> 8 = 0 := by
    apply UInt32.toNat_inj.mp
    rw [UInt32.toNat_shiftRight]
    simp only [UInt8.toNat_toUInt32, UInt32.toNat_ofNat, Nat.reducePow, Nat.reduceMod,
      Nat.shiftRight_eq_div_pow]
    have := b.toNat_lt
    simp
    omega
  rw [byteStep, iterate_bitStep_eight, UInt32.shiftRight_xor, hb, UInt32.xor_zero]

/-- Eight more steps of a register with `n` steps to go: the low byte advanced
by all of them, the rest by `n`. -/
theorem iterate_bitStep_add_eight (n : Nat) (x : UInt32) :
    bitStep^[n + 8] x = bitStep^[n + 8] (x &&& 0xff) ^^^ bitStep^[n] (x >>> 8) := by
  rw [Function.iterate_add_apply, iterate_bitStep_eight, iterate_bitStep_xor,
    ← Function.iterate_add_apply]

/-- Thirty-two steps byte by byte: each byte of the register advanced by the
steps from its position to the end, as the four tables of a slicing-by-4
implementation hold them. -/
theorem iterate_bitStep_thirtyTwo (c : UInt32) :
    bitStep^[32] c = bitStep^[32] (c &&& 0xff) ^^^ bitStep^[24] ((c >>> 8) &&& 0xff) ^^^
      bitStep^[16] ((c >>> 16) &&& 0xff) ^^^ bitStep^[8] (c >>> 24) := by
  have h16 : c >>> 8 >>> 8 = c >>> 16 := by
    apply UInt32.toNat_inj.mp; simp [UInt32.toNat_shiftRight, Nat.shiftRight_eq_div_pow, Nat.div_div_eq_div_mul]
  have h24 : c >>> 16 >>> 8 = c >>> 24 := by
    apply UInt32.toNat_inj.mp; simp [UInt32.toNat_shiftRight, Nat.shiftRight_eq_div_pow, Nat.div_div_eq_div_mul]
  rw [iterate_bitStep_add_eight 24, iterate_bitStep_add_eight 16, iterate_bitStep_add_eight 8,
    h16, h24]
  simp only [UInt32.xor_assoc]

/-- The word `bs` spells, little-endian, as a register value: its first byte
is the low byte, the rest shifted by eight. -/
theorem ofNat_leDecode_cons (b : UInt8) {bs : List UInt8} (hbs : leDecode bs < 2 ^ 24) :
    UInt32.ofNat (leDecode (b :: bs)) = b.toUInt32 ^^^ (UInt32.ofNat (leDecode bs) <<< 8) := by
  apply UInt32.toNat_inj.mp
  have hb := b.toNat_lt
  rw [leDecode, UInt32.toNat_xor, UInt32.toNat_shiftLeft]
  simp only [UInt32.toNat_ofNat', UInt32.toNat_ofNat, UInt8.toNat_toUInt32, Nat.reducePow,
    Nat.reduceMod]
  rw [Nat.mod_eq_of_lt (a := leDecode bs) (by omega),
    Nat.mod_eq_of_lt (a := leDecode bs <<< 8) (by rw [Nat.shiftLeft_eq]; omega),
    xor_shiftLeft_eq_add (s := 8) hb, Nat.mod_eq_of_lt (by omega)]
  omega

/-- Up to four bytes fed one at a time are their little-endian word xor-ed into
the register, followed by eight steps a byte. -/
theorem foldl_byteStep_eq_iterate (bs : List UInt8) (hbs : bs.length ≤ 4) (l : UInt32) :
    bs.foldl byteStep l = bitStep^[8 * bs.length] (l ^^^ UInt32.ofNat (leDecode bs)) := by
  induction bs generalizing l with
  | nil => simp [leDecode]
  | cons b bs ih =>
    have hlen : bs.length ≤ 3 := by simp at hbs; omega
    have hD : leDecode bs < 2 ^ 24 :=
      lt_of_lt_of_le (leDecode_lt bs) (by
        calc 256 ^ bs.length ≤ 256 ^ 3 := Nat.pow_le_pow_right (by omega) hlen
          _ = 2 ^ 24 := by norm_num)
    have hW : (UInt32.ofNat (leDecode bs)).toNat < 2 ^ 24 := by
      rw [UInt32.toNat_ofNat']; omega
    rw [List.foldl_cons, ih (by omega), ofNat_leDecode_cons b hD, ← UInt32.xor_assoc,
      List.length_cons, show 8 * (bs.length + 1) = 8 * bs.length + 8 by ring,
      Function.iterate_add_apply, iterate_bitStep_xor 8, iterate_bitStep_shiftLeft hW, byteStep]

end Crc32c
