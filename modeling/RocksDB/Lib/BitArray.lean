import Mathlib

/-!
# Bit arrays stored in bytes

A bit array is a list of bytes; bit `pos` is bit `pos % 8` of byte `pos / 8`,
set by `array[pos / 8] |= 1 << (pos % 8)` and tested by
`(array[pos / 8] & (1 << (pos % 8))) != 0`. A byte past the end reads as zero.

Setting a bit inside the array makes it test true, and never clears a bit that
was set: the facts every filter built by setting bits and read by testing them
rests on. `Covers a b` says that every bit set in `b` is set in `a`.
-/

namespace BitArray

/-- `1 << (pos % 8)` as a byte. -/
def mask (pos : Nat) : UInt8 := 1 <<< UInt8.ofNat (pos % 8)

/-- `array[pos / 8] |= (1 << (pos % 8))`. -/
def setBit (array : List UInt8) (pos : Nat) : List UInt8 :=
  array.modify (pos / 8) (· ||| mask pos)

/-- `(array[pos / 8] & (1 << (pos % 8))) != 0`. -/
def testBit (array : List UInt8) (pos : Nat) : Bool :=
  (array.getD (pos / 8) 0 &&& mask pos) != 0

theorem mask_toNat (pos : Nat) : (mask pos).toNat = 2 ^ (pos % 8) := by
  unfold mask
  have h8 : pos % 8 < 8 := Nat.mod_lt _ (by decide)
  generalize pos % 8 = k at h8 ⊢
  interval_cases k <;> rfl

/-- Masking a byte tests one of its bits. -/
theorem and_mask_ne_zero_iff (b : UInt8) (pos : Nat) :
    (b &&& mask pos) ≠ 0 ↔ b.toNat.testBit (pos % 8) = true := by
  rw [ne_eq, ← UInt8.toNat_inj, UInt8.toNat_and, mask_toNat, Nat.and_two_pow]
  cases b.toNat.testBit (pos % 8) <;> simp

theorem testBit_iff (array : List UInt8) (pos : Nat) :
    testBit array pos = true ↔ (array.getD (pos / 8) 0).toNat.testBit (pos % 8) = true := by
  rw [testBit, bne_iff_ne, and_mask_ne_zero_iff]

@[simp] theorem length_setBit (array : List UInt8) (pos : Nat) :
    (setBit array pos).length = array.length :=
  List.length_modify _ _ _

theorem getD_setBit (array : List UInt8) (pos i : Nat) :
    (setBit array pos).getD i 0 =
      if i = pos / 8 ∧ i < array.length then array.getD i 0 ||| mask pos else array.getD i 0 := by
  unfold setBit
  by_cases hi : i < array.length
  · rw [List.getD_eq_getElem _ _ (by simpa using hi), List.getD_eq_getElem _ _ hi,
      List.getElem_modify]
    by_cases hpos : pos / 8 = i
    · simp [hpos, hi]
    · simp [hpos, Ne.symm hpos]
  · rw [List.getD_eq_default _ _ (by simpa using hi), List.getD_eq_default _ _ (by omega)]
    simp [hi]

/-- A bit set inside the array tests true. -/
theorem testBit_setBit_self {array : List UInt8} {pos : Nat} (h : pos / 8 < array.length) :
    testBit (setBit array pos) pos = true := by
  rw [testBit_iff, getD_setBit, if_pos ⟨rfl, h⟩, UInt8.toNat_or, Nat.testBit_or, mask_toNat,
    Nat.testBit_two_pow_self, Bool.or_true]

/-- Setting a bit never clears another. -/
theorem testBit_setBit_of_testBit {array : List UInt8} {pos q : Nat}
    (h : testBit array q = true) : testBit (setBit array pos) q = true := by
  rw [testBit_iff] at h ⊢
  rw [getD_setBit]
  split
  · rw [UInt8.toNat_or, Nat.testBit_or, h, Bool.true_or]
  · exact h

/-- Bytes after the array do not change its bits. -/
theorem testBit_append_of_lt {array : List UInt8} {pos : Nat} (rest : List UInt8)
    (h : pos / 8 < array.length) : testBit (array ++ rest) pos = testBit array pos := by
  rw [testBit, testBit, List.getD_append _ _ _ _ h]

/-! ### Covering -/

/-- Every bit set in `b` is set in `a`. -/
def Covers (a b : List UInt8) : Prop := ∀ pos, testBit b pos = true → testBit a pos = true

theorem Covers.refl (a : List UInt8) : Covers a a := fun _ h => h

theorem Covers.trans {a b c : List UInt8} (hab : Covers a b) (hbc : Covers b c) : Covers a c :=
  fun pos h => hab pos (hbc pos h)

theorem covers_setBit (array : List UInt8) (pos : Nat) : Covers (setBit array pos) array :=
  fun _ h => testBit_setBit_of_testBit h

/-- A fold that only sets bits covers its start, and covers each intermediate
array it passes through. -/
theorem covers_foldl {β : Type} (f : List UInt8 → β → List UInt8)
    (hf : ∀ a x, Covers (f a x) a) (xs : List β) (a : List UInt8) :
    Covers (xs.foldl f a) a := by
  induction xs generalizing a with
  | nil => exact Covers.refl a
  | cons x xs ih => exact (ih (f a x)).trans (hf a x)

theorem covers_foldl_of_mem {β : Type} (f : List UInt8 → β → List UInt8)
    (hf : ∀ a x, Covers (f a x) a) (P : List UInt8 → Prop) (hP : ∀ a x, P a → P (f a x))
    {xs : List β} {x : β} (hx : x ∈ xs) {a : List UInt8} (ha : P a) :
    ∃ b, P b ∧ Covers (xs.foldl f a) (f b x) := by
  induction xs generalizing a with
  | nil => cases hx
  | cons y ys ih =>
    rcases List.mem_cons.mp hx with rfl | hys
    · exact ⟨a, ha, covers_foldl f hf ys (f a x)⟩
    · exact ih hys (hP a y ha)

theorem length_foldl {β : Type} {f : List UInt8 → β → List UInt8}
    (hf : ∀ a x, (f a x).length = a.length) (xs : List β) (a : List UInt8) :
    (xs.foldl f a).length = a.length := by
  induction xs generalizing a with
  | nil => rfl
  | cons x xs ih => rw [List.foldl_cons, ih, hf]

/-- A set bit lies inside the array. -/
theorem lt_length_of_testBit {array : List UInt8} {pos : Nat} (h : testBit array pos = true) :
    pos / 8 < array.length := by
  by_contra hge
  rw [testBit, List.getD_eq_default _ _ (by omega)] at h
  simp at h

theorem covers_append (array rest : List UInt8) : Covers (array ++ rest) array := fun pos h => by
  rw [testBit_append_of_lt rest (lt_length_of_testBit h)]
  exact h

/-! ### Probe sequences

Double hashing sets, and later tests, the bits at `pos h`, `pos (h + delta)`,
`pos (h + 2 * delta)`, ... for a number of probes. -/

/-- Set the bits of `n` probes from `h`. -/
def probeSet (pos : UInt32 → Nat) (delta : UInt32) : Nat → UInt32 → List UInt8 → List UInt8
  | 0, _, array => array
  | n + 1, h, array => probeSet pos delta n (h + delta) (setBit array (pos h))

/-- Test the bits of `n` probes from `h`, stopping at the first clear one. -/
def probeTest (array : List UInt8) (pos : UInt32 → Nat) (delta : UInt32) : Nat → UInt32 → Bool
  | 0, _ => true
  | n + 1, h => if testBit array (pos h) then probeTest array pos delta n (h + delta) else false

@[simp] theorem length_probeSet (pos : UInt32 → Nat) (delta : UInt32) (n : Nat) (h : UInt32)
    (array : List UInt8) : (probeSet pos delta n h array).length = array.length := by
  induction n generalizing h array with
  | zero => rfl
  | succ n ih => rw [probeSet, ih, length_setBit]

theorem covers_probeSet (pos : UInt32 → Nat) (delta : UInt32) (n : Nat) (h : UInt32)
    (array : List UInt8) : Covers (probeSet pos delta n h array) array := by
  induction n generalizing h array with
  | zero => exact Covers.refl array
  | succ n ih => exact (ih (h + delta) (setBit array (pos h))).trans (covers_setBit array (pos h))

/-- Every array that covers the probes set from `h` passes the test of the same
probes, when every probe lies inside the array they were set in. -/
theorem probeTest_of_covers {pos : UInt32 → Nat} {delta : UInt32} {array a : List UInt8}
    (hpos : ∀ h, pos h / 8 < array.length) (n : Nat) (h : UInt32)
    (hcov : Covers a (probeSet pos delta n h array)) : probeTest a pos delta n h = true := by
  induction n generalizing h array with
  | zero => rfl
  | succ n ih =>
    have hset : testBit a (pos h) = true :=
      hcov _ (covers_probeSet pos delta n (h + delta) _ (pos h) (testBit_setBit_self (hpos h)))
    rw [probeTest, if_pos hset]
    exact ih (fun h' => by simpa using hpos h') (h + delta) hcov

end BitArray
