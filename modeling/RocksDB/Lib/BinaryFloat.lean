import Mathlib

/-!
# Rounding to a binary floating-point format

The finite values of a binary floating-point format, as rationals, and rounding to nearest
with ties to even, the rounding of IEEE 754 arithmetic and of conversions from integers. A
format has `prec` significand bits and `emin`, the exponent of its least subnormal step; the
quantum of a positive `x` with `2 ^ e ≤ x < 2 ^ (e + 1)` is `2 ^ max (e - (prec - 1)) emin`,
and `x` rounds to the nearest multiple of it.

The format has no largest exponent: a result beyond the largest finite value, an infinity in
IEEE arithmetic, keeps its rounded value here.

## Main definitions

- `roundEven`: the integer nearest a rational, the even one on a tie
- `round`: rounding to the format
- `Value`: the values of the format, the rationals that rounding keeps

## Main results

- `round_mono`: rounding keeps the order of non-negative rationals
- `round_round`: a rounded value rounds to itself, so rounded operations stay in `Value`
-/

namespace BinaryFloat

/-- Round half to even: the nearest integer, the even one of two. -/
def roundEven (x : ℚ) : ℤ :=
  if x - ⌊x⌋ < 1 / 2 then ⌊x⌋
  else if 1 / 2 < x - ⌊x⌋ then ⌊x⌋ + 1
  else if ⌊x⌋ % 2 = 0 then ⌊x⌋ else ⌊x⌋ + 1

@[simp] theorem roundEven_intCast (n : ℤ) : roundEven n = n := by
  simp [roundEven]

@[simp] theorem roundEven_zero : roundEven 0 = 0 := by
  simpa using roundEven_intCast 0

theorem floor_le_roundEven (x : ℚ) : ⌊x⌋ ≤ roundEven x := by
  unfold roundEven
  split_ifs <;> omega

theorem roundEven_le_floor_add_one (x : ℚ) : roundEven x ≤ ⌊x⌋ + 1 := by
  unfold roundEven
  split_ifs <;> omega

theorem roundEven_mono {x y : ℚ} (h : x ≤ y) : roundEven x ≤ roundEven y := by
  rcases (Int.floor_mono h).lt_or_eq with hlt | heq
  · -- a whole step apart
    calc roundEven x ≤ ⌊x⌋ + 1 := roundEven_le_floor_add_one x
      _ ≤ ⌊y⌋ := hlt
      _ ≤ roundEven y := floor_le_roundEven y
  · -- one integer part: the fractional parts are in order, and each test is the other's
    have hfrac : x - ⌊x⌋ ≤ y - ⌊x⌋ := by linarith
    unfold roundEven
    rw [← heq]
    split_ifs <;> first | omega | (exfalso; linarith)

theorem roundEven_nonneg {x : ℚ} (hx : 0 ≤ x) : 0 ≤ roundEven x := by
  simpa using roundEven_mono hx

/-- Below a half, the nearest integer is `0`. -/
theorem roundEven_eq_zero {x : ℚ} (h0 : 0 ≤ x) (h : x < 1 / 2) : roundEven x = 0 := by
  have hfl : ⌊x⌋ = 0 := Int.floor_eq_zero_iff.mpr ⟨h0, by linarith⟩
  unfold roundEven
  rw [hfl, Int.cast_zero, sub_zero, if_pos h]

/-! ### Rounding to a multiple of a power of two -/

/-- Round to the nearest multiple of `2 ^ q`, ties to the even multiple. -/
def roundMult (q : ℤ) (x : ℚ) : ℚ := 2 ^ q * roundEven (x / 2 ^ q)

theorem roundMult_mono (q : ℤ) {x y : ℚ} (h : x ≤ y) : roundMult q x ≤ roundMult q y := by
  have hq : (0 : ℚ) < 2 ^ q := zpow_pos two_pos q
  have hdiv : x / 2 ^ q ≤ y / 2 ^ q := div_le_div_of_nonneg_right h hq.le
  unfold roundMult
  gcongr
  exact_mod_cast roundEven_mono hdiv

theorem roundMult_nonneg (q : ℤ) {x : ℚ} (hx : 0 ≤ x) : 0 ≤ roundMult q x := by
  have hq : (0 : ℚ) < 2 ^ q := zpow_pos two_pos q
  unfold roundMult
  exact mul_nonneg hq.le (by exact_mod_cast roundEven_nonneg (div_nonneg hx hq.le))

@[simp] theorem roundMult_zero (q : ℤ) : roundMult q 0 = 0 := by
  simp [roundMult]

/-- A multiple of a power of two at or above `2 ^ q'` is a multiple of `2 ^ q'`, so it
stays. -/
theorem roundMult_mul_zpow {q' q : ℤ} (h : q' ≤ q) (k : ℤ) :
    roundMult q' (k * 2 ^ q) = k * 2 ^ q := by
  obtain ⟨n, hn⟩ := Int.eq_ofNat_of_zero_le (sub_nonneg.mpr h)
  have hpow : (2 : ℚ) ^ q = 2 ^ n * 2 ^ q' := by
    rw [← zpow_natCast, ← hn, ← zpow_add₀ two_ne_zero, sub_add_cancel]
  have hint : k * (2 : ℚ) ^ q / 2 ^ q' = ((k * 2 ^ n : ℤ) : ℚ) := by
    rw [hpow]
    field_simp
    push_cast
    ring
  unfold roundMult
  rw [hint, roundEven_intCast, hpow]
  push_cast
  ring

theorem roundMult_zpow {q e : ℤ} (h : q ≤ e) : roundMult q (2 ^ e) = 2 ^ e := by
  simpa using roundMult_mul_zpow h 1

/-- Rounding to multiples of `2 ^ q` leaves `x` below any such multiple above it. -/
theorem roundMult_le_zpow {q e : ℤ} (h : q ≤ e) {x : ℚ} (hx : x ≤ 2 ^ e) :
    roundMult q x ≤ 2 ^ e :=
  (roundMult_mono q hx).trans_eq (roundMult_zpow h)

theorem zpow_le_roundMult {q e : ℤ} (h : q ≤ e) {x : ℚ} (hx : 2 ^ e ≤ x) :
    2 ^ e ≤ roundMult q x :=
  (roundMult_zpow h).symm.trans_le (roundMult_mono q hx)

/-! ### The format -/

/-- A binary format: `prec` significand bits, and `emin`, the exponent of the least
subnormal step. -/
structure Format where
  prec : ℕ
  emin : ℤ
  prec_pos : 0 < prec

variable (f : Format)

/-- The exponent of the quantum at `x`: `prec` bits from the leading bit of `x` down, or the
least subnormal step. -/
def quantumExp (x : ℚ) : ℤ := max (Int.log 2 x - ((f.prec : ℤ) - 1)) f.emin

/-- Rounding a non-negative rational to the nearest multiple of its quantum. -/
def roundNonneg (x : ℚ) : ℚ := roundMult (quantumExp f x) x

/-- Rounding to nearest, ties to even, symmetric about `0`. -/
def round (x : ℚ) : ℚ := if x < 0 then -roundNonneg f (-x) else roundNonneg f x

variable {f}

theorem quantumExp_mono {x y : ℚ} (hx : 0 < x) (h : x ≤ y) : quantumExp f x ≤ quantumExp f y := by
  unfold quantumExp
  have := Int.log_mono_right (b := 2) hx h
  omega

theorem two_zpow_log_le {x : ℚ} (hx : 0 < x) : (2 : ℚ) ^ Int.log 2 x ≤ x := by
  simpa using Int.zpow_log_le_self (b := 2) (by norm_num) hx

theorem lt_two_zpow_log_add_one (x : ℚ) : x < (2 : ℚ) ^ (Int.log 2 x + 1) := by
  simpa using Int.lt_zpow_succ_log_self (b := 2) (by norm_num) x

theorem log_two_zpow (z : ℤ) : Int.log 2 ((2 : ℚ) ^ z) = z := by
  simpa using Int.log_zpow (R := ℚ) (b := 2) (by norm_num) z

@[simp] theorem roundNonneg_zero : roundNonneg f 0 = 0 := roundMult_zero _

theorem roundNonneg_nonneg {x : ℚ} (hx : 0 ≤ x) : 0 ≤ roundNonneg f x := roundMult_nonneg _ hx

/-- **Rounding is monotone.** Within one quantum it is `roundMult_mono`; when the quantum
grows, the power of two at the leading bit of `y` lies between the two results. -/
theorem roundNonneg_mono {x y : ℚ} (hx : 0 ≤ x) (h : x ≤ y) :
    roundNonneg f x ≤ roundNonneg f y := by
  rcases hx.eq_or_lt with rfl | hx
  · rw [roundNonneg_zero]
    exact roundNonneg_nonneg h
  rcases (quantumExp_mono (f := f) hx h).eq_or_lt with heq | hlt
  · unfold roundNonneg
    rw [heq]
    exact roundMult_mono _ h
  · -- `y`'s quantum is `prec` bits below its leading bit `e`, above the leading bit of `x`
    set e := Int.log 2 y
    have hqy : quantumExp f y ≤ e := by
      unfold quantumExp at hlt ⊢
      have := f.prec_pos
      omega
    have hlog : Int.log 2 x + 1 ≤ e := by
      unfold quantumExp at hlt
      omega
    have hxe : x ≤ 2 ^ e :=
      (lt_two_zpow_log_add_one x).le.trans (zpow_le_zpow_right₀ one_le_two hlog)
    calc roundNonneg f x ≤ 2 ^ e := roundMult_le_zpow (hlt.le.trans hqy) hxe
      _ ≤ roundNonneg f y := zpow_le_roundMult hqy (two_zpow_log_le (hx.trans_le h))

/-- **A rounded value rounds to itself.** It is a multiple of its own quantum: either it stays
below the next power of two, where the quantum is no larger, or it is that power of two. -/
theorem roundNonneg_roundNonneg {x : ℚ} (hx : 0 ≤ x) :
    roundNonneg f (roundNonneg f x) = roundNonneg f x := by
  set q := quantumExp f x
  set e := Int.log 2 x
  set y := roundNonneg f x
  have hy : y = roundEven (x / 2 ^ q) * 2 ^ q := by
    simp only [y, roundNonneg, roundMult, q]
    ring
  have hq : (0 : ℚ) < 2 ^ q := zpow_pos two_pos q
  by_cases hqe : q ≤ e + 1
  · have hye : y ≤ 2 ^ (e + 1) := roundMult_le_zpow hqe (lt_two_zpow_log_add_one x).le
    rcases (roundNonneg_nonneg (f := f) hx).eq_or_lt with hy0 | hypos
    · have hy0' : y = 0 := hy0.symm
      rw [hy0', roundNonneg_zero]
    rcases hye.lt_or_eq with hylt | hyeq
    · -- below the next power of two the quantum is at most `q`
      have hlog : Int.log 2 y < e + 1 :=
        (Int.lt_zpow_iff_log_lt (b := 2) (by norm_num) hypos).mp (by exact_mod_cast hylt)
      have hqy : quantumExp f y ≤ q := by
        have hq₁ : e - ((f.prec : ℤ) - 1) ≤ q := le_max_left _ _
        have hq₂ : f.emin ≤ q := le_max_right _ _
        unfold quantumExp
        omega
      have hmul := roundMult_mul_zpow hqy (roundEven (x / 2 ^ q))
      rw [← hy] at hmul
      exact hmul
    · -- the power of two itself
      have hqy : quantumExp f (2 ^ (e + 1)) ≤ e + 1 := by
        have hq₂ : f.emin ≤ q := le_max_right _ _
        have := f.prec_pos
        unfold quantumExp
        rw [log_two_zpow]
        omega
      unfold roundNonneg
      rw [hyeq]
      exact roundMult_zpow hqy
  · -- the quantum is above `x`'s leading bit: `x` is under half of it and rounds to `0`
    have hhalf : x / 2 ^ q < 1 / 2 := by
      rw [div_lt_iff₀ hq]
      calc x < 2 ^ (e + 1) := lt_two_zpow_log_add_one x
        _ ≤ 2 ^ (q - 1) := zpow_le_zpow_right₀ one_le_two (by omega)
        _ = 1 / 2 * 2 ^ q := by
          rw [zpow_sub₀ two_ne_zero, zpow_one]
          ring
    have hy0 : y = 0 := by
      rw [hy, roundEven_eq_zero (div_nonneg hx hq.le) hhalf]
      simp
    rw [hy0, roundNonneg_zero]

theorem round_of_nonneg {x : ℚ} (hx : 0 ≤ x) : round f x = roundNonneg f x := by
  simp [round, not_lt.mpr hx]

@[simp] theorem round_zero : round f 0 = 0 := by
  simp [round]

theorem round_nonneg {x : ℚ} (hx : 0 ≤ x) : 0 ≤ round f x := by
  rw [round_of_nonneg hx]
  exact roundNonneg_nonneg hx

theorem round_mono {x y : ℚ} (hx : 0 ≤ x) (h : x ≤ y) : round f x ≤ round f y := by
  rw [round_of_nonneg hx, round_of_nonneg (hx.trans h)]
  exact roundNonneg_mono hx h

theorem round_round (x : ℚ) : round f (round f x) = round f x := by
  by_cases hx : x < 0
  · -- a negative value rounds as its magnitude
    have hz := roundNonneg_nonneg (f := f) (neg_nonneg.mpr hx.le)
    have hr : round f x = -roundNonneg f (-x) := if_pos hx
    rw [hr]
    rcases hz.eq_or_lt with hz0 | hzpos
    · rw [← hz0, neg_zero, round_zero]
    · rw [round, if_pos (neg_lt_zero.mpr hzpos), neg_neg,
        roundNonneg_roundNonneg (neg_nonneg.mpr hx.le)]
  · rw [round_of_nonneg (not_lt.mp hx), round_of_nonneg (roundNonneg_nonneg (not_lt.mp hx)),
      roundNonneg_roundNonneg (not_lt.mp hx)]

/-! ### Values -/

variable (f)

/-- A value of the format: a rational that rounding keeps. -/
structure Value where
  val : ℚ
  round_val : round f val = val

variable {f}

namespace Value

instance : DecidableEq (Value f) := fun a b =>
  decidable_of_iff (a.val = b.val) ⟨fun h => by cases a; cases b; simp_all, fun h => h ▸ rfl⟩

/-- The value nearest `x`: the result of a conversion, or of an operation done exactly and
then rounded. -/
def ofRat (x : ℚ) : Value f := ⟨round f x, round_round x⟩

/-- The conversion of an integer to the format. -/
def ofNat (n : ℕ) : Value f := ofRat n

instance : Zero (Value f) := ⟨⟨0, round_zero⟩⟩

instance : Mul (Value f) := ⟨fun a b => ofRat (a.val * b.val)⟩

@[simp] theorem val_ofRat (x : ℚ) : (ofRat x : Value f).val = round f x := rfl
@[simp] theorem val_zero : (0 : Value f).val = 0 := rfl
@[simp] theorem val_mul (a b : Value f) : (a * b).val = round f (a.val * b.val) := rfl

@[simp] theorem val_ofNat_zero : (ofNat 0 : Value f).val = 0 := by
  simp [ofNat]

theorem ofNat_nonneg (n : ℕ) : 0 ≤ (ofNat n : Value f).val :=
  round_nonneg (Nat.cast_nonneg n)

theorem ofNat_mono {m n : ℕ} (h : m ≤ n) : (ofNat m : Value f).val ≤ (ofNat n : Value f).val :=
  round_mono (Nat.cast_nonneg m) (Nat.cast_le.mpr h)

theorem val_mul_nonneg {a b : Value f} (ha : 0 ≤ a.val) (hb : 0 ≤ b.val) : 0 ≤ (a * b).val :=
  round_nonneg (mul_nonneg ha hb)

end Value

/-- IEEE 754 `binary64`, C++'s `double`. -/
def binary64 : Format := ⟨53, -1074, by decide⟩

end BinaryFloat
