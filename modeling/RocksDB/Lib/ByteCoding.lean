import Mathlib

/-!
# Little-endian words and base-128 varints

Byte-string codecs over `List UInt8`, independent of any storage format.
`leEncode k v` writes the `k` low bytes of `v` least significant first and
`leDecode` reads them back. `Varint.encode` is the base-128 varint with
continuation bit `0x80`; `Varint.decodeGo` is its decoding loop, run with a word
width at which the accumulator wraps and a last shift at which a byte is still
read, which is how fixed-width decoders bound the number of bytes they accept.

The decoding theorem `Varint.decodeGo_encode` carries an accumulator, so it
covers a decoder entered at any shift, and its corollary `Varint.decode_encode`
is the round trip with an arbitrary trailing suffix.
-/

namespace ByteCoding

/-- The `k` low bytes of `v`, least significant first. -/
def leEncode : Nat → Nat → List UInt8
  | 0, _ => []
  | k + 1, v => UInt8.ofNat (v % 256) :: leEncode k (v / 256)

/-- The number a little-endian byte string denotes. -/
def leDecode : List UInt8 → Nat
  | [] => 0
  | b :: bs => b.toNat + 256 * leDecode bs

@[simp] theorem leEncode_length (k v : Nat) : (leEncode k v).length = k := by
  induction k generalizing v with
  | zero => rfl
  | succ k ih => simp [leEncode, ih]

theorem leDecode_leEncode (k v : Nat) : leDecode (leEncode k v) = v % 256 ^ k := by
  induction k generalizing v with
  | zero => simp [leEncode, leDecode, Nat.mod_one]
  | succ k ih =>
    have hb : (UInt8.ofNat (v % 256)).toNat = v % 256 := by
      rw [UInt8.toNat_ofNat', Nat.mod_mod_of_dvd _ (by norm_num)]
    rw [leEncode, leDecode, ih, hb, pow_succ', Nat.mod_mul]

theorem leDecode_lt (bs : List UInt8) : leDecode bs < 256 ^ bs.length := by
  induction bs with
  | nil => simp [leDecode]
  | cons b bs ih =>
    have hb := b.toNat_lt
    simp only [leDecode, List.length_cons, pow_succ']
    omega

/-- A word read back from its own bytes is the word itself. -/
theorem leEncode_leDecode (bs : List UInt8) : leEncode bs.length (leDecode bs) = bs := by
  induction bs with
  | nil => rfl
  | cons b bs ih =>
    have hb := b.toNat_lt
    have hdiv : (b.toNat + 256 * leDecode bs) / 256 = leDecode bs := by omega
    have hmod : UInt8.ofNat ((b.toNat + 256 * leDecode bs) % 256) = b := by
      apply UInt8.toNat_inj.mp
      rw [UInt8.toNat_ofNat']
      omega
    simp only [List.length_cons, leEncode, leDecode, hdiv, hmod, ih]

namespace Varint

/-- The encoding loop, allowed `fuel` continuation bytes before it stops with the
remaining value as a last byte. -/
def encodeGo : Nat → Nat → List UInt8
  | 0, v => [UInt8.ofNat v]
  | fuel + 1, v =>
    if v < 128 then [UInt8.ofNat v]
    else UInt8.ofNat (v % 128 + 128) :: encodeGo fuel (v / 128)

/-- Base-128 varint of `v`: seven payload bits per byte, least significant group
first, `0x80` on every byte but the last. `v` itself is enough fuel, since every
continuation byte divides the value by 128. -/
def encode (v : Nat) : List UInt8 := encodeGo v v

theorem encodeGo_fuel (f g v : Nat) (hf : v ≤ f) (hg : v ≤ g) :
    encodeGo f v = encodeGo g v := by
  induction f generalizing g v with
  | zero =>
    obtain rfl : v = 0 := by omega
    cases g <;> simp [encodeGo]
  | succ f ih =>
    cases g with
    | zero =>
      obtain rfl : v = 0 := by omega
      simp [encodeGo]
    | succ g =>
      simp only [encodeGo]
      split
      · rfl
      · rw [ih g (v / 128) (by omega) (by omega)]

/-- The unfolding equation of `encode`: one group, then the rest of the value. -/
theorem encode_eq (v : Nat) :
    encode v = if v < 128 then [UInt8.ofNat v]
      else UInt8.ofNat (v % 128 + 128) :: encode (v / 128) := by
  unfold encode
  cases v with
  | zero => rfl
  | succ n =>
    simp only [encodeGo]
    split
    · rfl
    · rw [encodeGo_fuel n ((n + 1) / 128) ((n + 1) / 128) (by omega) le_rfl]

theorem encode_of_lt {v : Nat} (h : v < 128) : encode v = [UInt8.ofNat v] := by
  rw [encode_eq, if_pos h]

theorem encode_of_ge {v : Nat} (h : 128 ≤ v) :
    encode v = UInt8.ofNat (v % 128 + 128) :: encode (v / 128) := by
  rw [encode_eq, if_neg (by omega)]

theorem encode_ne_nil (v : Nat) : encode v ≠ [] := by
  rw [encode_eq]
  split <;> simp

/-- A value below `128 ^ k` takes at most `k` bytes. -/
theorem encode_length_le (k v : Nat) (hk : 0 < k) (hv : v < 128 ^ k) :
    (encode v).length ≤ k := by
  induction k generalizing v with
  | zero => omega
  | succ k ih =>
    by_cases h : v < 128
    · rw [encode_of_lt h]
      simp
    · rw [encode_of_ge (by omega), List.length_cons]
      have hk' : 0 < k := by
        rcases Nat.eq_zero_or_pos k with rfl | hk'
        · simp at hv
          omega
        · exact hk'
      have := ih (v / 128) hk' (by rw [pow_succ] at hv; omega)
      omega

/-- A larger value never takes fewer bytes. -/
theorem length_encode_mono {a b : Nat} (hab : a ≤ b) : (encode a).length ≤ (encode b).length := by
  induction b using Nat.strong_induction_on generalizing a with
  | _ b ih =>
    by_cases hb : b < 128
    · simp [encode_of_lt (show a < 128 by omega), encode_of_lt hb]
    · rw [encode_of_ge (by omega : 128 ≤ b), List.length_cons]
      by_cases ha : a < 128
      · rw [encode_of_lt ha, List.length_singleton]
        omega
      · rw [encode_of_ge (by omega : 128 ≤ a), List.length_cons]
        have := ih (b / 128) (by omega) (Nat.div_le_div_right hab)
        omega

/-- A value of at least `128 ^ k` takes more than `k` bytes. -/
theorem lt_length_encode {k v : Nat} (hv : 128 ^ k ≤ v) : k < (encode v).length := by
  induction k generalizing v with
  | zero =>
    have := encode_ne_nil v
    cases h : encode v with
    | nil => exact absurd h this
    | cons _ _ => simp
  | succ k ih =>
    have h128 : 128 ≤ v := by
      rw [pow_succ] at hv
      exact le_trans (Nat.le_mul_of_pos_left 128 (Nat.pow_pos (n := k) (by omega : 0 < 128))) hv
    rw [encode_of_ge h128, List.length_cons]
    have := ih (v := v / 128) (by rw [Nat.le_div_iff_mul_le (by omega), ← pow_succ]; exact hv)
    omega

/-- The byte-level facts the decoder tests: the continuation bit and the payload. -/
theorem and_128 (x : Nat) (hx : x < 256) : x &&& 128 = x / 128 * 128 := by
  have key : ∀ i : Fin 256, i.val &&& 128 = i.val / 128 * 128 := by decide +kernel
  exact key ⟨x, hx⟩

theorem and_127 (x : Nat) : x &&& 127 = x % 128 :=
  Nat.and_two_pow_sub_one_eq_mod x 7

theorem or_mul_two_pow {acc s : Nat} (h : acc < 2 ^ s) (x : Nat) :
    acc ||| x * 2 ^ s = acc + x * 2 ^ s := by
  rw [Nat.or_comm, Nat.mul_comm, ← Nat.two_pow_add_eq_or_of_lt h]
  omega

/-- The decoding loop. `shift` is the position of the next payload group, `acc`
the bits read so far; payloads are shifted in modulo `2 ^ width`, and a byte is
read only while `shift ≤ lastShift`. -/
def decodeGo (width lastShift : Nat) : Nat → Nat → List UInt8 → Option (Nat × List UInt8)
  | _, _, [] => none
  | shift, acc, b :: rest =>
    if shift ≤ lastShift then
      if b.toNat &&& 128 ≠ 0 then
        decodeGo width lastShift (shift + 7)
          (acc ||| ((b.toNat &&& 127) <<< shift) % 2 ^ width) rest
      else some (acc ||| (b.toNat <<< shift) % 2 ^ width, rest)
    else none

/-- The loop reads at least one byte before it answers. -/
theorem length_lt_of_decodeGo {width lastShift : Nat} :
    ∀ {shift acc : Nat} {input rest : List UInt8} {v : Nat},
      decodeGo width lastShift shift acc input = some (v, rest) → rest.length < input.length
  | _, _, [], _, _, h => by simp [decodeGo] at h
  | shift, acc, b :: bs, rest, v, h => by
    simp only [decodeGo] at h
    split_ifs at h
    · have := length_lt_of_decodeGo h
      simp only [List.length_cons]
      omega
    · cases h
      simp

/-- Decoding an encoded value entered at `shift` with `acc` already read adds the
value's bits above `acc`, provided nothing wraps and the last group is still
within `lastShift`. The induction follows `encode`. -/
theorem decodeGo_encode (width lastShift : Nat) (rest : List UInt8) :
    ∀ v shift acc, acc < 2 ^ shift → acc + v * 2 ^ shift < 2 ^ width →
      shift + 7 * ((encode v).length - 1) ≤ lastShift →
      decodeGo width lastShift shift acc (encode v ++ rest) =
        some (acc + v * 2 ^ shift, rest) := by
  intro v
  induction v using Nat.strong_induction_on with
  | _ v ih =>
    intro shift acc hacc hwidth hlast
    have hpos : 0 < 2 ^ shift := Nat.two_pow_pos shift
    by_cases hv : v < 128
    · -- last byte: continuation bit clear, payload `v`
      rw [encode_of_lt hv] at hlast ⊢
      have hb : (UInt8.ofNat v).toNat = v := by
        rw [UInt8.toNat_ofNat']
        omega
      have hfit : v * 2 ^ shift < 2 ^ width := by omega
      simp only [List.singleton_append, decodeGo, hb, and_128 v (by omega),
        Nat.shiftLeft_eq, Nat.mod_eq_of_lt hfit, or_mul_two_pow hacc]
      simp at hlast
      rw [if_pos (by omega), if_neg (by
        rw [Nat.div_eq_of_lt hv]
        simp)]
    · -- continuation byte: payload `v % 128`, then the rest of the value
      rw [encode_of_ge (by omega)] at hlast ⊢
      have hb : (UInt8.ofNat (v % 128 + 128)).toNat = v % 128 + 128 := by
        rw [UInt8.toNat_ofNat']
        omega
      have hlen := encode_ne_nil (v / 128)
      have hlen' : 0 < (encode (v / 128)).length := List.length_pos_iff.mpr hlen
      simp only [List.length_cons] at hlast
      have hlow : (v % 128) * 2 ^ shift ≤ v * 2 ^ shift :=
        Nat.mul_le_mul_right _ (Nat.mod_le v 128)
      have hfit : (v % 128) * 2 ^ shift < 2 ^ width := by omega
      have hacc' : acc + v % 128 * 2 ^ shift < 2 ^ (shift + 7) := by
        have : v % 128 < 128 := Nat.mod_lt v (by omega)
        rw [pow_add]
        nlinarith
      have hsplit : v * 2 ^ shift = v % 128 * 2 ^ shift + v / 128 * 2 ^ (shift + 7) := by
        rw [pow_add]
        have := Nat.div_add_mod v 128
        nlinarith
      have hnext := ih (v / 128) (by omega) (shift + 7) (acc + v % 128 * 2 ^ shift) hacc'
        (by omega) (by omega)
      have hpay : (v % 128 + 128) % 128 = v % 128 := by omega
      simp only [List.cons_append, decodeGo, hb, and_128 (v % 128 + 128) (by omega),
        and_127, hpay, Nat.shiftLeft_eq]
      rw [if_pos (by omega), if_pos (by omega), Nat.mod_eq_of_lt hfit, or_mul_two_pow hacc,
        hnext, hsplit, Nat.add_assoc]

/-- Round trip from the start of a varint: the decoder returns the value and
leaves exactly the bytes after it. -/
theorem decode_encode (width lastShift v : Nat) (rest : List UInt8)
    (hv : v < 2 ^ width) (hlast : 7 * ((encode v).length - 1) ≤ lastShift) :
    decodeGo width lastShift 0 0 (encode v ++ rest) = some (v, rest) := by
  have h := decodeGo_encode width lastShift rest v 0 0 (by simp) (by simpa using hv)
    (by simpa using hlast)
  simpa using h

end Varint

end ByteCoding
