import Mathlib
import RocksDB.Lib.ByteCoding

/-!
# `util/coding.h`: fixed-width and varint coding

The encoders and decoders every on-disk format of the engine is built from.
A `Slice` being consumed is the list of its remaining bytes, so a `Get*`
function returns the decoded value together with the rest of the input, and a
`Put*` function returns the grown destination string.

The fixed-width words are the little-endian words of `ByteCoding`; the varints
are `ByteCoding.Varint`, with the source's own bounds: `GetVarint32Ptr` reads at
most five bytes into a `uint32_t`, `GetVarint64Ptr` at most ten into a
`uint64_t`. The unrolled `EncodeVarint32` is proved to emit the same bytes as
the generic encoder (`encodeVarint32_eq`), and every decoder is proved to invert
its encoder in front of an arbitrary suffix.
-/

namespace RocksDB

open ByteCoding

/-- `EncodeFixed32`/`PutFixed32`: four little-endian bytes. -/
def encodeFixed32 (v : UInt32) : List UInt8 := leEncode 4 v.toNat

/-- `EncodeFixed64`/`PutFixed64`: eight little-endian bytes. -/
def encodeFixed64 (v : UInt64) : List UInt8 := leEncode 8 v.toNat

/-- `DecodeFixed32` on the first four bytes of its argument. -/
def decodeFixed32 (p : List UInt8) : UInt32 := UInt32.ofNat (leDecode (p.take 4))

/-- `DecodeFixed64` on the first eight bytes of its argument. -/
def decodeFixed64 (p : List UInt8) : UInt64 := UInt64.ofNat (leDecode (p.take 8))

def putFixed32 (dst : List UInt8) (v : UInt32) : List UInt8 := dst ++ encodeFixed32 v

def putFixed64 (dst : List UInt8) (v : UInt64) : List UInt8 := dst ++ encodeFixed64 v

/-- `EncodeVarint32`, unrolled by the byte count as in `coding.cc`; a store of a
`uint32_t` into a `char` keeps its low eight bits. -/
def encodeVarint32 (v : UInt32) : List UInt8 :=
  let v := v.toNat
  if v < 2 ^ 7 then [UInt8.ofNat v]
  else if v < 2 ^ 14 then [UInt8.ofNat (v ||| 128), UInt8.ofNat (v >>> 7)]
  else if v < 2 ^ 21 then
    [UInt8.ofNat (v ||| 128), UInt8.ofNat ((v >>> 7) ||| 128), UInt8.ofNat (v >>> 14)]
  else if v < 2 ^ 28 then
    [UInt8.ofNat (v ||| 128), UInt8.ofNat ((v >>> 7) ||| 128),
      UInt8.ofNat ((v >>> 14) ||| 128), UInt8.ofNat (v >>> 21)]
  else
    [UInt8.ofNat (v ||| 128), UInt8.ofNat ((v >>> 7) ||| 128),
      UInt8.ofNat ((v >>> 14) ||| 128), UInt8.ofNat ((v >>> 21) ||| 128),
      UInt8.ofNat (v >>> 28)]

/-- `EncodeVarint64`: its `while (v >= 128)` loop emits `(v & 127) | 128` and
shifts, which is the base-128 encoder of `ByteCoding.Varint`. -/
def encodeVarint64 (v : UInt64) : List UInt8 := Varint.encode v.toNat

def putVarint32 (dst : List UInt8) (v : UInt32) : List UInt8 := dst ++ encodeVarint32 v

def putVarint64 (dst : List UInt8) (v : UInt64) : List UInt8 := dst ++ encodeVarint64 v

def putVarint32Varint32 (dst : List UInt8) (v1 v2 : UInt32) : List UInt8 :=
  dst ++ encodeVarint32 v1 ++ encodeVarint32 v2

def putVarint32Varint64 (dst : List UInt8) (v1 : UInt32) (v2 : UInt64) : List UInt8 :=
  dst ++ encodeVarint32 v1 ++ encodeVarint64 v2

def putVarint64Varint64 (dst : List UInt8) (v1 v2 : UInt64) : List UInt8 :=
  dst ++ encodeVarint64 v1 ++ encodeVarint64 v2

def putVarint32Varint32Varint64 (dst : List UInt8) (v1 v2 : UInt32) (v3 : UInt64) :
    List UInt8 :=
  dst ++ encodeVarint32 v1 ++ encodeVarint32 v2 ++ encodeVarint64 v3

def putVarint32Varint32Varint32 (dst : List UInt8) (v1 v2 v3 : UInt32) : List UInt8 :=
  dst ++ encodeVarint32 v1 ++ encodeVarint32 v2 ++ encodeVarint32 v3

/-- `PutLengthPrefixedSlice`: the size, truncated to `uint32_t`, then the bytes. -/
def putLengthPrefixedSlice (dst value : List UInt8) : List UInt8 :=
  dst ++ encodeVarint32 (UInt32.ofNat value.length) ++ value

/-- `PutLengthPrefixedSliceParts`: the parts' total size, added up first and
truncated to `uint32_t`, then each part's bytes. -/
def putLengthPrefixedSliceParts (dst : List UInt8) (sliceParts : List (List UInt8)) :
    List UInt8 :=
  let totalBytes := (sliceParts.map List.length).foldl (· + ·) 0
  sliceParts.foldl (· ++ ·) (putVarint32 dst (UInt32.ofNat totalBytes))

/-- `GetVarint32PtrFallback`: at most five bytes, shifts `0, 7, …, 28`, the
accumulator a `uint32_t`. -/
def getVarint32PtrFallback (input : List UInt8) : Option (UInt32 × List UInt8) :=
  (Varint.decodeGo 32 28 0 0 input).map fun r => (UInt32.ofNat r.1, r.2)

/-- `GetVarint32Ptr`: a one-byte fast path in front of the fallback loop. -/
def getVarint32Ptr : List UInt8 → Option (UInt32 × List UInt8)
  | b :: rest =>
    if b.toNat &&& 128 = 0 then some (UInt32.ofNat b.toNat, rest)
    else getVarint32PtrFallback (b :: rest)
  | [] => getVarint32PtrFallback []

/-- `GetVarint64Ptr`: shifts `0, 7, …, 63`, the accumulator a `uint64_t`. -/
def getVarint64Ptr (input : List UInt8) : Option (UInt64 × List UInt8) :=
  (Varint.decodeGo 64 63 0 0 input).map fun r => (UInt64.ofNat r.1, r.2)

/-- `GetVarint32` advances the slice past the varint it reads. -/
def getVarint32 (input : List UInt8) : Option (UInt32 × List UInt8) := getVarint32Ptr input

def getVarint64 (input : List UInt8) : Option (UInt64 × List UInt8) := getVarint64Ptr input

def getFixed32 (input : List UInt8) : Option (UInt32 × List UInt8) :=
  if input.length < 4 then none else some (decodeFixed32 input, input.drop 4)

def getFixed64 (input : List UInt8) : Option (UInt64 × List UInt8) :=
  if input.length < 8 then none else some (decodeFixed64 input, input.drop 8)

/-- `GetLengthPrefixedSlice`: a varint32 length, then that many bytes if present. -/
def getLengthPrefixedSlice (input : List UInt8) : Option (List UInt8 × List UInt8) :=
  match getVarint32 input with
  | some (len, rest) =>
    if rest.length ≥ len.toNat then some (rest.take len.toNat, rest.drop len.toNat) else none
  | none => none

/-- A reader's loop of `n` calls of `GetLengthPrefixedSlice`: the slices read,
and what is left of the input. -/
def getLengthPrefixedSlices : Nat → List UInt8 → Option (List (List UInt8) × List UInt8)
  | 0, input => some ([], input)
  | n + 1, input =>
    match getLengthPrefixedSlice input with
    | some (slice, rest) =>
      (getLengthPrefixedSlices n rest).map fun r => (slice :: r.1, r.2)
    | none => none

/-- `GetLengthPrefixedSlice(const char* data)`: a varint32 length read from at
most five bytes, then that many bytes, with no bound check (an entry the
memtable wrote always holds them). -/
def getLengthPrefixedSlicePtr (data : List UInt8) : List UInt8 :=
  match getVarint32Ptr data with
  | some (len, rest) => rest.take len.toNat
  | none => []

/-- The loop of `VarintLength`, with the value as fuel. -/
def varintLengthGo : Nat → Nat → Nat
  | 0, _ => 1
  | fuel + 1, v => if v ≥ 128 then varintLengthGo fuel (v >>> 7) + 1 else 1

/-- `VarintLength`: one byte per started group of seven bits. -/
def varintLength (v : Nat) : Nat := varintLengthGo v v

/-! ## The unrolled encoder is the generic one -/

theorem ofNat_or_128 (v : Nat) : UInt8.ofNat (v ||| 128) = UInt8.ofNat (v % 128 + 128) := by
  have key : ∀ i : Fin 256, (i.val ||| 128) = i.val % 128 + 128 := by decide +kernel
  apply UInt8.toNat_inj.mp
  rw [UInt8.toNat_ofNat', UInt8.toNat_ofNat']
  have hor : (v ||| 128) % 2 ^ 8 = v % 2 ^ 8 ||| 128 := by
    rw [Nat.or_mod_two_pow]
  have hlow : v % 2 ^ 8 ||| 128 = v % 2 ^ 8 % 128 + 128 := key ⟨v % 2 ^ 8, by omega⟩
  rw [hor, hlow]
  omega

theorem encodeVarint32_eq (v : UInt32) : encodeVarint32 v = Varint.encode v.toNat := by
  have hv := v.toNat_lt
  simp only [encodeVarint32, Nat.shiftRight_eq_div_pow, ofNat_or_128]
  -- one `encode_of_ge` per continuation byte, `encode_of_lt` for the last one
  split_ifs with h1 h2 h3 h4
  · rw [Varint.encode_of_lt (by omega)]
  · rw [Varint.encode_of_ge (by omega), Varint.encode_of_lt (by omega)]
  · rw [Varint.encode_of_ge (by omega), Varint.encode_of_ge (by omega),
      Varint.encode_of_lt (by omega)]
    simp only [Nat.div_div_eq_div_mul]
  · rw [Varint.encode_of_ge (by omega), Varint.encode_of_ge (by omega),
      Varint.encode_of_ge (by omega), Varint.encode_of_lt (by omega)]
    simp only [Nat.div_div_eq_div_mul]
  · rw [Varint.encode_of_ge (by omega), Varint.encode_of_ge (by omega),
      Varint.encode_of_ge (by omega), Varint.encode_of_ge (by omega),
      Varint.encode_of_lt (by omega)]
    simp only [Nat.div_div_eq_div_mul]

theorem encodeVarint32_length_le (v : UInt32) : (encodeVarint32 v).length ≤ 5 := by
  rw [encodeVarint32_eq]
  exact Varint.encode_length_le 5 _ (by norm_num) (by have := v.toNat_lt; omega)

theorem encodeVarint64_length_le (v : UInt64) : (encodeVarint64 v).length ≤ 10 :=
  Varint.encode_length_le 10 _ (by norm_num) (by have := v.toNat_lt; omega)

/-! ## Round trips -/

theorem getVarint32PtrFallback_encode (v : UInt32) (rest : List UInt8) :
    getVarint32PtrFallback (encodeVarint32 v ++ rest) = some (v, rest) := by
  have hlen := encodeVarint32_length_le v
  rw [getVarint32PtrFallback, encodeVarint32_eq] at *
  rw [Varint.decode_encode 32 28 _ _ v.toNat_lt (by omega)]
  simp

theorem getVarint32_encode (v : UInt32) (rest : List UInt8) :
    getVarint32 (encodeVarint32 v ++ rest) = some (v, rest) := by
  unfold getVarint32
  cases h : encodeVarint32 v with
  | nil => simp [encodeVarint32] at h; split_ifs at h
  | cons b bs =>
    have hfb := getVarint32PtrFallback_encode v rest
    rw [h] at hfb
    simp only [List.cons_append, getVarint32Ptr]
    split
    · -- the fast path agrees with the loop on a one-byte varint
      rename_i hb
      have hb' : b.toNat < 128 := by
        have := Varint.and_128 b.toNat b.toNat_lt
        omega
      have hrun : Varint.decodeGo 32 28 0 0 (b :: (bs ++ rest)) =
          some (b.toNat, bs ++ rest) := by
        simp [Varint.decodeGo, hb]
      simp only [getVarint32PtrFallback, List.cons_append, hrun, Option.map_some] at hfb
      exact hfb
    · exact hfb

/-- `GetVarint32Ptr` reads at least one byte. -/
theorem length_lt_of_getVarint32Ptr {input rest : List UInt8} {v : UInt32}
    (h : getVarint32Ptr input = some (v, rest)) : rest.length < input.length := by
  cases input with
  | nil => simp [getVarint32Ptr, getVarint32PtrFallback, Varint.decodeGo] at h
  | cons b bs =>
    simp only [getVarint32Ptr] at h
    split at h
    · cases h
      simp
    · simp only [getVarint32PtrFallback, Option.map_eq_some_iff] at h
      obtain ⟨⟨w, rest'⟩, hgo, hw⟩ := h
      cases hw
      exact Varint.length_lt_of_decodeGo hgo

/-- A byte below 128 is a varint32 by itself. -/
theorem getVarint32Ptr_cons_of_lt {b : UInt8} (hb : b.toNat < 128) (rest : List UInt8) :
    getVarint32Ptr (b :: rest) = some (b.toUInt32, rest) := by
  have hand : b.toNat &&& 128 = 0 := by
    rw [Varint.and_128 b.toNat b.toNat_lt, Nat.div_eq_of_lt hb, zero_mul]
  have hcast : UInt32.ofNat b.toNat = b.toUInt32 := by
    apply UInt32.toNat_inj.mp
    rw [UInt32.toNat_ofNat', UInt8.toNat_toUInt32, Nat.mod_eq_of_lt (by omega)]
  simp only [getVarint32Ptr, if_pos hand, hcast]

theorem getVarint64_encode (v : UInt64) (rest : List UInt8) :
    getVarint64 (encodeVarint64 v ++ rest) = some (v, rest) := by
  have hlen := encodeVarint64_length_le v
  rw [getVarint64, getVarint64Ptr, encodeVarint64] at *
  rw [Varint.decode_encode 64 63 _ _ v.toNat_lt (by omega)]
  simp

/-! ## Varint lengths -/

/-- The loop of `VarintLength` counts the bytes of the encoder, given enough fuel. -/
theorem varintLengthGo_eq {f v : Nat} (hf : v ≤ f) :
    varintLengthGo f v = (Varint.encode v).length := by
  induction f generalizing v with
  | zero =>
    obtain rfl : v = 0 := by omega
    rfl
  | succ f ih =>
    rw [varintLengthGo]
    split
    · rename_i hv
      have hdiv : v >>> 7 = v / 128 := Nat.shiftRight_eq_div_pow v 7
      rw [Varint.encode_of_ge hv, List.length_cons, hdiv, ih (by omega)]
    · rw [Varint.encode_of_lt (by omega)]
      rfl

theorem varintLength_eq (v : Nat) : varintLength v = (Varint.encode v).length :=
  varintLengthGo_eq le_rfl

/-- The varint64 codec: the decoder reads back the value, stops right after the
`VarintLength(v)` bytes of its encoding, and those are at most ten. -/
theorem varint64_roundTrip (v : UInt64) (r : List UInt8) :
    getVarint64Ptr (encodeVarint64 v ++ r) = some (v, r) ∧
      (encodeVarint64 v).length = varintLength v.toNat ∧ varintLength v.toNat ≤ 10 := by
  have hlen : (encodeVarint64 v).length = varintLength v.toNat := by
    rw [varintLength_eq, encodeVarint64]
  refine ⟨getVarint64_encode v r, hlen, ?_⟩
  rw [← hlen]
  exact encodeVarint64_length_le v

/-- The unrolled `EncodeVarint32` emits the bytes of `EncodeVarint64` on the same
value. -/
theorem encodeVarint32_eq_encodeVarint64 (v : UInt32) :
    encodeVarint32 v = encodeVarint64 v.toUInt64 := by
  rw [encodeVarint32_eq, encodeVarint64, UInt32.toNat_toUInt64]

/-- Both varint codecs, with `VarintLength` as the number of bytes consumed: every
`uint64_t` reads back from in front of any suffix after at most ten bytes, every
`uint32_t` after at most five, and the unrolled 32-bit encoder agrees with the
64-bit loop. -/
theorem varint_codec_roundTrip :
    (∀ (v : UInt64) (r : List UInt8), getVarint64Ptr (encodeVarint64 v ++ r) = some (v, r) ∧
        (encodeVarint64 v).length = varintLength v.toNat ∧ varintLength v.toNat ≤ 10) ∧
      ∀ (v : UInt32) (r : List UInt8), getVarint32Ptr (encodeVarint32 v ++ r) = some (v, r) ∧
        (encodeVarint32 v).length = varintLength v.toNat ∧ varintLength v.toNat ≤ 5 ∧
        encodeVarint32 v = encodeVarint64 v.toUInt64 := by
  refine ⟨varint64_roundTrip, fun v r => ?_⟩
  have h64 : encodeVarint32 v = encodeVarint64 v.toUInt64 := encodeVarint32_eq_encodeVarint64 v
  have hlen : (encodeVarint32 v).length = varintLength v.toNat := by
    rw [h64, (varint64_roundTrip v.toUInt64 r).2.1, UInt32.toNat_toUInt64]
  refine ⟨getVarint32_encode v r, hlen, ?_, h64⟩
  rw [← hlen]
  exact encodeVarint32_length_le v

@[simp] theorem encodeFixed32_length (v : UInt32) : (encodeFixed32 v).length = 4 :=
  leEncode_length 4 _

@[simp] theorem encodeFixed64_length (v : UInt64) : (encodeFixed64 v).length = 8 :=
  leEncode_length 8 _

/-- A fixed32 word reads back from the front of any string that starts with it. -/
theorem decodeFixed32_encode (v : UInt32) (rest : List UInt8) :
    decodeFixed32 (encodeFixed32 v ++ rest) = v := by
  have hword : leDecode (encodeFixed32 v) = v.toNat := by
    rw [encodeFixed32, leDecode_leEncode, Nat.mod_eq_of_lt (by have := v.toNat_lt; omega)]
  rw [decodeFixed32, List.take_append_of_le_length (by simp), List.take_of_length_le (by simp),
    hword]
  simp

/-- Encoding the word read from the front of a string gives back its first four bytes. -/
theorem encodeFixed32_decodeFixed32 {p : List UInt8} (hp : 4 ≤ p.length) :
    encodeFixed32 (decodeFixed32 p) = p.take 4 := by
  have hlen : (p.take 4).length = 4 := by simp; omega
  have hlt := leDecode_lt (p.take 4)
  rw [hlen] at hlt
  rw [encodeFixed32, decodeFixed32, UInt32.toNat_ofNat_of_lt' (by rw [UInt32.size]; omega)]
  conv_rhs => rw [← leEncode_leDecode (p.take 4), hlen]

theorem encodeFixed64_decodeFixed64 {p : List UInt8} (hp : 8 ≤ p.length) :
    encodeFixed64 (decodeFixed64 p) = p.take 8 := by
  have hlen : (p.take 8).length = 8 := by simp; omega
  have hlt := leDecode_lt (p.take 8)
  rw [hlen] at hlt
  rw [encodeFixed64, decodeFixed64, UInt64.toNat_ofNat_of_lt' (by rw [UInt64.size]; omega)]
  conv_rhs => rw [← leEncode_leDecode (p.take 8), hlen]

/-- Four zero bytes or more read as the word zero. -/
theorem decodeFixed32_replicate_zero {n : Nat} (hn : 4 ≤ n) (rest : List UInt8) :
    decodeFixed32 (List.replicate n 0 ++ rest) = 0 := by
  obtain ⟨m, rfl⟩ := Nat.exists_eq_add_of_le hn
  rw [List.replicate_add, List.append_assoc, show List.replicate 4 (0 : UInt8) = encodeFixed32 0
    from rfl, decodeFixed32_encode]

theorem decodeFixed64_encode (v : UInt64) (rest : List UInt8) :
    decodeFixed64 (encodeFixed64 v ++ rest) = v := by
  have hword : leDecode (encodeFixed64 v) = v.toNat := by
    rw [encodeFixed64, leDecode_leEncode, Nat.mod_eq_of_lt (by have := v.toNat_lt; omega)]
  rw [decodeFixed64, List.take_append_of_le_length (by simp), List.take_of_length_le (by simp),
    hword]
  simp

theorem getFixed32_encode (v : UInt32) (rest : List UInt8) :
    getFixed32 (encodeFixed32 v ++ rest) = some (v, rest) := by
  rw [getFixed32, if_neg (by simp), decodeFixed32_encode,
    List.drop_append_of_le_length (by simp), List.drop_of_length_le (by simp)]
  simp

theorem getFixed64_encode (v : UInt64) (rest : List UInt8) :
    getFixed64 (encodeFixed64 v ++ rest) = some (v, rest) := by
  rw [getFixed64, if_neg (by simp), decodeFixed64_encode,
    List.drop_append_of_le_length (by simp), List.drop_of_length_le (by simp)]
  simp

/-- `PutFixed32` of each word in turn appends their encodings. -/
theorem foldl_putFixed32 (words : List UInt32) (dst : List UInt8) :
    words.foldl putFixed32 dst = dst ++ words.flatMap encodeFixed32 := by
  induction words generalizing dst with
  | nil => simp
  | cons w words ih => rw [List.foldl_cons, ih, putFixed32, List.flatMap_cons, List.append_assoc]

/-- Word `j` of an array of fixed32 words reads back at byte `4 * j`. -/
theorem decodeFixed32_drop_flatMap (words : List UInt32) (rest : List UInt8) {j : Nat}
    (hj : j < words.length) :
    decodeFixed32 ((words.flatMap encodeFixed32 ++ rest).drop (4 * j)) = words[j] := by
  induction words generalizing j with
  | nil => cases hj
  | cons w words ih =>
    cases j with
    | zero => simpa [List.flatMap_cons, List.append_assoc] using decodeFixed32_encode w _
    | succ j =>
      have hdrop : ∀ l : List UInt8, l.drop (4 * (j + 1)) = (l.drop 4).drop (4 * j) := by
        intro l
        rw [List.drop_drop]
        congr 1
        omega
      rw [List.flatMap_cons, List.append_assoc, hdrop, List.drop_left' (encodeFixed32_length w)]
      exact ih (by simpa using hj)

/-- A length-prefixed slice reads back as itself, whatever follows it, as long
as its length fits the `uint32_t` prefix. -/
theorem getLengthPrefixedSlice_put (value rest : List UInt8) (h : value.length < 2 ^ 32) :
    getLengthPrefixedSlice (putLengthPrefixedSlice [] value ++ rest) = some (value, rest) := by
  have hlen : (UInt32.ofNat value.length).toNat = value.length := by
    rw [UInt32.toNat_ofNat']
    exact Nat.mod_eq_of_lt h
  simp only [putLengthPrefixedSlice, List.nil_append, List.append_assoc,
    getLengthPrefixedSlice, getVarint32_encode, hlen]
  simp

/-- The `const char*` reader takes back a length-prefixed slice, whatever
follows it. -/
theorem getLengthPrefixedSlicePtr_put (value rest : List UInt8) (h : value.length < 2 ^ 32) :
    getLengthPrefixedSlicePtr (putLengthPrefixedSlice [] value ++ rest) = value := by
  have hlen : (UInt32.ofNat value.length).toNat = value.length := by
    rw [UInt32.toNat_ofNat']
    exact Nat.mod_eq_of_lt h
  have hget := getVarint32_encode (UInt32.ofNat value.length) (value ++ rest)
  simp only [getVarint32] at hget
  simp [getLengthPrefixedSlicePtr, putLengthPrefixedSlice, List.append_assoc, hget, hlen]

/-- Each `PutLengthPrefixedSlice` appends the same bytes, whatever is already in
the destination. -/
theorem foldl_putLengthPrefixedSlice (xs : List (List UInt8)) (dst : List UInt8) :
    xs.foldl putLengthPrefixedSlice dst = dst ++ xs.flatMap (putLengthPrefixedSlice []) := by
  induction xs generalizing dst with
  | nil => simp
  | cons x xs ih =>
    rw [List.foldl_cons, ih, List.flatMap_cons, putLengthPrefixedSlice, putLengthPrefixedSlice]
    simp

/-- `n` reads of length-prefixed slices take back, in order, the `n` slices that
were put, and stop in front of whatever followed them. -/
theorem getLengthPrefixedSlices_flatMap (xs : List (List UInt8)) (rest : List UInt8)
    (hxs : ∀ x ∈ xs, x.length < 2 ^ 32) :
    getLengthPrefixedSlices xs.length (xs.flatMap (putLengthPrefixedSlice []) ++ rest) =
      some (xs, rest) := by
  induction xs with
  | nil => rfl
  | cons x xs ih =>
    have hx : x.length < 2 ^ 32 := hxs x (by simp)
    have ht : ∀ y ∈ xs, y.length < 2 ^ 32 := fun y hy => hxs y (by simp [hy])
    rw [List.length_cons, List.flatMap_cons, List.append_assoc, getLengthPrefixedSlices,
      getLengthPrefixedSlice_put x _ hx]
    simp only [ih ht, Option.map_some]

/-- `PutLengthPrefixedSliceParts` is `PutLengthPrefixedSlice` of the parts
joined: its separately summed size is the joined size. -/
theorem putLengthPrefixedSliceParts_eq (dst : List UInt8) (sliceParts : List (List UInt8)) :
    putLengthPrefixedSliceParts dst sliceParts =
      putLengthPrefixedSlice dst sliceParts.flatten := by
  have htotal : (sliceParts.map List.length).foldl (· + ·) 0 = sliceParts.flatten.length := by
    rw [List.foldl_eq_foldr, List.length_flatten]
    rfl
  have hparts : ∀ acc : List UInt8, sliceParts.foldl (· ++ ·) acc = acc ++ sliceParts.flatten :=
    fun acc => by
      simpa using (List.foldl_append_eq_append (l := sliceParts) (f := id) :
        sliceParts.foldl _ acc = _)
  rw [putLengthPrefixedSliceParts, htotal, hparts, putLengthPrefixedSlice, putVarint32]

/-- Length-prefixed slices in sequence: as many reads as slices were put take
them all back in order and leave nothing of the input, and the `SliceParts`
writer emits the bytes of the single-slice writer on the joined parts. -/
theorem lengthPrefixedSlices_roundTrip :
    (∀ xs : List (List UInt8), (∀ x ∈ xs, x.length < 2 ^ 32) →
        getLengthPrefixedSlices xs.length (xs.foldl putLengthPrefixedSlice []) = some (xs, [])) ∧
      ∀ (dst : List UInt8) (sliceParts : List (List UInt8)),
        putLengthPrefixedSliceParts dst sliceParts =
          putLengthPrefixedSlice dst sliceParts.flatten := by
  refine ⟨fun xs hxs => ?_, putLengthPrefixedSliceParts_eq⟩
  rw [foldl_putLengthPrefixedSlice, List.nil_append,
    ← getLengthPrefixedSlices_flatMap xs [] hxs, List.append_nil]

theorem lengthPrefixedSlices_roundTrip_sample :
    getLengthPrefixedSlices 2 ([[1, 2], [3]].foldl putLengthPrefixedSlice []) =
      some ([[1, 2], [3]], []) :=
  lengthPrefixedSlices_roundTrip.1 [[1, 2], [3]] (by decide)

end RocksDB
