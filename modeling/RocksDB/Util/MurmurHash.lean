import Mathlib
import RocksDB.Util.Coding

/-!
# `util/murmurhash.cc`: `MurmurHash64A`

`murmur_hash` hashes a `Slice` with `MurmurHash`, which on x86-64 is
`MurmurHash64A` with the seed `0`. The key is read as eight-byte words, each
mixed into the hash; the last `len % 8` bytes are xored in, and the hash is
mixed once more. The lock manager picks the stripe of a key with it.

## Design notes

* `*data++` is an unaligned load of a `uint64_t`, which on x86-64 is the
  little-endian `DecodeFixed64`.
* `len` is the `int` that `murmur_hash` casts the size of the `Slice` to, and
  `len * m` is computed in `uint64_t`: the model takes the length modulo
  `2 ^ 64`, which is `len` for every key shorter than `2 ^ 31` bytes.
-/

namespace RocksDB

/-- The loop of `MurmurHash64A` over the eight-byte words, from `data` to
`end`; returns the bytes left. -/
def murmurHashWords (m r : UInt64) : UInt64 → List UInt8 → UInt64 × List UInt8
  | h, b0 :: b1 :: b2 :: b3 :: b4 :: b5 :: b6 :: b7 :: rest =>
    let k := decodeFixed64 [b0, b1, b2, b3, b4, b5, b6, b7] * m
    let k := (k ^^^ (k >>> r)) * m
    murmurHashWords m r ((h ^^^ k) * m) rest
  | h, rest => (h, rest)

/-- The `switch (len & 7)` on the bytes left: byte `i` is xored in at bit
`8 * i`, from the last byte down, as the cases fall through to case 1, which
multiplies by `m`. -/
def murmurHashTail (m h : UInt64) : List UInt8 → UInt64
  | [] => h
  | data2 => (data2.zipIdx.foldr (fun (b, i) h => h ^^^ (b.toUInt64 <<< (8 * i).toUInt64)) h) * m

/-- `MurmurHash64A(key, len, seed)`. -/
def murmurHash64A (key : List UInt8) (seed : UInt32) : UInt64 :=
  let m : UInt64 := 0xc6a4a7935bd1e995
  let r : UInt64 := 47
  let (h, data2) := murmurHashWords m r (seed.toUInt64 ^^^ (key.length.toUInt64 * m)) key
  let h := murmurHashTail m h data2
  let h := (h ^^^ (h >>> r)) * m
  h ^^^ (h >>> r)

/-- `murmur_hash()(slice)`: `MurmurHash64A` with the seed `0`. -/
def murmurHash (slice : List UInt8) : UInt64 := murmurHash64A slice 0

example : murmurHash [] = 0 := by decide +kernel

example : murmurHash [0x61, 0x62, 0x63, 0x64, 0x65, 0x66, 0x67, 0x68, 0x69] =
    0xc9b9d84356146ac2 := by
  decide +kernel

/-- The word loop stops at `end = data + len / 8`: it leaves the last
`len % 8` bytes to the `switch`. -/
theorem murmurHashWords_snd (m r h : UInt64) (data : List UInt8) :
    (murmurHashWords m r h data).2 = data.drop (data.length / 8 * 8) := by
  fun_induction murmurHashWords m r h data with
  | case1 h b0 b1 b2 b3 b4 b5 b6 b7 rest k k' ih =>
    have hlen : (rest.length + 8) / 8 * 8 = rest.length / 8 * 8 + 8 := by omega
    simp only [List.length_cons, show rest.length + 1 + 1 + 1 + 1 + 1 + 1 + 1 + 1 =
      rest.length + 8 by omega, hlen, ih]
    rfl
  | case2 h rest hrest =>
    -- a list that does not start with eight bytes has fewer than eight
    have hlt : rest.length < 8 := by
      rcases rest with _ | ⟨b0, _ | ⟨b1, _ | ⟨b2, _ | ⟨b3, _ | ⟨b4, _ | ⟨b5, _ | ⟨b6, _ | ⟨b7, tail⟩⟩⟩⟩⟩⟩⟩⟩
      all_goals simp
      exact (hrest b0 b1 b2 b3 b4 b5 b6 b7 tail rfl).elim
    simp [Nat.div_eq_of_lt hlt]

end RocksDB
