import Mathlib
import RocksDB.Util.Coding
import RocksDB.Lib.BitArray

/-!
# Bloom filters (`util/hash.cc`, `util/bloom.cc`)

`Hash` is the Murmur-like hash of a byte string that every Bloom filter probes
with (`BloomHash` is it with the seed `0xbc9f1d34`). A filter sets, for each key,
the bits of a probe sequence `h, h + delta, h + 2 * delta, ...` with
`delta = h` rotated right by 17 bits, and a key may match when all the bits of
its probe sequence are set.

* `FullFilterBitsBuilder` / `FullFilterBitsReader`: the full filter. The bits
  are cut into cache lines of `CACHE_LINE_SIZE` bytes; every probe of a key lies
  in the line `h % num_lines`. The filter ends with a five-byte trailer, the
  number of probes and then the number of lines.
* `BloomFilterPolicy::CreateFilter` / `KeyMayMatch`: the filter of the
  block-based format, one bit array over all its bytes, followed by the number
  of probes.

## Main results

* `FullFilterBitsBuilder.mayMatch_finish_of_mem`: the reader of a finished
  full filter matches every key whose hash the builder holds, when the number of
  hashes is not a multiple of `2 ^ 32`.
* `fullFilter_no_false_negatives`: a full filter of fewer than `2 ^ 32` keys
  matches all of them; `fullFilter_misses_keys_at_two_pow_32_hashes`: with
  `2 ^ 32` hashes `Finish` writes an empty filter, which matches no key.
* `BloomFilterPolicy.keyMayMatch_createFilter`: a block-based Bloom filter
  matches every key it was built from.

## Design notes

* `CACHE_LINE_SIZE` is 64, its value on x86-64.
* The builder keeps the filter bits and the trailer apart: every probe position
  lies below `total_bits`, so `AddHash` never writes into the trailer.
* The readers take the probe count byte as unsigned. `BloomFilterPolicy` treats
  every count above 30 as a match either way; the full filter reader would
  sign-extend a count byte of 128 or more, which no builder writes.
-/

namespace RocksDB

/-! ## `Hash` -/

/-- `static_cast<uint32_t>(static_cast<int8_t>(c))`: a byte, sign-extended. -/
def signExtend (c : UInt8) : UInt32 :=
  if c < 128 then c.toUInt32 else c.toUInt32 + 0xffffff00

/-- The loop of `Hash` over the four-byte words; returns the bytes left. -/
def hashWords (m : UInt32) : UInt32 → List UInt8 → UInt32 × List UInt8
  | h, b0 :: b1 :: b2 :: b3 :: rest =>
    let w := decodeFixed32 [b0, b1, b2, b3]
    let h := (h + w) * m
    hashWords m (h ^^^ (h >>> 16)) rest
  | h, rest => (h, rest)

/-- `Hash(data, n, seed)`. -/
def hash (data : List UInt8) (seed : UInt32) : UInt32 :=
  let m : UInt32 := 0xc6a4a793
  let r : UInt32 := 24
  let mix (h : UInt32) : UInt32 :=
    let h := h * m
    h ^^^ (h >>> r)
  match hashWords m (seed ^^^ (UInt32.ofNat data.length * m)) data with
  -- the `switch` on the bytes left falls through from case 3 to case 1
  | (h, [d0, d1, d2]) => mix (h + (signExtend d2 <<< 16) + (signExtend d1 <<< 8) + signExtend d0)
  | (h, [d0, d1]) => mix (h + (signExtend d1 <<< 8) + signExtend d0)
  | (h, [d0]) => mix (h + signExtend d0)
  | (h, _) => h

/-- `BloomHash(key)`. -/
def bloomHash (key : List UInt8) : UInt32 := hash key 0xbc9f1d34

/-- `(h >> 17) | (h << 15)`: `h` rotated right by 17 bits, the step between
probes. -/
def bloomDelta (h : UInt32) : UInt32 := (h >>> 17) ||| (h <<< 15)

/-! ## The full filter -/

/-- `CACHE_LINE_SIZE`. -/
def CACHE_LINE_SIZE : UInt32 := 64

/-- `FullFilterBitsBuilder`: its parameters and `hash_entries_`. -/
structure FullFilterBitsBuilder where
  bitsPerKey : Nat
  numProbes : Nat
  hashEntries : List UInt32
  deriving DecidableEq, Repr

namespace FullFilterBitsBuilder

def create (bitsPerKey numProbes : Nat) : FullFilterBitsBuilder := ⟨bitsPerKey, numProbes, []⟩

/-- `AddKey`: the key's hash, unless it repeats the last one. -/
def addKey (b : FullFilterBitsBuilder) (key : List UInt8) : FullFilterBitsBuilder :=
  let hash := bloomHash key
  if b.hashEntries.length = 0 ∨ some hash ≠ b.hashEntries.getLast? then
    { b with hashEntries := b.hashEntries ++ [hash] }
  else b

/-- `GetTotalBitsForLocality`: whole cache lines, an odd number of them. -/
def getTotalBitsForLocality (totalBits : UInt32) : UInt32 :=
  let numLines := (totalBits + CACHE_LINE_SIZE * 8 - 1) / (CACHE_LINE_SIZE * 8)
  let numLines := if numLines % 2 = 0 then numLines + 1 else numLines
  numLines * (CACHE_LINE_SIZE * 8)

/-- `CalculateSpace(num_entry, &total_bits, &num_lines)`: the size to reserve,
`total_bits` and `num_lines`. -/
def calculateSpace (b : FullFilterBitsBuilder) (numEntry : Int32) : UInt32 × UInt32 × UInt32 :=
  let (totalBits, numLines) : UInt32 × UInt32 :=
    if numEntry ≠ 0 then
      let totalBitsTmp := numEntry.toUInt32 * UInt32.ofNat b.bitsPerKey
      let totalBits := getTotalBitsForLocality totalBitsTmp
      (totalBits, totalBits / (CACHE_LINE_SIZE * 8))
    -- the filter is empty: room for the metadata only
    else (0, 0)
  (totalBits / 8 + 5, totalBits, numLines)

/-- `AddHash(h, data, num_lines, total_bits)`: the probes of `h`, all in the
cache line `h % num_lines`. -/
def addHash (b : FullFilterBitsBuilder) (h : UInt32) (data : List UInt8) (numLines : UInt32) :
    List UInt8 :=
  let line := (h % numLines) * (CACHE_LINE_SIZE * 8)
  BitArray.probeSet (fun h => (line + h % (CACHE_LINE_SIZE * 8)).toNat) (bloomDelta h)
    b.numProbes h data

/-- `Finish`: the filter bits, the number of probes and the number of lines;
`hash_entries_` is cleared. -/
def finish (b : FullFilterBitsBuilder) : List UInt8 × FullFilterBitsBuilder :=
  let (_, totalBits, numLines) := b.calculateSpace (Int32.ofNat b.hashEntries.length)
  let data := List.replicate (totalBits / 8).toNat 0
  let data :=
    if totalBits ≠ 0 ∧ numLines ≠ 0 then
      b.hashEntries.foldl (fun data h => b.addHash h data numLines) data
    else data
  (data ++ UInt8.ofNat b.numProbes :: encodeFixed32 numLines, { b with hashEntries := [] })

end FullFilterBitsBuilder

/-- `FullFilterBitsReader`: the filter and its metadata. -/
structure FullFilterBitsReader where
  data : List UInt8
  dataLen : UInt32
  numProbes : Nat
  numLines : UInt32
  deriving DecidableEq, Repr

namespace FullFilterBitsReader

/-- `GetFilterMeta`: the number of probes and of lines, both 0 for a filter of
at most five bytes. -/
def getFilterMeta (filter : List UInt8) : Nat × UInt32 :=
  let len := UInt32.ofNat filter.length
  if len ≤ 5 then (0, 0)
  else ((filter.getD (len - 5).toNat 0).toNat, decodeFixed32 (filter.drop (len - 4).toNat))

/-- `FullFilterBitsReader(contents)`, which clears metadata that does not
divide the filter into lines. -/
def create (contents : List UInt8) : FullFilterBitsReader :=
  let (numProbes, numLines) := getFilterMeta contents
  let dataLen := UInt32.ofNat contents.length
  if numLines ≠ 0 ∧ (dataLen - 5) % numLines ≠ 0 then ⟨contents, dataLen, 0, 0⟩
  else ⟨contents, dataLen, numProbes, numLines⟩

/-- `HashMayMatch(hash, filter, num_probes, num_lines)`, which reads the cache
line size off the filter's length. -/
def hashMayMatch (hash : UInt32) (filter : List UInt8) (numProbes : Nat) (numLines : UInt32) :
    Bool :=
  let len := UInt32.ofNat filter.length
  if len ≤ 5 then false
  else
    let cacheLineSize := (len - 5) / numLines
    let line := (hash % numLines) * (cacheLineSize * 8)
    BitArray.probeTest filter (fun h => (line + h % (cacheLineSize * 8)).toNat) (bloomDelta hash)
      numProbes hash

/-- `MayMatch(entry)`: never for an empty filter, always for broken metadata. -/
def mayMatch (r : FullFilterBitsReader) (entry : List UInt8) : Bool :=
  if r.dataLen ≤ 5 then false
  else if r.numProbes = 0 ∨ r.numLines = 0 then true
  else hashMayMatch (bloomHash entry) r.data r.numProbes r.numLines

end FullFilterBitsReader

/-! ## Reading back a full filter -/

namespace FullFilterBitsBuilder

/-! ### Hash entries -/

@[simp] theorem numProbes_addKey (b : FullFilterBitsBuilder) (key : List UInt8) :
    (b.addKey key).numProbes = b.numProbes := by
  unfold addKey; dsimp only; split <;> rfl

@[simp] theorem bitsPerKey_addKey (b : FullFilterBitsBuilder) (key : List UInt8) :
    (b.addKey key).bitsPerKey = b.bitsPerKey := by
  unfold addKey; dsimp only; split <;> rfl

/-- `AddKey` appends at most the key's hash, and leaves it the last entry. -/
theorem hashEntries_addKey (b : FullFilterBitsBuilder) (key : List UInt8) :
    (b.addKey key).hashEntries = b.hashEntries ∨
      ((b.addKey key).hashEntries = b.hashEntries ++ [bloomHash key]) := by
  unfold addKey; dsimp only; split
  · exact .inr rfl
  · exact .inl rfl

theorem bloomHash_mem_addKey (b : FullFilterBitsBuilder) (key : List UInt8) :
    bloomHash key ∈ (b.addKey key).hashEntries := by
  unfold addKey
  dsimp only
  split
  · simp
  · rename_i hrep
    -- the hash was not appended because it is already the last entry
    push Not at hrep
    exact List.mem_of_getLast? hrep.2.symm

theorem hashEntries_isPrefix_foldl_addKey (keys : List (List UInt8)) (b : FullFilterBitsBuilder) :
    b.hashEntries <+: (keys.foldl addKey b).hashEntries := by
  induction keys generalizing b with
  | nil => exact List.prefix_refl _
  | cons key keys ih =>
    refine List.IsPrefix.trans ?_ (ih (b.addKey key))
    rcases hashEntries_addKey b key with h | h
    · exact h ▸ List.prefix_refl _
    · exact h ▸ List.prefix_append _ _

theorem mem_foldl_addKey {keys : List (List UInt8)} {key : List UInt8} (hkey : key ∈ keys)
    (b : FullFilterBitsBuilder) : bloomHash key ∈ (keys.foldl addKey b).hashEntries := by
  induction keys generalizing b with
  | nil => cases hkey
  | cons k keys ih =>
    rcases List.mem_cons.mp hkey with rfl | hmem
    · exact (hashEntries_isPrefix_foldl_addKey keys (b.addKey key)).subset (bloomHash_mem_addKey b key)
    · exact ih hmem (b.addKey k)

theorem length_foldl_addKey_le (keys : List (List UInt8)) (b : FullFilterBitsBuilder) :
    (keys.foldl addKey b).hashEntries.length ≤ b.hashEntries.length + keys.length := by
  induction keys generalizing b with
  | nil => simp
  | cons key keys ih =>
    have hstep : (b.addKey key).hashEntries.length ≤ b.hashEntries.length + 1 := by
      rcases hashEntries_addKey b key with h | h <;> simp [h]
    have := ih (b.addKey key)
    simp only [List.foldl_cons, List.length_cons]
    omega

@[simp] theorem numProbes_foldl_addKey (keys : List (List UInt8)) (b : FullFilterBitsBuilder) :
    (keys.foldl addKey b).numProbes = b.numProbes := by
  induction keys generalizing b with
  | nil => rfl
  | cons key keys ih => rw [List.foldl_cons, ih, numProbes_addKey]


/-! ### Space -/

theorem getTotalBitsForLocality_spec (t : UInt32) :
    ∃ nl : Nat, 0 < nl ∧ nl < 2 ^ 23 ∧ (getTotalBitsForLocality t).toNat = nl * 512 := by
  have hx := UInt32.toNat_lt (t + CACHE_LINE_SIZE * 8 - 1)
  have hn0 : ((t + CACHE_LINE_SIZE * 8 - 1) / (CACHE_LINE_SIZE * 8)).toNat =
      (t + CACHE_LINE_SIZE * 8 - 1).toNat / 512 := by
    rw [UInt32.toNat_div]; rfl
  unfold getTotalBitsForLocality
  dsimp only
  generalize (t + CACHE_LINE_SIZE * 8 - 1) / (CACHE_LINE_SIZE * 8) = n0 at hn0
  split_ifs with heven
  · have he : n0.toNat % 2 = 0 := by simpa [UInt32.toNat_mod] using congrArg UInt32.toNat heven
    refine ⟨n0.toNat + 1, by omega, by omega, ?_⟩
    rw [UInt32.toNat_mul, UInt32.toNat_add]
    show (n0.toNat + 1) % 2 ^ 32 * 512 % 2 ^ 32 = (n0.toNat + 1) * 512
    omega
  · refine ⟨n0.toNat, ?_, by omega, ?_⟩
    · have he : n0.toNat % 2 ≠ 0 := fun h0 =>
        heven (UInt32.toNat_inj.mp (by simpa [UInt32.toNat_mod] using h0))
      omega
    · rw [UInt32.toNat_mul]
      show n0.toNat * 512 % 2 ^ 32 = n0.toNat * 512
      omega

/-- A filter of `num_entry ≠ 0` keys has a positive number of lines, whose bits
still count in 32 bits. -/
theorem calculateSpace_of_ne_zero (b : FullFilterBitsBuilder) {numEntry : Int32}
    (h : numEntry ≠ 0) :
    ∃ nl : Nat, 0 < nl ∧ nl < 2 ^ 23 ∧ (b.calculateSpace numEntry).2.1.toNat = nl * 512 ∧
      (b.calculateSpace numEntry).2.2.toNat = nl := by
  obtain ⟨nl, hpos, hlt, htot⟩ :=
    getTotalBitsForLocality_spec (numEntry.toUInt32 * UInt32.ofNat b.bitsPerKey)
  refine ⟨nl, hpos, hlt, ?_, ?_⟩
  · simp only [calculateSpace, if_pos h]
    exact htot
  · simp only [calculateSpace, if_pos h, UInt32.toNat_div, htot]
    show nl * 512 / 512 = nl
    omega

theorem calculateSpace_zero (b : FullFilterBitsBuilder) : b.calculateSpace 0 = (5, 0, 0) := by
  simp [calculateSpace]

end FullFilterBitsBuilder

namespace FullFilterBitsReader

/-- The metadata of a filter of `64 * num_lines` bytes of bits and its trailer
read back. -/
theorem create_of_trailer (bits : List UInt8) (numProbes : Nat) (numLines : UInt32)
    (hprobes : numProbes < 256) (hlen : bits.length = numLines.toNat * 64)
    (hlines : 0 < numLines.toNat)
    (hlt : bits.length + 5 < 2 ^ 32) :
    create (bits ++ UInt8.ofNat numProbes :: encodeFixed32 numLines) =
      ⟨bits ++ UInt8.ofNat numProbes :: encodeFixed32 numLines, UInt32.ofNat (bits.length + 5),
        numProbes, numLines⟩ := by
  have htotal :
      (bits ++ UInt8.ofNat numProbes :: encodeFixed32 numLines).length = bits.length + 5 := by
    simp
  have hlen32 : (UInt32.ofNat (bits.length + 5)).toNat = bits.length + 5 :=
    UInt32.toNat_ofNat_of_lt' hlt
  have hmeta : getFilterMeta (bits ++ UInt8.ofNat numProbes :: encodeFixed32 numLines) =
      (numProbes, numLines) := by
    have hgt : ¬ UInt32.ofNat (bits.length + 5) ≤ 5 := by
      rw [UInt32.le_iff_toNat_le, hlen32]
      show ¬ bits.length + 5 ≤ 5
      omega
    have h5 : (UInt32.ofNat (bits.length + 5) - 5).toNat = bits.length := by
      rw [UInt32.toNat_sub_of_le _ _ (by rw [UInt32.le_iff_toNat_le, hlen32]; simp), hlen32]; simp
    have h4 : (UInt32.ofNat (bits.length + 5) - 4).toNat = bits.length + 1 := by
      rw [UInt32.toNat_sub_of_le _ _ (by rw [UInt32.le_iff_toNat_le, hlen32]; simp), hlen32]
      simp
    have hword : decodeFixed32 (encodeFixed32 numLines) = numLines := by
      simpa using decodeFixed32_encode numLines []
    simp only [getFilterMeta, htotal, if_neg hgt, h5, h4]
    rw [List.getD_append_right _ _ _ _ le_rfl, Nat.sub_self, List.drop_append,
      List.drop_eq_nil_of_le (by omega), show bits.length + 1 - bits.length = 1 by omega]
    simp [hword, Nat.mod_eq_of_lt hprobes]
  have hdiv : (UInt32.ofNat (bits.length + 5) - 5) % numLines = 0 := by
    apply UInt32.toNat_inj.mp
    rw [UInt32.toNat_mod, UInt32.toNat_sub_of_le _ _ (by rw [UInt32.le_iff_toNat_le, hlen32]; simp),
      hlen32]
    simp [hlen]
  simp only [create, hmeta, htotal, hdiv]
  simp


/-- A reader over a filter of whole 64-byte lines probes the line the builder
wrote. -/
theorem hashMayMatch_of_lines (hash : UInt32) (filter : List UInt8) (numProbes : Nat)
    (numLines : UInt32) (hlen : filter.length = numLines.toNat * 64 + 5)
    (hlines : 0 < numLines.toNat) (hlt : filter.length < 2 ^ 32) :
    hashMayMatch hash filter numProbes numLines =
      BitArray.probeTest filter
        (fun h => ((hash % numLines) * (CACHE_LINE_SIZE * 8) + h % (CACHE_LINE_SIZE * 8)).toNat)
        (bloomDelta hash) numProbes hash := by
  have hlen32 : (UInt32.ofNat filter.length).toNat = filter.length := UInt32.toNat_ofNat_of_lt' hlt
  have hgt : ¬ UInt32.ofNat filter.length ≤ 5 := by
    rw [UInt32.le_iff_toNat_le, hlen32]
    show ¬ filter.length ≤ 5
    omega
  have hline : (UInt32.ofNat filter.length - 5) / numLines = CACHE_LINE_SIZE := by
    apply UInt32.toNat_inj.mp
    rw [UInt32.toNat_div,
      UInt32.toNat_sub_of_le _ _ (by rw [UInt32.le_iff_toNat_le, hlen32]; simp; omega),
      hlen32]
    show (filter.length - 5) / numLines.toNat = 64
    rw [hlen, Nat.add_sub_cancel, Nat.mul_div_cancel_left _ hlines]
  simp only [hashMayMatch, if_neg hgt, hline]

end FullFilterBitsReader

namespace FullFilterBitsBuilder

/-- Every probe of `AddHash` lies in the bits of the filter. -/
theorem addHash_pos_lt (h h' numLines : UInt32) (hlines : 0 < numLines.toNat)
    (hlt : numLines.toNat < 2 ^ 23) :
    ((h % numLines) * (CACHE_LINE_SIZE * 8) + h' % (CACHE_LINE_SIZE * 8)).toNat <
      numLines.toNat * 512 := by
  have hline : (h % numLines).toNat < numLines.toNat := by
    rw [UInt32.toNat_mod]; exact Nat.mod_lt _ hlines
  have h512 : (CACHE_LINE_SIZE * 8).toNat = 512 := rfl
  have hoff : (h' % (CACHE_LINE_SIZE * 8)).toNat < 512 := by
    rw [UInt32.toNat_mod, h512]; exact Nat.mod_lt _ (by decide)
  rw [UInt32.toNat_add, UInt32.toNat_mul, h512]
  generalize (h % numLines).toNat = a at hline ⊢
  generalize (h' % (CACHE_LINE_SIZE * 8)).toNat = c at hoff ⊢
  generalize numLines.toNat = n at hline hlines hlt ⊢
  have hn : n ≤ 8388607 := by omega
  clear hlt
  omega

theorem length_addHash (b : FullFilterBitsBuilder) (h : UInt32) (data : List UInt8)
    (numLines : UInt32) : (b.addHash h data numLines).length = data.length :=
  BitArray.length_probeSet _ _ _ _ _

theorem covers_addHash (b : FullFilterBitsBuilder) (numLines : UInt32) (data : List UInt8)
    (h : UInt32) : BitArray.Covers (b.addHash h data numLines) data :=
  BitArray.covers_probeSet _ _ _ _ _

/-- The reader of a finished filter matches every key whose hash the builder
holds, when it holds a number of hashes that is not a multiple of `2 ^ 32`. -/
theorem mayMatch_finish_of_mem (b : FullFilterBitsBuilder) (hprobes : b.numProbes < 256)
    (hne : Int32.ofNat b.hashEntries.length ≠ 0) {key : List UInt8}
    (hkey : bloomHash key ∈ b.hashEntries) :
    (FullFilterBitsReader.create b.finish.1).mayMatch key = true := by
  obtain ⟨nl, hnl0, hnl, htot, hlines⟩ := b.calculateSpace_of_ne_zero hne
  unfold finish
  generalize b.calculateSpace (Int32.ofNat b.hashEntries.length) = cs at htot hlines
  obtain ⟨_, totalBits, numLines⟩ := cs
  dsimp only at htot hlines ⊢
  have hbits0 : totalBits ≠ 0 ∧ numLines ≠ 0 := by
    constructor
    · rintro rfl; simp at htot; omega
    · rintro rfl; simp at hlines; omega
  rw [if_pos hbits0]
  -- the fold keeps the `total_bits / 8` bytes it starts from
  have hzeros : (List.replicate (totalBits / 8).toNat (0 : UInt8)).length = nl * 64 := by
    rw [List.length_replicate, UInt32.toNat_div, htot]
    show nl * 512 / 8 = nl * 64
    omega
  set bits := b.hashEntries.foldl (fun data h => b.addHash h data numLines)
    (List.replicate (totalBits / 8).toNat 0) with hbits
  have hbitsLen : bits.length = numLines.toNat * 64 := by
    rw [hbits, BitArray.length_foldl (fun d h => b.length_addHash h d numLines), hzeros, hlines]
  have hsmall : bits.length + 5 < 2 ^ 32 := by omega
  rw [FullFilterBitsReader.create_of_trailer bits b.numProbes numLines hprobes hbitsLen (by omega)
    hsmall]
  have hgt : ¬ UInt32.ofNat (bits.length + 5) ≤ 5 := by
    rw [UInt32.le_iff_toNat_le, UInt32.toNat_ofNat_of_lt' (by omega)]
    show ¬ bits.length + 5 ≤ 5
    omega
  simp only [FullFilterBitsReader.mayMatch, if_neg hgt]
  split_ifs with hzero
  · rfl
  · rw [FullFilterBitsReader.hashMayMatch_of_lines _ _ _ _ (by simp; omega) (by omega)
      (by simp; omega)]
    obtain ⟨d, hd, hcov⟩ := BitArray.covers_foldl_of_mem
      (fun data h => b.addHash h data numLines)
      (fun d h => b.covers_addHash numLines d h) (fun d => d.length = nl * 64)
      (fun d h hd => (b.length_addHash h d numLines).trans hd) hkey hzeros
    -- every probe of the key's hash lies in the line `hash % num_lines`
    have hpos : ∀ h', ((bloomHash key % numLines) * (CACHE_LINE_SIZE * 8) +
        h' % (CACHE_LINE_SIZE * 8)).toNat / 8 < d.length := by
      intro h'
      have hlt := addHash_pos_lt (bloomHash key) h' numLines (by omega) (by omega)
      rw [hd]
      generalize ((bloomHash key % numLines) * (CACHE_LINE_SIZE * 8) +
        h' % (CACHE_LINE_SIZE * 8)).toNat = q at hlt ⊢
      omega
    exact BitArray.probeTest_of_covers hpos _ _ ((BitArray.covers_append bits _).trans hcov)

end FullFilterBitsBuilder

/-! ## No false negatives -/

theorem int32_ofNat_ne_zero {n : Nat} (h0 : 0 < n) (h : n < 2 ^ 32) : Int32.ofNat n ≠ 0 := by
  intro hz
  have hu : UInt32.ofNat n = 0 := by rw [← Int32.toUInt32_ofNat', hz]; rfl
  have hn := congrArg UInt32.toNat hu
  rw [UInt32.toNat_ofNat_of_lt' h] at hn
  simp at hn
  omega

namespace FullFilterBitsBuilder

/-- With no hash counted, `Finish` writes the trailer alone. -/
theorem finish_of_numEntry_zero (b : FullFilterBitsBuilder)
    (h : Int32.ofNat b.hashEntries.length = 0) :
    b.finish.1 = UInt8.ofNat b.numProbes :: encodeFixed32 0 := by
  simp only [finish, h, calculateSpace_zero]
  rfl

end FullFilterBitsBuilder

/-- A filter of at most five bytes matches nothing. -/
theorem FullFilterBitsReader.mayMatch_of_length_le {contents : List UInt8}
    (h : contents.length ≤ 5) (entry : List UInt8) :
    (FullFilterBitsReader.create contents).mayMatch entry = false := by
  have hlen : UInt32.ofNat contents.length ≤ 5 := by
    rw [UInt32.le_iff_toNat_le, UInt32.toNat_ofNat_of_lt' (lt_of_le_of_lt h (by decide))]
    exact h
  unfold FullFilterBitsReader.create
  dsimp only
  split <;> simp [FullFilterBitsReader.mayMatch, hlen]

/-- A full filter built from fewer than `2 ^ 32` keys matches every one of
them, and the filter of no keys matches nothing. -/
theorem fullFilter_no_false_negatives (bitsPerKey numProbes : Nat) (hprobes : numProbes ≤ 30)
    (keys : List (List UInt8)) (hkeys : keys.length < 2 ^ 32) :
    (∀ k ∈ keys, (FullFilterBitsReader.create (keys.foldl FullFilterBitsBuilder.addKey
      (.create bitsPerKey numProbes)).finish.1).mayMatch k = true) ∧
    (keys = [] → ∀ k, (FullFilterBitsReader.create (keys.foldl FullFilterBitsBuilder.addKey
      (.create bitsPerKey numProbes)).finish.1).mayMatch k = false) := by
  constructor
  · intro k hk
    set b := keys.foldl FullFilterBitsBuilder.addKey (.create bitsPerKey numProbes) with hb
    have hmem : bloomHash k ∈ b.hashEntries := FullFilterBitsBuilder.mem_foldl_addKey hk _
    have hlen : b.hashEntries.length ≤ keys.length := by
      have := FullFilterBitsBuilder.length_foldl_addKey_le keys
        (FullFilterBitsBuilder.create bitsPerKey numProbes)
      simp only [FullFilterBitsBuilder.create, List.length_nil, Nat.zero_add] at this
      exact this
    have hpos : 0 < b.hashEntries.length := List.length_pos_of_mem hmem
    refine b.mayMatch_finish_of_mem ?_ (int32_ofNat_ne_zero hpos (by omega)) hmem
    simp only [hb, FullFilterBitsBuilder.numProbes_foldl_addKey, FullFilterBitsBuilder.create]
    omega
  · rintro rfl k
    apply FullFilterBitsReader.mayMatch_of_length_le
    rw [FullFilterBitsBuilder.finish_of_numEntry_zero _ rfl]
    simp

theorem fullFilter_no_false_negatives_sample :
    6 ≤ 30 ∧ ([[1, 2, 3], [4]] : List (List UInt8)).length < 2 ^ 32 ∧
      ((∀ k ∈ ([[1, 2, 3], [4]] : List (List UInt8)), (FullFilterBitsReader.create
        (([[1, 2, 3], [4]] : List (List UInt8)).foldl FullFilterBitsBuilder.addKey
          (.create 10 6)).finish.1).mayMatch k = true) ∧
      (([[1, 2, 3], [4]] : List (List UInt8)) = [] → ∀ k, (FullFilterBitsReader.create
        (([[1, 2, 3], [4]] : List (List UInt8)).foldl FullFilterBitsBuilder.addKey
          (.create 10 6)).finish.1).mayMatch k = false)) :=
  ⟨by decide, by decide,
    fullFilter_no_false_negatives 10 6 (by decide) [[1, 2, 3], [4]] (by decide)⟩

namespace FullFilterBitsBuilder

/-- Keys whose consecutive hashes all differ each add their hash. -/
theorem hashEntries_foldl_of_isChain {k : List UInt8} {keys : List (List UInt8)}
    (hchain : List.IsChain (fun a b => bloomHash a ≠ bloomHash b) (k :: keys))
    {b : FullFilterBitsBuilder} (hlast : b.hashEntries.getLast? ≠ some (bloomHash k)) :
    ((k :: keys).foldl addKey b).hashEntries = b.hashEntries ++ (k :: keys).map bloomHash := by
  induction keys generalizing k b with
  | nil =>
    have hadd : (b.addKey k).hashEntries = b.hashEntries ++ [bloomHash k] := by
      simp only [addKey]
      rw [if_pos (.inr (Ne.symm hlast))]
    simp [hadd]
  | cons k' keys ih =>
    obtain ⟨hne, hrest⟩ := List.isChain_cons_cons.mp hchain
    have hadd : (b.addKey k).hashEntries = b.hashEntries ++ [bloomHash k] := by
      simp only [addKey]
      rw [if_pos (.inr (Ne.symm hlast))]
    have hlast' : (b.addKey k).hashEntries.getLast? ≠ some (bloomHash k') := by
      rw [hadd, List.getLast?_append_of_ne_nil _ (by simp)]
      simpa using hne
    rw [List.foldl_cons, ih hrest hlast', hadd]
    simp

end FullFilterBitsBuilder

/-- `2 ^ 31` times the keys `[0]` and `[1]`, one after the other. -/
def alternatingKeys : List (List UInt8) := (List.replicate (2 ^ 31) [[0], [1]]).flatten

theorem isChain_alternatingKeys_tail (n : Nat) :
    List.IsChain (fun a b => bloomHash a ≠ bloomHash b)
      ([1] :: (List.replicate n [[0], [1]]).flatten) := by
  induction n with
  | zero => exact List.isChain_singleton _
  | succ n ih =>
    rw [List.replicate_succ, List.flatten_cons]
    exact List.IsChain.cons_cons (by decide) (List.IsChain.cons_cons (by decide) ih)

/-- The builder counts `2 ^ 32` hashes, `static_cast<int>` turns the count into
0, and `Finish` writes an empty filter: the reader misses every key, `[0]`
among them, whatever the bits per key and the number of probes. -/
theorem mayMatch_finish_alternatingKeys (bitsPerKey numProbes : Nat) :
    [0] ∈ alternatingKeys ∧
      (FullFilterBitsReader.create (alternatingKeys.foldl FullFilterBitsBuilder.addKey
        (FullFilterBitsBuilder.create bitsPerKey numProbes)).finish.1).mayMatch [0] = false := by
  have hsplit :
      alternatingKeys = [0] :: [1] :: (List.replicate (2 ^ 31 - 1) [[0], [1]]).flatten := by
    rw [alternatingKeys, show 2 ^ 31 = (2 ^ 31 - 1) + 1 by norm_num, List.replicate_succ,
      List.flatten_cons]
    rfl
  have hlen : alternatingKeys.length = 2 ^ 32 := by
    rw [alternatingKeys, List.length_flatten, List.map_replicate, List.sum_replicate]
    norm_num
  have hchain : List.IsChain (fun a b => bloomHash a ≠ bloomHash b)
      ([0] :: [1] :: (List.replicate (2 ^ 31 - 1) [[0], [1]]).flatten) :=
    List.IsChain.cons_cons (by decide) (isChain_alternatingKeys_tail _)
  have hentries := FullFilterBitsBuilder.hashEntries_foldl_of_isChain hchain
    (b := FullFilterBitsBuilder.create bitsPerKey numProbes) (by simp [FullFilterBitsBuilder.create])
  rw [← hsplit] at hentries
  have hzero : Int32.ofNat (alternatingKeys.foldl FullFilterBitsBuilder.addKey
      (FullFilterBitsBuilder.create bitsPerKey numProbes)).hashEntries.length = 0 := by
    rw [hentries, List.length_append, List.length_map, hlen]
    show Int32.ofNat (0 + 2 ^ 32) = 0
    decide
  refine ⟨by rw [hsplit]; exact List.mem_cons_self, ?_⟩
  apply FullFilterBitsReader.mayMatch_of_length_le
  rw [FullFilterBitsBuilder.finish_of_numEntry_zero _ hzero]
  simp

/-- Ten bits per key and six probes, as the default policy has them. -/
theorem fullFilter_misses_keys_at_two_pow_32_hashes :
    [0] ∈ alternatingKeys ∧
      (FullFilterBitsReader.create (alternatingKeys.foldl FullFilterBitsBuilder.addKey
        (FullFilterBitsBuilder.create 10 6)).finish.1).mayMatch [0] = false :=
  mayMatch_finish_alternatingKeys 10 6

/-! ## The filter of the block-based format -/

/-- `BloomFilterPolicy`: `bits_per_key_` and the `num_probes_` that
`initialize` leaves between 1 and 30. -/
structure BloomFilterPolicy where
  bitsPerKey : Nat
  numProbes : Nat
  numProbes_pos : 1 ≤ numProbes
  numProbes_le : numProbes ≤ 30

namespace BloomFilterPolicy

/-- `CreateFilter(keys, n, dst)`: the bytes it appends to `*dst`, at least 64
bits and then the number of probes. -/
def createFilter (p : BloomFilterPolicy) (keys : List (List UInt8)) : List UInt8 :=
  let bits := keys.length * p.bitsPerKey
  -- a minimum length keeps the false positive rate of small filters down
  let bits := if bits < 64 then 64 else bits
  let bytes := (bits + 7) / 8
  let bits := bytes * 8
  let array := keys.foldl (fun array key =>
      let h := bloomHash key
      BitArray.probeSet (fun h => h.toNat % bits) (bloomDelta h) p.numProbes h array)
    (List.replicate bytes 0)
  array ++ [UInt8.ofNat p.numProbes]

/-- `KeyMayMatch(key, bloom_filter)`: a probe count above 30 is reserved and
matches. -/
def keyMayMatch (key bloomFilter : List UInt8) : Bool :=
  let len := bloomFilter.length
  if len < 2 then false
  else
    let bits := (len - 1) * 8
    let k := (bloomFilter.getD (len - 1) 0).toNat
    if k > 30 then true
    else
      let h := bloomHash key
      BitArray.probeTest bloomFilter (fun h => h.toNat % bits) (bloomDelta h) k h

/-- A Bloom filter of the block-based format matches every key it was built
from. -/
theorem keyMayMatch_createFilter (p : BloomFilterPolicy) {keys : List (List UInt8)}
    {key : List UInt8} (hkey : key ∈ keys) : keyMayMatch key (p.createFilter keys) = true := by
  unfold createFilter
  dsimp only
  -- at least 64 bits make at least 8 bytes, and every probe lands in them
  have hbytes : 8 ≤
      ((if keys.length * p.bitsPerKey < 64 then 64 else keys.length * p.bitsPerKey) + 7) / 8 := by
    split <;> omega
  generalize ((if keys.length * p.bitsPerKey < 64 then 64 else keys.length * p.bitsPerKey) + 7) / 8
    = bytes at hbytes ⊢
  have hlen : ∀ array key, (BitArray.probeSet (fun h => h.toNat % (bytes * 8))
      (bloomDelta (bloomHash key)) p.numProbes (bloomHash key) array).length = array.length :=
    fun _ _ => BitArray.length_probeSet _ _ _ _ _
  generalize harray : List.foldl (fun (array : List UInt8) (key : List UInt8) =>
    BitArray.probeSet (fun h => h.toNat % (bytes * 8)) (bloomDelta (bloomHash key)) p.numProbes
      (bloomHash key) array) (List.replicate bytes (0 : UInt8)) keys = array
  have harrayLen : array.length = bytes := by
    rw [← harray, BitArray.length_foldl hlen, List.length_replicate]
  have hprobes : p.numProbes < 256 := by have := p.numProbes_le; omega
  have hk : ((array ++ [UInt8.ofNat p.numProbes]).getD bytes 0).toNat = p.numProbes := by
    rw [List.getD_append_right _ _ _ _ harrayLen.le, harrayLen, Nat.sub_self]
    simp [Nat.mod_eq_of_lt hprobes]
  unfold keyMayMatch
  simp only [List.length_append, harrayLen, List.length_singleton, Nat.add_sub_cancel]
  simp only [hk]
  rw [if_neg (by omega), if_neg (by have := p.numProbes_le; omega)]
  obtain ⟨d, hd, hcov⟩ := BitArray.covers_foldl_of_mem _
    (fun d key => BitArray.covers_probeSet _ _ _ _ d) (fun d => d.length = bytes)
    (fun d key hd => (hlen d key).trans hd) hkey (List.length_replicate ..)
  rw [harray] at hcov
  have hpos : ∀ h : UInt32, h.toNat % (bytes * 8) / 8 < d.length := by
    intro h
    have := Nat.mod_lt h.toNat (by omega : 0 < bytes * 8)
    rw [hd]
    omega
  exact BitArray.probeTest_of_covers hpos _ _ ((BitArray.covers_append array _).trans hcov)

end BloomFilterPolicy

end RocksDB
