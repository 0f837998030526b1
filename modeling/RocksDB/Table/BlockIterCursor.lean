import Mathlib
import RocksDB.Table.BlockBuilder
import RocksDB.Table.BlockIter

/-!
# `BlockIter` over a built block is a cursor over its entries

A block that `BlockBuilder` built from a list of entries is read back by
`BlockIter` as that list: every positioning operation leaves the iterator where
a cursor over the entries would be (`SortedList.cursorStep`), with the entry's
key and value, and its status OK.

## Main results

* `decodeEntry_eq_decodeEntryVarints`: the one-byte fast path of `DecodeEntry`
  reads what three varint32s read, on every input.
* `decodeEntry_encodeEntry`: `DecodeEntry` reads back an entry `Add` wrote.
* `BlockIter.At`, `BlockIter.Done`: the iterator on entry `i` of the block, or
  past its last entry. Each operation moves between them as the cursor does:
  `At.next`, `seekToFirst_positioned`, `seekToLast_positioned`, `At.prev`,
  `seek_positioned`, `seekForPrev_positioned`.

## Design notes

* The block is `blockContents r d kvs` for an interval `r ≥ 1`, small enough
  (`< 2^32` bytes) that no offset of the format wraps: `Built r d kvs`.
* The global sequence number is disabled, as for blocks not ingested whole.
* Only the seeks compare keys; they are exact for keys strictly increasing under
  the comparator.
-/

namespace RocksDB

open BlockBuilder

/-! ## `DecodeEntry` -/

/-- `DecodeEntry` without its fast path: three varint32s, then the bound check. -/
def decodeEntryVarints (input : List UInt8) : Option (UInt32 × UInt32 × UInt32 × List UInt8) :=
  match getVarint32Ptr input with
  | none => none
  | some (shared, p) =>
    match getVarint32Ptr p with
    | none => none
    | some (nonShared, p) =>
      match getVarint32Ptr p with
      | none => none
      | some (valueLength, p) =>
        if UInt32.ofNat p.length < nonShared + valueLength then none
        else some (shared, nonShared, valueLength, p)

/-- Three varints take at least three bytes. -/
theorem decodeEntryVarints_of_length_lt {input : List UInt8} (h : input.length < 3) :
    decodeEntryVarints input = none := by
  unfold decodeEntryVarints
  rcases h1 : getVarint32Ptr input with _ | ⟨shared, p₁⟩
  · rfl
  simp only
  rcases h2 : getVarint32Ptr p₁ with _ | ⟨nonShared, p₂⟩
  · rfl
  simp only
  rcases h3 : getVarint32Ptr p₂ with _ | ⟨valueLength, p₃⟩
  · rfl
  have := length_lt_of_getVarint32Ptr h1
  have := length_lt_of_getVarint32Ptr h2
  have := length_lt_of_getVarint32Ptr h3
  omega

/-- Three bytes whose `or` is below 128 are each below 128. -/
theorem lt_128_of_or {a b c : UInt8} (h : (a.toUInt32 ||| b.toUInt32 ||| c.toUInt32) < 128) :
    a.toNat < 128 ∧ b.toNat < 128 ∧ c.toNat < 128 := by
  have h' : a.toNat ||| b.toNat ||| c.toNat < 128 := by
    rw [UInt32.lt_iff_toNat_lt] at h
    simpa using h
  have hab := lt_of_le_of_lt Nat.left_le_or h'
  exact ⟨lt_of_le_of_lt Nat.left_le_or hab, lt_of_le_of_lt Nat.right_le_or hab,
    lt_of_le_of_lt Nat.right_le_or h'⟩

/-- The fast path of `DecodeEntry` agrees with reading three varint32s: when
the three bytes it looks at are below 128 they are three one-byte varints, and
fewer than three bytes hold no three varints. -/
theorem decodeEntry_eq_decodeEntryVarints (input : List UInt8) :
    decodeEntry input = decodeEntryVarints input := by
  unfold decodeEntry
  by_cases hlen : input.length < 3
  · rw [if_pos hlen]
    exact (decodeEntryVarints_of_length_lt hlen).symm
  rw [if_neg hlen]
  dsimp only
  by_cases hfast : ((input.getD 0 0).toUInt32 ||| (input.getD 1 0).toUInt32 |||
      (input.getD 2 0).toUInt32) < 128
  · rw [if_pos hfast]
    obtain ⟨b₀, b₁, b₂, rest, rfl⟩ : ∃ b₀ b₁ b₂ rest, input = b₀ :: b₁ :: b₂ :: rest := by
      match input, hlen with
      | b₀ :: b₁ :: b₂ :: rest, _ => exact ⟨b₀, b₁, b₂, rest, rfl⟩
      | [], h | [_], h | [_, _], h => simp at h
    obtain ⟨h₀, h₁, h₂⟩ := lt_128_of_or hfast
    simp only [List.getD_cons_zero, List.getD_cons_succ] at h₀ h₁ h₂
    simp [decodeEntryVarints, getVarint32Ptr_cons_of_lt h₀, getVarint32Ptr_cons_of_lt h₁,
      getVarint32Ptr_cons_of_lt h₂]
  · rw [if_neg hfast]
    unfold decodeEntryVarints
    rcases h1 : getVarint32Ptr input with _ | ⟨shared, p₁⟩
    · simp
    rcases h2 : getVarint32Ptr p₁ with _ | ⟨nonShared, p₂⟩
    · simp [h2]
    rcases h3 : getVarint32Ptr p₂ with _ | ⟨valueLength, p₃⟩ <;> simp [h2, h3]

/-- `DecodeEntry` reads back an entry `Add` wrote, whatever follows it, while
the unshared key, the value and what follows fit in 32 bits. -/
theorem decodeEntry_encodeEntry (shared : Nat) (key value rest : List UInt8)
    (hfit : key.length - shared + value.length + rest.length < 2 ^ 32) :
    decodeEntry (encodeEntry shared key value ++ rest) =
      some (UInt32.ofNat shared, UInt32.ofNat (key.length - shared), UInt32.ofNat value.length,
        key.drop shared ++ value ++ rest) := by
  have hget : ∀ (v : UInt32) (r : List UInt8), getVarint32Ptr (encodeVarint32 v ++ r) = some (v, r) :=
    getVarint32_encode
  have hcheck : ¬UInt32.ofNat (key.drop shared ++ (value ++ rest)).length <
      UInt32.ofNat (key.length - shared) + UInt32.ofNat value.length := by
    rw [UInt32.lt_iff_toNat_lt, UInt32.toNat_add, UInt32.toNat_ofNat', UInt32.toNat_ofNat',
      UInt32.toNat_ofNat']
    simp only [List.length_append, List.length_drop]
    rw [Nat.mod_eq_of_lt (by omega), Nat.mod_eq_of_lt (by omega), Nat.mod_eq_of_lt (by omega),
      Nat.mod_eq_of_lt (by omega)]
    omega
  rw [decodeEntry_eq_decodeEntryVarints]
  simp only [encodeEntry, putVarint32Varint32Varint32, List.nil_append, List.append_assoc,
    decodeEntryVarints, hget]
  rw [if_neg hcheck]

/-! ## The layout read back -/

/-- A flattened list from the start of its `i`-th piece on: that piece, then
what follows it. -/
theorem drop_flatten_take {α : Type} (L : List (List α)) (tail : List α) {i : Nat}
    (hi : i < L.length) :
    (L.flatten ++ tail).drop (L.take i).flatten.length =
      L[i] ++ (L.flatten ++ tail).drop (L.take (i + 1)).flatten.length := by
  have hsplit : L.flatten = (L.take i).flatten ++ (L[i] ++ (L.drop (i + 1)).flatten) := by
    conv_lhs => rw [← List.take_append_drop i L, List.drop_eq_getElem_cons hi]
    rw [List.flatten_append, List.flatten_cons]
  rw [List.take_succ_eq_append_getElem hi, List.flatten_append, List.flatten_singleton, hsplit]
  simp only [List.append_assoc]
  rw [List.drop_left' rfl, ← List.append_assoc (List.take i L).flatten L[i], List.drop_left' rfl]

namespace BlockBuilder

variable {r : Nat} {d : Bool} {kvs : List (List UInt8 × List UInt8)}

theorem getElem_entryBytes {i : Nat} (hi : i < (entryBytes r d kvs).length) :
    (entryBytes r d kvs)[i] = encodeEntry (sharedAt r d kvs i) (keyAt kvs i) (valueAt kvs i) := by
  simp [entryBytes]

/-- The bytes of the block before the restart array. -/
def dataEnd (r : Nat) (d : Bool) (kvs : List (List UInt8 × List UInt8)) : Nat :=
  entryOffset r d kvs kvs.length

/-- The block from entry `i` on: the entry, then what follows it. -/
theorem drop_entryOffset {i : Nat} (hi : i < kvs.length) :
    (blockContents r d kvs).drop (entryOffset r d kvs i) =
      encodeEntry (sharedAt r d kvs i) (keyAt kvs i) (valueAt kvs i) ++
        (blockContents r d kvs).drop (entryOffset r d kvs (i + 1)) := by
  have h := drop_flatten_take (entryBytes r d kvs)
    ((restartOffsets r d kvs).flatMap encodeFixed32 ++
      encodeFixed32 (UInt32.ofNat (numRestartsOf r kvs.length))) (i := i) (by simpa using hi)
  rw [getElem_entryBytes] at h
  simpa only [blockContents, entryOffset, List.append_assoc] using h

theorem entryOffset_succ {i : Nat} (hi : i < kvs.length) :
    entryOffset r d kvs (i + 1) =
      entryOffset r d kvs i + (encodeEntry (sharedAt r d kvs i) (keyAt kvs i) (valueAt kvs i)).length := by
  unfold entryOffset
  rw [List.take_succ_eq_append_getElem (by simpa using hi), List.flatten_append,
    List.length_append, getElem_entryBytes]
  simp

theorem three_le_length_encodeEntry (shared : Nat) (key value : List UInt8) :
    3 ≤ (encodeEntry shared key value).length := by
  have hne : ∀ v : UInt32, 1 ≤ (encodeVarint32 v).length := fun v => by
    rw [encodeVarint32_eq]
    exact List.length_pos_iff.mpr (ByteCoding.Varint.encode_ne_nil _)
  have := hne (UInt32.ofNat shared)
  have := hne (UInt32.ofNat (key.length - shared))
  have := hne (UInt32.ofNat value.length)
  simp only [encodeEntry, putVarint32Varint32Varint32, List.nil_append, List.length_append]
  omega

/-- Each entry takes at least three bytes: later entries start further on. -/
theorem entryOffset_lt {i j : Nat} (hij : i < j) (hj : j ≤ kvs.length) :
    entryOffset r d kvs i + 3 * (j - i) ≤ entryOffset r d kvs j := by
  induction j with
  | zero => omega
  | succ j ih =>
    rw [entryOffset_succ (by omega)]
    have := three_le_length_encodeEntry (sharedAt r d kvs j) (keyAt kvs j) (valueAt kvs j)
    rcases Nat.lt_or_ge i j with hlt | hge
    · have := ih hlt (by omega)
      omega
    · obtain rfl : i = j := by omega
      omega

theorem entryOffset_mono {i j : Nat} (hij : i ≤ j) (hj : j ≤ kvs.length) :
    entryOffset r d kvs i ≤ entryOffset r d kvs j := by
  rcases Nat.lt_or_eq_of_le hij with h | rfl
  · have := entryOffset_lt (r := r) (d := d) h hj
    omega
  · exact le_rfl

/-- Offsets of entries compare as the entries' positions. -/
theorem entryOffset_lt_iff {i j : Nat} (hi : i ≤ kvs.length) (hj : j ≤ kvs.length) :
    entryOffset r d kvs i < entryOffset r d kvs j ↔ i < j := by
  constructor
  · intro h
    by_contra hji
    have := entryOffset_mono (r := r) (d := d) (Nat.not_lt.mp hji) hi
    omega
  · intro h
    have := entryOffset_lt (r := r) (d := d) h hj
    omega

theorem entryOffset_injective {i j : Nat} (hi : i ≤ kvs.length) (hj : j ≤ kvs.length)
    (h : entryOffset r d kvs i = entryOffset r d kvs j) : i = j := by
  rcases Nat.lt_trichotomy i j with hlt | heq | hgt
  · exact absurd ((entryOffset_lt_iff (r := r) (d := d) hi hj).mpr hlt) (by omega)
  · exact heq
  · exact absurd ((entryOffset_lt_iff (r := r) (d := d) hj hi).mpr hgt) (by omega)

theorem length_blockContents_eq (r : Nat) (d : Bool) (kvs : List (List UInt8 × List UInt8)) :
    (blockContents r d kvs).length = dataEnd r d kvs + 4 * numRestartsOf r kvs.length + 4 := by
  rw [length_blockContents, dataEnd, entryOffset_length]

/-- The bytes between offsets `a` and `b` of the block. -/
def between (r : Nat) (d : Bool) (kvs : List (List UInt8 × List UInt8)) (a b : Nat) : List UInt8 :=
  ((blockContents r d kvs).drop a).take (b - a)

/-- What `DecodeEntry` is handed for entry `i`: the entry, then the entries
after it. -/
theorem between_entryOffset {i : Nat} (hi : i < kvs.length) :
    between r d kvs (entryOffset r d kvs i) (dataEnd r d kvs) =
      encodeEntry (sharedAt r d kvs i) (keyAt kvs i) (valueAt kvs i) ++
        between r d kvs (entryOffset r d kvs (i + 1)) (dataEnd r d kvs) := by
  have hsucc := entryOffset_succ (r := r) (d := d) hi
  have hend := entryOffset_mono (r := r) (d := d) (show i + 1 ≤ kvs.length by omega) le_rfl
  unfold between dataEnd
  rw [drop_entryOffset hi, show entryOffset r d kvs kvs.length - entryOffset r d kvs i =
      (encodeEntry (sharedAt r d kvs i) (keyAt kvs i) (valueAt kvs i)).length +
        (entryOffset r d kvs kvs.length - entryOffset r d kvs (i + 1)) by omega,
    List.take_add, List.take_left' rfl, List.drop_left' rfl]

theorem length_between (r : Nat) (d : Bool) (kvs : List (List UInt8 × List UInt8)) {a b : Nat}
    (hab : a ≤ b) (hb : b ≤ (blockContents r d kvs).length) :
    (between r d kvs a b).length = b - a := by
  simp only [between, List.length_take, List.length_drop]
  omega

/-- A block `BlockBuilder` built from `kvs` with restart interval `r` and delta
encoding `d`, small enough for the 32-bit offsets of the format. -/
structure Built (r : Nat) (d : Bool) (kvs : List (List UInt8 × List UInt8)) : Prop where
  interval_pos : 1 ≤ r
  fits : (blockContents r d kvs).length < 2 ^ 32

/-- The restart array starts where the entries end. -/
theorem drop_dataEnd :
    (blockContents r d kvs).drop (dataEnd r d kvs) =
      (restartOffsets r d kvs).flatMap encodeFixed32 ++
        encodeFixed32 (UInt32.ofNat (numRestartsOf r kvs.length)) := by
  unfold blockContents dataEnd
  rw [entryOffset_length, List.append_assoc, List.drop_left]

theorem Built.entryOffset_lt (hb : Built r d kvs) {i : Nat} (hi : i ≤ kvs.length) :
    entryOffset r d kvs i < 2 ^ 32 := by
  have := entryOffset_mono (r := r) (d := d) hi le_rfl
  have := hb.fits
  rw [length_blockContents_eq] at this
  unfold dataEnd at this
  omega

/-- Word `j` of the restart array is the offset of entry `j * r`. -/
theorem Built.restartPoint (hb : Built r d kvs) {j : Nat} (hj : j < numRestartsOf r kvs.length) :
    (decodeFixed32 ((blockContents r d kvs).drop (dataEnd r d kvs + j * 4))).toNat =
      entryOffset r d kvs (j * r) := by
  have hjr := mul_le_of_lt_numRestartsOf hb.interval_pos hj
  rw [← List.drop_drop, drop_dataEnd, mul_comm j 4,
    decodeFixed32_drop_flatMap _ _ (by simpa using hj)]
  simp only [restartOffsets, List.getElem_map, List.getElem_range, UInt32.toNat_ofNat']
  exact Nat.mod_eq_of_lt (hb.entryOffset_lt hjr)

/-- The count word at the end of the block. -/
theorem decodeFixed32_count :
    decodeFixed32 ((blockContents r d kvs).drop ((blockContents r d kvs).length - 4)) =
      UInt32.ofNat (numRestartsOf r kvs.length) := by
  have hdrop : (blockContents r d kvs).drop ((blockContents r d kvs).length - 4) =
      encodeFixed32 (UInt32.ofNat (numRestartsOf r kvs.length)) := by
    unfold blockContents
    exact List.drop_left' (by simp; omega)
  rw [hdrop, ← List.append_nil (encodeFixed32 _), decodeFixed32_encode]

/-- `Block::Block` accepts a built block, with the restart array where the
entries end. -/
theorem Built.create (hb : Built r d kvs) (g : Nat) :
    (Block.create (blockContents r d kvs) g).size = (blockContents r d kvs).length ∧
      (Block.create (blockContents r d kvs) g).restartOffset.toNat = dataEnd r d kvs ∧
      (Block.create (blockContents r d kvs) g).numRestarts.toNat = numRestartsOf r kvs.length := by
  have hlen := length_blockContents_eq r d kvs
  have hfit := hb.fits
  have h4 : 4 ≤ (blockContents r d kvs).length := by omega
  have hn : (decodeFixed32 ((blockContents r d kvs).drop
      ((blockContents r d kvs).length - 4))).toNat = numRestartsOf r kvs.length := by
    rw [decodeFixed32_count, UInt32.toNat_ofNat', Nat.mod_eq_of_lt (by omega)]
  obtain ⟨hacc, hoff⟩ := Block.create_accepts_iff g h4 hfit (by rw [hn]; omega)
  rw [hn] at hacc
  have hsize : (Block.create (blockContents r d kvs) g).size ≠ 0 := hacc.mpr (by omega)
  have hnum := Block.create_numRestarts g h4 hsize
  rw [← UInt32.toNat_inj, hn] at hnum
  have hsz := Block.create_size g h4
  rw [if_neg (fun h => hsize (by rw [hsz, if_pos h]))] at hsz
  have ho := hoff hsize
  rw [hnum, hsz] at ho
  refine ⟨hsz, ?_, hnum⟩
  rw [hlen] at ho
  omega

/-- `NewIterator` over a built block: initialized on its entries. -/
theorem Built.newIterator (hb : Built r d kvs) (g : Nat) :
    (Block.create (blockContents r d kvs) g).newIterator =
      BlockIter.empty.init (blockContents r d kvs) (dataEnd r d kvs)
        (numRestartsOf r kvs.length) g := by
  obtain ⟨hsize, hoff, hnum⟩ := hb.create g
  have hlen := length_blockContents_eq r d kvs
  have hpos : 1 ≤ numRestartsOf r kvs.length := by simp [numRestartsOf]
  unfold Block.newIterator
  rw [if_neg (by rw [hsize]; omega), if_neg (fun h => by rw [h] at hnum; simp at hnum; omega),
    hoff, hnum, Block.create_globalSeqno, Block.create_contents]

/-- Where the unshared key bytes of entry `i` start. -/
def keyStart (r : Nat) (d : Bool) (kvs : List (List UInt8 × List UInt8)) (i : Nat) : Nat :=
  entryOffset r d kvs (i + 1) - (valueAt kvs i).length - ((keyAt kvs i).length - sharedAt r d kvs i)

/-- Where the value of entry `i` starts. -/
def valueStart (r : Nat) (d : Bool) (kvs : List (List UInt8 × List UInt8)) (i : Nat) : Nat :=
  entryOffset r d kvs (i + 1) - (valueAt kvs i).length

/-- The block from the unshared key bytes of entry `i` on. -/
theorem drop_keyStart {i : Nat} (hi : i < kvs.length) :
    (blockContents r d kvs).drop (keyStart r d kvs i) =
      (keyAt kvs i).drop (sharedAt r d kvs i) ++ valueAt kvs i ++
        (blockContents r d kvs).drop (entryOffset r d kvs (i + 1)) := by
  set hdr := putVarint32Varint32Varint32 [] (UInt32.ofNat (sharedAt r d kvs i))
    (UInt32.ofNat ((keyAt kvs i).length - sharedAt r d kvs i)) (UInt32.ofNat (valueAt kvs i).length)
  have hentry : encodeEntry (sharedAt r d kvs i) (keyAt kvs i) (valueAt kvs i) =
      hdr ++ ((keyAt kvs i).drop (sharedAt r d kvs i) ++ valueAt kvs i) := by
    simp [encodeEntry, hdr]
  have hstart : keyStart r d kvs i = entryOffset r d kvs i + hdr.length := by
    unfold keyStart
    rw [entryOffset_succ hi, hentry]
    simp only [List.length_append, List.length_drop]
    omega
  rw [hstart, ← List.drop_drop, drop_entryOffset hi, hentry, List.append_assoc, List.drop_left,
    List.append_assoc]

theorem valueStart_eq {i : Nat} (hi : i < kvs.length) :
    valueStart r d kvs i = keyStart r d kvs i + ((keyAt kvs i).length - sharedAt r d kvs i) := by
  have hsucc := entryOffset_succ (r := r) (d := d) hi
  have hlen : (encodeEntry (sharedAt r d kvs i) (keyAt kvs i) (valueAt kvs i)).length ≥
      ((keyAt kvs i).length - sharedAt r d kvs i) + (valueAt kvs i).length := by
    simp [encodeEntry]
  unfold valueStart keyStart
  omega

theorem sharedAt_le_length (i : Nat) : sharedAt r d kvs i ≤ (keyAt kvs i).length := by
  unfold sharedAt
  split_ifs
  · omega
  · exact diffIndex_le_length_left _ _
  · omega

theorem length_sub_sharedAt_le (r : Nat) (d : Bool) (kvs : List (List UInt8 × List UInt8))
    (i : Nat) :
    (keyAt kvs i).length - sharedAt r d kvs i + (valueAt kvs i).length ≤
      (encodeEntry (sharedAt r d kvs i) (keyAt kvs i) (valueAt kvs i)).length := by
  simp [encodeEntry]

/-- A key is no longer than the entries up to it: the bytes it shares come from
the key before. -/
theorem length_keyAt_le {i : Nat} (hi : i < kvs.length) :
    (keyAt kvs i).length ≤ entryOffset r d kvs (i + 1) := by
  induction i with
  | zero =>
    have h := length_sub_sharedAt_le r d kvs 0
    rw [entryOffset_succ hi]
    simp [sharedAt] at h ⊢
    omega
  | succ i ih =>
    have h := length_sub_sharedAt_le r d kvs (i + 1)
    have hprev : sharedAt r d kvs (i + 1) ≤ (keyAt kvs i).length := by
      unfold sharedAt
      split_ifs
      · omega
      · exact diffIndex_le_length_right _ _
      · omega
    have := ih (by omega)
    rw [entryOffset_succ hi]
    omega

/-- The block from the value of entry `i` on. -/
theorem drop_valueStart {i : Nat} (hi : i < kvs.length) :
    (blockContents r d kvs).drop (valueStart r d kvs i) =
      valueAt kvs i ++ (blockContents r d kvs).drop (entryOffset r d kvs (i + 1)) := by
  rw [valueStart_eq hi, ← List.drop_drop, drop_keyStart hi, List.append_assoc,
    List.drop_left' (by simp)]

end BlockBuilder

namespace BlockBuilder

variable {r : Nat} {d : Bool} {kvs : List (List UInt8 × List UInt8)}

/-- What `DecodeEntry` reads at entry `i` of a built block. -/
theorem Built.decodeEntry_at (hb : Built r d kvs) {i : Nat} (hi : i < kvs.length) :
    decodeEntry (((blockContents r d kvs).drop (entryOffset r d kvs i)).take
        (dataEnd r d kvs - entryOffset r d kvs i)) =
      some (UInt32.ofNat (sharedAt r d kvs i), UInt32.ofNat ((keyAt kvs i).length - sharedAt r d kvs i),
        UInt32.ofNat (valueAt kvs i).length,
        (keyAt kvs i).drop (sharedAt r d kvs i) ++ valueAt kvs i ++
          between r d kvs (entryOffset r d kvs (i + 1)) (dataEnd r d kvs)) := by
  have hsucc := entryOffset_succ (r := r) (d := d) hi
  have hend := entryOffset_mono (r := r) (d := d) (show i + 1 ≤ kvs.length by omega) le_rfl
  have hlen := length_sub_sharedAt_le r d kvs i
  have hfit := hb.entryOffset_lt (le_refl kvs.length)
  have hbetween := length_between r d kvs hend
    (by rw [length_blockContents_eq]; unfold dataEnd; omega)
  rw [show ((blockContents r d kvs).drop (entryOffset r d kvs i)).take
      (dataEnd r d kvs - entryOffset r d kvs i) = between r d kvs (entryOffset r d kvs i)
        (dataEnd r d kvs) from rfl, between_entryOffset hi]
  unfold dataEnd at hbetween ⊢
  exact decodeEntry_encodeEntry _ _ _ _ (by rw [hbetween]; omega)

/-- The shared length, the offsets and the lengths of an entry fit in 32 bits. -/
theorem Built.toNat_ofNat (hb : Built r d kvs) {i x : Nat} (hi : i < kvs.length)
    (hx : x ≤ entryOffset r d kvs (i + 1)) : (UInt32.ofNat x).toNat = x := by
  rw [UInt32.toNat_ofNat', Nat.mod_eq_of_lt (lt_of_le_of_lt hx (hb.entryOffset_lt hi))]

/-- The bytes before the unshared key bytes of entry `i` are the entries up to
it and its three lengths. -/
theorem Built.keyStart_eq (hb : Built r d kvs) {i : Nat} (hi : i < kvs.length) :
    dataEnd r d kvs - ((keyAt kvs i).drop (sharedAt r d kvs i) ++ valueAt kvs i ++
      between r d kvs (entryOffset r d kvs (i + 1)) (dataEnd r d kvs)).length =
      keyStart r d kvs i := by
  have hend := entryOffset_mono (r := r) (d := d) (show i + 1 ≤ kvs.length by omega) le_rfl
  have hbetween := length_between r d kvs hend
    (by rw [length_blockContents_eq]; unfold dataEnd; omega)
  have hv := length_sub_sharedAt_le r d kvs i
  have hsucc := entryOffset_succ (r := r) (d := d) hi
  have hfit := hb.entryOffset_lt (le_refl kvs.length)
  unfold dataEnd at hbetween ⊢
  simp only [List.length_append, List.length_drop, hbetween, keyStart]
  omega

/-- The value of entry `i` ends where entry `i + 1` starts. -/
theorem valueStart_add {i : Nat} (hi : i < kvs.length) :
    valueStart r d kvs i + (valueAt kvs i).length = entryOffset r d kvs (i + 1) := by
  have hsucc := entryOffset_succ (r := r) (d := d) hi
  have hlen := length_sub_sharedAt_le r d kvs i
  unfold valueStart
  omega

/-- There are no more entries than bytes before the restart array. -/
theorem length_le_dataEnd (r : Nat) (d : Bool) (kvs : List (List UInt8 × List UInt8)) :
    kvs.length ≤ dataEnd r d kvs := by
  rcases Nat.eq_zero_or_pos kvs.length with h | h
  · omega
  · have := entryOffset_lt (r := r) (d := d) h le_rfl
    unfold dataEnd
    omega

theorem one_le_numRestartsOf (r n : Nat) : 1 ≤ numRestartsOf r n := by
  simp [numRestartsOf]

theorem keyAt_eq_getElem {i : Nat} (hi : i < (kvs.map Prod.fst).length) :
    keyAt kvs i = (kvs.map Prod.fst)[i] := by
  simp [keyAt, List.getElem?_eq_getElem (by simpa using hi : i < kvs.length)]

end BlockBuilder

/-! ## Where the iterator stands -/

namespace BlockIter

open BlockBuilder

section Positions

variable (r : Nat) (d : Bool) (kvs : List (List UInt8 × List UInt8))

/-- The entry `Prev` caches for entry `i`. -/
def cacheEntry (i : Nat) : CachedPrevEntry :=
  ⟨entryOffset r d kvs i, keyAt kvs i, decide (sharedAt r d kvs i = 0), valueStart r d kvs i,
    (valueAt kvs i).length⟩

/-- The entries `Prev` remembers are consecutive entries from a restart point,
at most one restart block of them, and the index names one of them or is `-1`. -/
def CacheOk (cache : List CachedPrevEntry) (idx : Int) : Prop :=
  (∃ a, a % r = 0 ∧ cache.length ≤ r ∧ a + cache.length ≤ kvs.length ∧
    cache = (List.range cache.length).map fun m => cacheEntry r d kvs (a + m)) ∧
  (idx = -1 ∨ (0 ≤ idx ∧ idx < cache.length))

/-- The iterator reads the built block, with status OK and a sound cache. -/
structure Over (it : BlockIter) : Prop where
  data : it.data = blockContents r d kvs
  hasData : it.hasData = true
  restarts : it.restarts = dataEnd r d kvs
  numRestarts : it.numRestarts = numRestartsOf r kvs.length
  status : it.status = .ok
  globalSeqno : it.globalSeqno = kDisableGlobalSequenceNumber
  cache : CacheOk r d kvs it.prevEntries it.prevEntriesIdx

/-- The iterator on entry `i`: its offset, key and value, and a restart index
whose restart block holds the entry, or ends at it. -/
structure At (it : BlockIter) (i : Nat) : Prop where
  onBlock : Over r d kvs it
  lt : i < kvs.length
  current : it.current = entryOffset r d kvs i
  key : it.key = keyAt kvs i
  keyPinned : it.keyPinned = decide (sharedAt r d kvs i = 0)
  valueOffset : it.valueOffset = valueStart r d kvs i
  valueSize : it.valueSize = (valueAt kvs i).length
  restartIndex_le : it.restartIndex * r ≤ i
  le_restartIndex : i ≤ it.restartIndex * r + r

/-- The iterator past the last entry. -/
structure Done (it : BlockIter) : Prop where
  onBlock : Over r d kvs it
  current : it.current = dataEnd r d kvs
  restartIndex : it.restartIndex = numRestartsOf r kvs.length

/-- The iterator at cursor position `p`: on entry `p`, or past the last one
when `p` is the number of entries. -/
def Positioned (it : BlockIter) (p : Nat) : Prop :=
  (p < kvs.length ∧ At r d kvs it p) ∨ (p = kvs.length ∧ Done r d kvs it)

/-- The key entry `i` shares with `key`, as `ParseNextKey` needs it. -/
def Shares (key : List UInt8) (i : Nat) : Prop :=
  sharedAt r d kvs i ≤ key.length ∧ key.take (sharedAt r d kvs i) = (keyAt kvs i).take (sharedAt r d kvs i)

/-- The iterator `ParseNextKey` leaves on entry `i`, before its restart index
moves. -/
def onEntry (it : BlockIter) (i : Nat) : BlockIter :=
  { it with
    current := entryOffset r d kvs i, key := keyAt kvs i,
    keyPinned := decide (sharedAt r d kvs i = 0), valueOffset := valueStart r d kvs i,
    valueSize := (valueAt kvs i).length }

end Positions

variable {r : Nat} {d : Bool} {kvs : List (List UInt8 × List UInt8)}

/-- A restart point, or an entry after the first of a restart block, shares what
the block needs. -/
theorem shares_of_restart (key : List UInt8) {i : Nat} (hi : i % r = 0) : Shares r d kvs key i := by
  simp [Shares, sharedAt, hi]

theorem shares_prev {i : Nat} : Shares r d kvs (keyAt kvs (i - 1)) i := by
  unfold Shares sharedAt
  split_ifs
  · simp
  · exact ⟨diffIndex_le_length_right _ _, (take_diffIndex _ _).symm⟩
  · simp

theorem over_onEntry {it : BlockIter} (ho : it.Over r d kvs) (i : Nat) :
    (onEntry r d kvs it i).Over r d kvs :=
  ⟨ho.data, ho.hasData, ho.restarts, ho.numRestarts, ho.status, ho.globalSeqno, ho.cache⟩

/-- `GetRestartPoint(j)` is the offset of entry `j * r`. -/
theorem Over.getRestartPoint (hb : Built r d kvs) {it : BlockIter} (ho : it.Over r d kvs)
    {j : Nat} (hj : j < numRestartsOf r kvs.length) :
    it.getRestartPoint j = entryOffset r d kvs (j * r) := by
  rw [BlockIter.getRestartPoint, ho.data, ho.restarts]
  exact hb.restartPoint hj

theorem lt_numRestartsOf_of_mul_le (hb : Built r d kvs) {j i : Nat} (hi : i < kvs.length)
    (hj : j * r ≤ i) : j < numRestartsOf r kvs.length :=
  (lt_numRestartsOf_iff hb.interval_pos (by omega) j).mpr (by omega)

/-- The loop at the end of `ParseNextKey` stops at a restart block that holds
entry `i`, or ends at it, given enough fuel. -/
theorem Over.advanceRestartIndex (hb : Built r d kvs) {it : BlockIter} (ho : it.Over r d kvs)
    {i : Nat} (hi : i < kvs.length) (hcur : it.current = entryOffset r d kvs i) :
    ∀ fuel index, index * r ≤ i → numRestartsOf r kvs.length ≤ index + fuel →
      it.advanceRestartIndex fuel index * r ≤ i ∧
        i ≤ it.advanceRestartIndex fuel index * r + r := by
  intro fuel
  induction fuel with
  | zero =>
    intro index hidx hfuel
    have := lt_numRestartsOf_of_mul_le hb hi hidx
    omega
  | succ fuel ih =>
    intro index hidx hfuel
    have hnum := ho.numRestarts
    unfold BlockIter.advanceRestartIndex
    by_cases hnext : index + 1 < it.numRestarts
    · have hnext' : index + 1 < numRestartsOf r kvs.length := hnum ▸ hnext
      have hle : (index + 1) * r ≤ kvs.length :=
        mul_le_of_lt_numRestartsOf hb.interval_pos hnext'
      have hpoint : it.getRestartPoint (index + 1) < it.current ↔ (index + 1) * r < i := by
        rw [ho.getRestartPoint hb hnext', hcur, entryOffset_lt_iff hle hi.le]
      by_cases hbefore : (index + 1) * r < i
      · -- the next restart point is before the entry: move past it
        rw [if_pos ⟨hnext, hpoint.mpr hbefore⟩]
        exact ih (index + 1) hbefore.le (by omega)
      · rw [if_neg fun h => hbefore (hpoint.mp h.2)]
        exact ⟨hidx, by rw [Nat.add_mul, one_mul] at hbefore; omega⟩
    · -- the last restart block: it reaches past the last entry
      rw [if_neg fun h => hnext h.1]
      have hlast : ¬(index + 1) * r < kvs.length := fun h =>
        hnext (hnum ▸ (lt_numRestartsOf_iff hb.interval_pos (by omega) _).mpr h)
      exact ⟨hidx, by rw [Nat.add_mul, one_mul] at hlast; omega⟩

/-- `ParseNextKey` before entry `i`: the iterator on it, its restart index moved
to the restart block of the entry. -/
theorem Over.parseNextKey_eq (hb : Built r d kvs) {it : BlockIter} (ho : it.Over r d kvs)
    {i : Nat} (hi : i < kvs.length) (hnext : it.nextEntryOffset = entryOffset r d kvs i)
    (hkey : Shares r d kvs it.key i) :
    it.parseNextKey =
      ({ onEntry r d kvs it i with
          restartIndex := (onEntry r d kvs it i).advanceRestartIndex it.numRestarts it.restartIndex },
        true) := by
  have hlt : entryOffset r d kvs i < dataEnd r d kvs :=
    (entryOffset_lt_iff hi.le le_rfl).mpr hi
  have hs := hb.toNat_ofNat hi (x := sharedAt r d kvs i)
    (le_trans (sharedAt_le_length i) (length_keyAt_le hi))
  have hk := hb.toNat_ofNat hi (x := (keyAt kvs i).length - sharedAt r d kvs i)
    (le_trans (Nat.sub_le _ _) (length_keyAt_le hi))
  have hv := hb.toNat_ofNat hi (x := (valueAt kvs i).length)
    (by have := length_sub_sharedAt_le r d kvs i
        rw [entryOffset_succ hi]; omega)
  have hs0 : UInt32.ofNat (sharedAt r d kvs i) = 0 ↔ sharedAt r d kvs i = 0 := by
    rw [← UInt32.toNat_inj, hs, UInt32.toNat_zero]
  -- the unshared key bytes, read in place
  have hdelta : ((blockContents r d kvs).drop (keyStart r d kvs i)).take
      ((keyAt kvs i).length - sharedAt r d kvs i) = (keyAt kvs i).drop (sharedAt r d kvs i) := by
    rw [drop_keyStart hi, List.append_assoc, List.take_left' (by simp)]
  -- a key stored whole, or rebuilt from the bytes it shares with the key before
  have hkeyEq : (if UInt32.ofNat (sharedAt r d kvs i) = 0 then
      ((keyAt kvs i).drop (sharedAt r d kvs i), true)
      else (it.key.take (sharedAt r d kvs i) ++ (keyAt kvs i).drop (sharedAt r d kvs i), false)) =
      (keyAt kvs i, decide (sharedAt r d kvs i = 0)) := by
    by_cases h0 : sharedAt r d kvs i = 0
    · rw [if_pos (hs0.mpr h0)]
      simp [h0]
    · rw [if_neg (mt hs0.mp h0), hkey.2, List.take_append_drop]
      simp [h0]
  unfold parseNextKey
  simp only [hnext, ho.restarts, if_neg (Nat.not_le.mpr hlt), ho.data, hb.decodeEntry_at hi, hs,
    if_neg (Nat.not_lt.mpr hkey.1), hb.keyStart_eq hi, ho.globalSeqno, ne_eq, not_true_eq_false,
    if_false, hk]
  simp only [hdelta, hkeyEq, hv, ← valueStart_eq hi]
  simp only [BlockIter.onEntry, ho.data, ho.restarts, ho.globalSeqno]

/-- `ParseNextKey` before entry `i` lands on it. -/
theorem Over.parseNextKey_at (hb : Built r d kvs) {it : BlockIter} (ho : it.Over r d kvs)
    {i : Nat} (hi : i < kvs.length) (hnext : it.nextEntryOffset = entryOffset r d kvs i)
    (hkey : Shares r d kvs it.key i) (hidx : it.restartIndex * r ≤ i) :
    it.parseNextKey.2 = true ∧ it.parseNextKey.1.At r d kvs i ∧
      it.parseNextKey.1.prevEntries = it.prevEntries ∧
      it.parseNextKey.1.prevEntriesIdx = it.prevEntriesIdx := by
  rw [ho.parseNextKey_eq hb hi hnext hkey]
  have hbounds := (over_onEntry ho i).advanceRestartIndex hb hi rfl it.numRestarts it.restartIndex hidx
    (by rw [ho.numRestarts]; omega)
  exact ⟨rfl, ⟨⟨ho.data, ho.hasData, ho.restarts, ho.numRestarts, ho.status, ho.globalSeqno,
    ho.cache⟩, hi, rfl, rfl, rfl, rfl, rfl, hbounds.1, hbounds.2⟩, rfl, rfl⟩

/-- `ParseNextKey` past the last entry. -/
theorem Over.parseNextKey_done {it : BlockIter} (ho : it.Over r d kvs)
    (hnext : it.nextEntryOffset = dataEnd r d kvs) :
    it.parseNextKey.2 = false ∧ it.parseNextKey.1.Done r d kvs ∧
      it.parseNextKey.1.prevEntries = it.prevEntries ∧
      it.parseNextKey.1.prevEntriesIdx = it.prevEntriesIdx := by
  unfold parseNextKey
  simp only [hnext, ho.restarts, ge_iff_le, le_refl, if_true]
  exact ⟨trivial, ⟨⟨ho.data, ho.hasData, rfl, ho.numRestarts, ho.status, ho.globalSeqno, ho.cache⟩,
    rfl, ho.numRestarts⟩, trivial, trivial⟩

theorem At.positioned {it : BlockIter} {i : Nat} (h : it.At r d kvs i) :
    it.Positioned r d kvs i :=
  Or.inl ⟨h.lt, h⟩

theorem Done.positioned {it : BlockIter} (h : it.Done r d kvs) :
    it.Positioned r d kvs kvs.length :=
  Or.inr ⟨rfl, h⟩

theorem Positioned.over {it : BlockIter} {p : Nat} (h : it.Positioned r d kvs p) :
    it.Over r d kvs := by
  rcases h with ⟨-, h⟩ | ⟨-, h⟩
  · exact h.onBlock
  · exact h.onBlock

theorem Positioned.le {it : BlockIter} {p : Nat} (h : it.Positioned r d kvs p) :
    p ≤ kvs.length := by
  rcases h with ⟨hp, -⟩ | ⟨rfl, -⟩ <;> omega

/-- `ParseNextKey` before entry `i`, or before the restart array when `i` is the
number of entries. -/
theorem Over.positioned_parseNextKey (hb : Built r d kvs) {it : BlockIter} (ho : it.Over r d kvs)
    {i : Nat} (hi : i ≤ kvs.length) (hnext : it.nextEntryOffset = entryOffset r d kvs i)
    (hkey : Shares r d kvs it.key i) (hidx : it.restartIndex * r ≤ i) :
    it.parseNextKey.1.Positioned r d kvs i ∧ it.parseNextKey.2 = decide (i < kvs.length) := by
  rcases Nat.lt_or_eq_of_le hi with hlt | rfl
  · obtain ⟨hok, hat, -, -⟩ := ho.parseNextKey_at hb hlt hnext hkey hidx
    exact ⟨hat.positioned, by simp [hok, hlt]⟩
  · obtain ⟨hok, hdone, -, -⟩ := ho.parseNextKey_done hnext
    exact ⟨hdone.positioned, by simp [hok]⟩

theorem At.valid {it : BlockIter} {i : Nat} (h : it.At r d kvs i) : it.valid = true := by
  simp [BlockIter.valid, h.current, h.onBlock.restarts, dataEnd,
    entryOffset_lt_iff h.lt.le le_rfl, h.lt]

theorem Done.valid {it : BlockIter} (h : it.Done r d kvs) : it.valid = false := by
  simp [BlockIter.valid, h.current, h.onBlock.restarts]

theorem At.nextEntryOffset (hb : Built r d kvs) {it : BlockIter} {i : Nat} (h : it.At r d kvs i) :
    it.nextEntryOffset = entryOffset r d kvs (i + 1) := by
  rw [BlockIter.nextEntryOffset, h.valueOffset, h.valueSize, valueStart_add h.lt,
    Nat.mod_eq_of_lt (hb.entryOffset_lt h.lt)]

/-- The key of entry `i` is what entry `i + 1` shares with. -/
theorem At.shares_next {it : BlockIter} {i : Nat} (h : it.At r d kvs i) :
    Shares r d kvs it.key (i + 1) := by
  rw [h.key]
  have hs : Shares r d kvs (keyAt kvs (i + 1 - 1)) (i + 1) := shares_prev
  simpa using hs

/-- `Next()` on entry `i`: entry `i + 1`, or past the last one. -/
theorem At.next (hb : Built r d kvs) {it : BlockIter} {i : Nat} (h : it.At r d kvs i) :
    it.next.Positioned r d kvs (i + 1) :=
  (h.onBlock.positioned_parseNextKey hb h.lt (h.nextEntryOffset hb) h.shares_next
    (Nat.le_succ_of_le h.restartIndex_le)).1

theorem Over.seekToRestartPoint {it : BlockIter} (ho : it.Over r d kvs) (j : Nat) :
    (it.seekToRestartPoint j).Over r d kvs :=
  ⟨ho.data, ho.hasData, ho.restarts, ho.numRestarts, ho.status, ho.globalSeqno, ho.cache⟩

theorem Over.nextEntryOffset_seekToRestartPoint (hb : Built r d kvs) {it : BlockIter}
    (ho : it.Over r d kvs) {j : Nat} (hj : j < numRestartsOf r kvs.length) :
    (it.seekToRestartPoint j).nextEntryOffset = entryOffset r d kvs (j * r) := by
  have hjr := mul_le_of_lt_numRestartsOf hb.interval_pos hj
  simp only [BlockIter.nextEntryOffset, BlockIter.seekToRestartPoint, Nat.add_zero]
  rw [ho.getRestartPoint hb hj, Nat.mod_eq_of_lt (hb.entryOffset_lt hjr)]

/-- `SeekToRestartPoint(j)`, then `ParseNextKey`: the first entry of restart
block `j`. -/
theorem Over.parseNextKey_seekToRestartPoint (hb : Built r d kvs) {it : BlockIter}
    (ho : it.Over r d kvs) {j : Nat} (hj : j < numRestartsOf r kvs.length) :
    (it.seekToRestartPoint j).parseNextKey.1.Positioned r d kvs (j * r) ∧
      (it.seekToRestartPoint j).parseNextKey.2 = decide (j * r < kvs.length) :=
  (ho.seekToRestartPoint j).positioned_parseNextKey hb
    (mul_le_of_lt_numRestartsOf hb.interval_pos hj) (ho.nextEntryOffset_seekToRestartPoint hb hj)
    (shares_of_restart _ (Nat.mul_mod_left j r)) le_rfl

/-- `SeekToFirst()`: the first entry. -/
theorem Over.seekToFirst (hb : Built r d kvs) {it : BlockIter} (ho : it.Over r d kvs) :
    it.seekToFirst.Positioned r d kvs 0 := by
  have h := (ho.parseNextKey_seekToRestartPoint hb (one_le_numRestartsOf r kvs.length)).1
  rw [zero_mul] at h
  rw [BlockIter.seekToFirst, if_neg (by simp [ho.hasData])]
  exact h

/-- The loop of `SeekToLast`, from before entry `j`: it parses up to the last
entry. -/
theorem Over.skipToLast (hb : Built r d kvs) :
    ∀ fuel (it : BlockIter) (j : Nat), it.Over r d kvs → j ≤ kvs.length - 1 →
      it.nextEntryOffset = entryOffset r d kvs j → Shares r d kvs it.key j →
      it.restartIndex * r ≤ j → kvs.length - j < fuel →
      (BlockIter.skipToLast fuel it).Positioned r d kvs (kvs.length - 1) := by
  intro fuel
  induction fuel with
  | zero => intro it j _ _ _ _ _ hfuel; omega
  | succ fuel ih =>
    intro it j ho hj hnext hkey hidx hfuel
    obtain ⟨hpos, hok⟩ := ho.positioned_parseNextKey hb (by omega) hnext hkey hidx
    unfold BlockIter.skipToLast
    rcases hp : it.parseNextKey with ⟨it', ok⟩
    rw [hp] at hpos hok
    dsimp only at hpos hok ⊢
    rcases hpos with ⟨hlt, hat⟩ | ⟨rfl, hdone⟩
    · have hcont : it'.nextEntryOffset < it'.restarts ↔ j + 1 < kvs.length := by
        rw [hat.nextEntryOffset hb, hat.onBlock.restarts, dataEnd, entryOffset_lt_iff hlt le_rfl]
      by_cases hmore : j + 1 < kvs.length
      · -- not yet the last entry: the loop goes on
        rw [if_pos ⟨by simp [hok, hlt], hcont.mpr hmore⟩]
        exact ih it' (j + 1) hat.onBlock (by omega) (hat.nextEntryOffset hb) hat.shares_next
          (Nat.le_succ_of_le hat.restartIndex_le) (by omega)
      · rw [if_neg fun h => hmore (hcont.mp h.2)]
        obtain rfl : j = kvs.length - 1 := by omega
        exact hat.positioned
    · -- no entries at all
      rw [if_neg (by simp [hok])]
      obtain h0 : kvs.length = 0 := by omega
      simpa [h0] using hdone.positioned

/-- `SeekToLast()`: the last entry, or past it when there are none. -/
theorem Over.seekToLast (hb : Built r d kvs) {it : BlockIter} (ho : it.Over r d kvs) :
    it.seekToLast.Positioned r d kvs (kvs.length - 1) := by
  have hN := one_le_numRestartsOf r kvs.length
  have hlast : (numRestartsOf r kvs.length - 1) * r ≤ kvs.length - 1 := by
    rcases Nat.eq_zero_or_pos kvs.length with h0 | hpos
    · simp [h0, numRestartsOf]
    · have := (lt_numRestartsOf_iff hb.interval_pos hpos _).mp (show
        numRestartsOf r kvs.length - 1 < numRestartsOf r kvs.length by omega)
      omega
  have hj : numRestartsOf r kvs.length - 1 < numRestartsOf r kvs.length := by omega
  have hdata := length_le_dataEnd r d kvs
  rw [BlockIter.seekToLast, if_neg (by simp [ho.hasData]), ho.numRestarts, ho.restarts]
  exact (ho.seekToRestartPoint _).skipToLast hb _ _ _ hlast
    (ho.nextEntryOffset_seekToRestartPoint hb hj) (shares_of_restart _ (Nat.mul_mod_left _ r))
    le_rfl (by omega)

/-! ### `Prev` and the entries it remembers -/

/-- A run of `m` entries from a restart point `a`, at most a restart block of
them, with an index naming one of them or `-1`, is a sound cache. -/
theorem cacheOk_range {a m : Nat} {idx : Int} (ha : a % r = 0) (hm : m ≤ r)
    (hn : a + m ≤ kvs.length) (hidx : idx = -1 ∨ (0 ≤ idx ∧ idx < m)) :
    CacheOk r d kvs ((List.range m).map fun k => cacheEntry r d kvs (a + k)) idx :=
  ⟨⟨a, ha, by simpa using hm, by simpa using hn, by simp⟩, by simpa using hidx⟩

theorem cacheOk_nil : CacheOk r d kvs [] (-1) :=
  ⟨⟨0, Nat.zero_mod r, by simp, by simp, by simp⟩, Or.inl rfl⟩

theorem At.setCache {it : BlockIter} {i : Nat} (h : it.At r d kvs i) {c : List CachedPrevEntry}
    {x : Int} (hc : CacheOk r d kvs c x) :
    ({ it with prevEntries := c, prevEntriesIdx := x } : BlockIter).At r d kvs i :=
  ⟨⟨h.onBlock.data, h.onBlock.hasData, h.onBlock.restarts, h.onBlock.numRestarts,
    h.onBlock.status, h.onBlock.globalSeqno, hc⟩, h.lt, h.current, h.key, h.keyPinned,
    h.valueOffset, h.valueSize, h.restartIndex_le, h.le_restartIndex⟩

theorem At.cachedEntry {it : BlockIter} {i : Nat} (h : it.At r d kvs i) :
    it.cachedEntry = cacheEntry r d kvs i := by
  simp only [BlockIter.cachedEntry, cacheEntry, h.current, h.key, h.keyPinned, h.valueOffset,
    h.valueSize]

/-- A multiple of `r` at most `i` is at most the restart point `a` when `i` is in
the restart block from `a`. -/
theorem mul_le_of_lt_add {x a i : Nat} (ha : a % r = 0) (hx : x * r ≤ i) (hi : i < a + r) :
    x * r ≤ a := by
  have ha' : a / r * r = a := Nat.div_mul_cancel (Nat.dvd_of_mod_eq_zero ha)
  by_contra hlt
  have hq : a / r + 1 ≤ x := by
    by_contra hle
    have := Nat.mul_le_mul_right r (show x ≤ a / r by omega)
    omega
  have := Nat.mul_le_mul_right r hq
  rw [Nat.add_mul, one_mul, ha'] at this
  omega

/-- The loop of `Prev` that moves the restart index down to a restart point
before entry `i`: none when `i` is the first entry, else the restart block that
holds the entry before it. -/
theorem Over.restartBefore (hb : Built r d kvs) {it : BlockIter} (ho : it.Over r d kvs) {i : Nat}
    (hi : i < kvs.length) :
    ∀ fuel index, index * r ≤ i → i ≤ index * r + r → index < fuel →
      (i = 0 ∧ it.restartBefore (entryOffset r d kvs i) fuel index = none) ∨
        ∃ k, it.restartBefore (entryOffset r d kvs i) fuel index = some k ∧ k * r < i ∧
          i ≤ k * r + r := by
  intro fuel
  induction fuel with
  | zero => intro index _ _ hfuel; omega
  | succ fuel ih =>
    intro index hlo hhi hfuel
    have hidx := lt_numRestartsOf_of_mul_le hb hi hlo
    have hpoint : it.getRestartPoint index ≥ entryOffset r d kvs i ↔ i ≤ index * r := by
      rw [ho.getRestartPoint hb hidx, ge_iff_le, ← Nat.not_lt,
        entryOffset_lt_iff (mul_le_of_lt_numRestartsOf hb.interval_pos hidx) hi.le, Nat.not_lt]
    unfold BlockIter.restartBefore
    by_cases hat : i ≤ index * r
    · rw [if_pos (hpoint.mpr hat)]
      rcases index with _ | k
      · -- the restart point of the first entry: no entry before it
        left
        exact ⟨by omega, by simp⟩
      · -- the entry is a restart point: the block before it holds the entry before
        rw [if_neg (Nat.succ_ne_zero k), Nat.add_sub_cancel]
        rw [Nat.add_mul, one_mul] at hlo hat
        exact ih k (by omega) (by omega) (by omega)
    · rw [if_neg fun h => hat (hpoint.mp h)]
      exact Or.inr ⟨index, rfl, by omega, hhi⟩

/-- The `do … while` loop of `Prev`, from before entry `j` of the restart block
from `a` that holds entry `i - 1`: it stops on entry `i - 1`, having remembered
the entries from `a` on. -/
theorem Over.scanToPrev (hb : Built r d kvs) {i a : Nat} (hi : i < kvs.length) (ha : a % r = 0)
    (hia : i ≤ a + r) :
    ∀ fuel (it : BlockIter) (j : Nat), it.Over r d kvs → a ≤ j → j < i →
      it.prevEntries = (List.range (j - a)).map (fun m => cacheEntry r d kvs (a + m)) →
      it.prevEntriesIdx = -1 → it.nextEntryOffset = entryOffset r d kvs j →
      Shares r d kvs it.key j → it.restartIndex * r ≤ j → i - j ≤ fuel →
      (BlockIter.scanToPrev (entryOffset r d kvs i) fuel it).At r d kvs (i - 1) ∧
        (BlockIter.scanToPrev (entryOffset r d kvs i) fuel it).prevEntries =
          (List.range (i - a)).map (fun m => cacheEntry r d kvs (a + m)) := by
  intro fuel
  induction fuel with
  | zero => intro it j _ _ hji _ _ _ _ _ hfuel; omega
  | succ fuel ih =>
    intro it j ho haj hji hcache hidx hnext hkey hrestart hfuel
    obtain ⟨hok, hat, hentries, hidx'⟩ := ho.parseNextKey_at hb (by omega) hnext hkey hrestart
    unfold BlockIter.scanToPrev
    rcases hp : it.parseNextKey with ⟨it', ok⟩
    rw [hp] at hok hat hentries hidx'
    dsimp only at hok hat hentries hidx' ⊢
    rw [if_neg (by simp [hok])]
    -- entry `j` joins the remembered entries
    have hcache' : it'.prevEntries ++ [it'.cachedEntry] =
        (List.range (j + 1 - a)).map (fun m => cacheEntry r d kvs (a + m)) := by
      rw [hentries, hcache, hat.cachedEntry, show j + 1 - a = (j - a) + 1 by omega,
        List.range_succ, List.map_append]
      simp [show a + (j - a) = j by omega]
    have hat' := hat.setCache (x := it'.prevEntriesIdx) (c := it'.prevEntries ++ [it'.cachedEntry])
      (by rw [hcache', hidx', hidx]; exact cacheOk_range ha (by omega) (by omega) (Or.inl rfl))
    have hcont : it'.nextEntryOffset < entryOffset r d kvs i ↔ j + 1 < i := by
      rw [hat.nextEntryOffset hb, entryOffset_lt_iff (show j + 1 ≤ kvs.length by omega) hi.le]
    split_ifs with hmore
    · -- entry `j + 1` is still before entry `i`: the loop goes on
      exact ih _ (j + 1) hat'.onBlock (by omega) (hcont.mp hmore) hcache' (hidx'.trans hidx)
        (hat.nextEntryOffset hb) hat.shares_next (Nat.le_succ_of_le hat.restartIndex_le)
        (by omega)
    · have hlast : j + 1 = i := by have := mt hcont.mpr hmore; omega
      rw [← hlast, Nat.add_sub_cancel]
      exact ⟨hat', hcache'⟩

/-- `Prev()` reading the entry before the current one from its cache. -/
theorem At.prev_cached {it : BlockIter} {i : Nat} (h : it.At r d kvs i)
    (hc : 0 < it.prevEntriesIdx ∧
      (it.prevEntries.getD it.prevEntriesIdx.toNat default).offset = it.current) :
    0 < i ∧ it.prev.At r d kvs (i - 1) := by
  obtain ⟨⟨a, ha, hlen, han, hcache⟩, hidx⟩ := h.onBlock.cache
  have hk : it.prevEntriesIdx.toNat < it.prevEntries.length := by omega
  have hentry : ∀ k, k < it.prevEntries.length →
      it.prevEntries.getD k default = cacheEntry r d kvs (a + k) := by
    intro k hk
    rw [hcache]
    simp [List.getElem?_range hk]
  -- the cached entry at the index is the current one
  have hpos : a + it.prevEntriesIdx.toNat = i := by
    have hoff := hc.2
    rw [hentry _ hk, h.current] at hoff
    exact entryOffset_injective (by omega) h.lt.le hoff
  have hprevIdx : (it.prevEntriesIdx - 1).toNat = it.prevEntriesIdx.toNat - 1 := by omega
  have he := hentry (it.prevEntriesIdx.toNat - 1) (by omega)
  refine ⟨by omega, ?_⟩
  unfold BlockIter.prev
  rw [if_pos hc]
  dsimp only
  rw [hprevIdx, he, show a + (it.prevEntriesIdx.toNat - 1) = i - 1 by omega]
  -- the restart index stays: its block starts at or before the cached run
  have hrestart := mul_le_of_lt_add ha h.restartIndex_le (show i < a + r by omega)
  have hcache' : CacheOk r d kvs it.prevEntries (it.prevEntriesIdx - 1) :=
    ⟨⟨a, ha, hlen, han, hcache⟩, Or.inr ⟨by omega, by omega⟩⟩
  exact ⟨⟨h.onBlock.data, h.onBlock.hasData, h.onBlock.restarts, h.onBlock.numRestarts,
    h.onBlock.status, h.onBlock.globalSeqno, hcache'⟩, by omega, rfl, rfl, rfl, rfl, rfl,
    show it.restartIndex * r ≤ i - 1 by omega,
    show i - 1 ≤ it.restartIndex * r + r by have := h.le_restartIndex; omega⟩

/-- `Prev()` when the cache does not hold the entry before the current one: the
restart block before the entry is scanned again. -/
theorem At.prev_uncached (hb : Built r d kvs) {it : BlockIter} {i : Nat} (h : it.At r d kvs i)
    (hc : ¬(0 < it.prevEntriesIdx ∧
      (it.prevEntries.getD it.prevEntriesIdx.toNat default).offset = it.current)) :
    it.prev.Positioned r d kvs (if i = 0 then kvs.length else i - 1) := by
  have hcleared := h.setCache (c := []) (x := -1) cacheOk_nil
  have hdata := length_le_dataEnd r d kvs
  unfold BlockIter.prev
  rw [if_neg hc]
  dsimp only
  rcases hcleared.onBlock.restartBefore hb h.lt (it.restartIndex + 1) it.restartIndex
      h.restartIndex_le h.le_restartIndex (Nat.lt_succ_self _) with ⟨hi0, hnone⟩ | ⟨k, hsome, hk, hik⟩
  · -- the first entry: `Prev` leaves the iterator past the last one
    rw [← h.current] at hnone
    rw [if_pos hi0, hnone]
    exact Done.positioned ⟨⟨h.onBlock.data, h.onBlock.hasData, h.onBlock.restarts,
      h.onBlock.numRestarts, h.onBlock.status, h.onBlock.globalSeqno, hcleared.onBlock.cache⟩,
      h.onBlock.restarts, h.onBlock.numRestarts⟩
  · rw [← h.current] at hsome
    rw [if_neg (by omega), hsome]
    dsimp only
    have hk' := lt_numRestartsOf_of_mul_le hb h.lt hk.le
    have hi := h.lt
    obtain ⟨hat, hentries⟩ := (hcleared.onBlock.seekToRestartPoint k).scanToPrev hb h.lt
      (Nat.mul_mod_left k r) hik (it.restarts + 1) _ (k * r) le_rfl hk
      (by simp [BlockIter.seekToRestartPoint]) rfl
      (hcleared.onBlock.nextEntryOffset_seekToRestartPoint hb hk')
      (shares_of_restart _ (Nat.mul_mod_left k r)) le_rfl
      (by rw [h.onBlock.restarts]; omega)
    rw [← h.current] at hat hentries
    refine (hat.setCache ?_).positioned
    rw [hentries]
    exact cacheOk_range (Nat.mul_mod_left k r) (by omega) (by omega)
      (Or.inr ⟨by simp; omega, by simp⟩)

/-- `Prev()` on entry `i`: entry `i - 1`, or past the last entry from the first. -/
theorem At.prev (hb : Built r d kvs) {it : BlockIter} {i : Nat} (h : it.At r d kvs i) :
    it.prev.Positioned r d kvs (if i = 0 then kvs.length else i - 1) := by
  by_cases hc : 0 < it.prevEntriesIdx ∧
      (it.prevEntries.getD it.prevEntriesIdx.toNat default).offset = it.current
  · obtain ⟨hi, hat⟩ := h.prev_cached hc
    rw [if_neg (by omega)]
    exact hat.positioned
  · exact h.prev_uncached hb hc

/-! ### `Seek` and `SeekForPrev` -/

theorem numRestartsOf_lt (hb : Built r d kvs) : numRestartsOf r kvs.length < 2 ^ 30 := by
  have := hb.fits
  rw [length_blockContents_eq] at this
  omega

/-- The key stored whole at restart point `j`, as `BinarySeek` reads it. -/
theorem Over.decodeRestart (hb : Built r d kvs) {it : BlockIter} (ho : it.Over r d kvs) {j : Nat}
    (hj : j * r < kvs.length) :
    ∃ valueLength rest,
      decodeEntry ((it.data.drop (it.getRestartPoint j)).take (it.restarts - it.getRestartPoint j)) =
        some (0, UInt32.ofNat (keyAt kvs (j * r)).length, valueLength, rest) ∧
      (it.data.drop (it.restarts - rest.length)).take
        (UInt32.ofNat (keyAt kvs (j * r)).length).toNat = keyAt kvs (j * r) := by
  have hjN : j < numRestartsOf r kvs.length :=
    (lt_numRestartsOf_iff hb.interval_pos (by omega) j).mpr hj
  have hs : sharedAt r d kvs (j * r) = 0 := by simp [sharedAt]
  have hk := hb.toNat_ofNat hj (x := (keyAt kvs (j * r)).length) (length_keyAt_le hj)
  refine ⟨UInt32.ofNat (valueAt kvs (j * r)).length,
    (keyAt kvs (j * r)).drop (sharedAt r d kvs (j * r)) ++ valueAt kvs (j * r) ++
      between r d kvs (entryOffset r d kvs (j * r + 1)) (dataEnd r d kvs), ?_, ?_⟩
  · rw [ho.getRestartPoint hb hjN, ho.data, ho.restarts, hb.decodeEntry_at hj, hs]
    simp
  · rw [ho.data, ho.restarts, hb.keyStart_eq hj, drop_keyStart hj, hk, hs, List.drop_zero,
      List.append_assoc, List.take_left' rfl]

section Sorted

variable {cmp : List UInt8 → List UInt8 → Ordering}

/-- `BinarySeek` on a built block: the restart point it returns is at or before
the first key not below the target, whatever fuel it is given. -/
theorem Over.binarySeek (hb : Built r d kvs) {it : BlockIter} (ho : it.Over r d kvs)
    (target : List UInt8) :
    ∀ fuel left right, left ≤ right → right < numRestartsOf r kvs.length →
      (left = 0 ∨ cmp (keyAt kvs (left * r)) target ≠ .gt) →
      ∃ index, BlockIter.binarySeek cmp target fuel it left right = (it, some index) ∧
        index < numRestartsOf r kvs.length ∧
        (index = 0 ∨ cmp (keyAt kvs (index * r)) target ≠ .gt) := by
  intro fuel
  induction fuel with
  | zero => intro left right hlr hright hleft; exact ⟨left, rfl, by omega, hleft⟩
  | succ fuel ih =>
    intro left right hlr hright hleft
    unfold BlockIter.binarySeek
    by_cases hlt : left < right
    · rw [if_pos hlt]
      have hsmall := numRestartsOf_lt hb
      have hmod : (left + right + 1) % 2 ^ 32 = left + right + 1 := Nat.mod_eq_of_lt (by omega)
      -- the midpoint is a restart point after `left` with an entry
      have hmid : (left + right + 1) / 2 * r < kvs.length := by
        have hn : 1 ≤ kvs.length := by
          by_contra h0
          simp [show kvs.length = 0 by omega, numRestartsOf] at hright
          omega
        exact (lt_numRestartsOf_iff hb.interval_pos hn _).mp (by omega)
      obtain ⟨v, rest, hdec, hkey⟩ := ho.decodeRestart hb hmid
      simp only [hmod, hdec, hkey, ne_eq, not_true_eq_false, if_false]
      cases hc : cmp (keyAt kvs ((left + right + 1) / 2 * r)) target with
      | lt =>
        exact ih _ right (by omega) hright (Or.inr (by simp [hc]))
      | gt =>
        -- `mid - 1` as a `uint32_t`: no wrap, the midpoint is above `left`
        have hpred : ((left + right + 1) / 2 + 2 ^ 32 - 1) % 2 ^ 32 = (left + right + 1) / 2 - 1 := by
          rw [show (left + right + 1) / 2 + 2 ^ 32 - 1 = ((left + right + 1) / 2 - 1) + 2 ^ 32 by
            omega, Nat.add_mod_right, Nat.mod_eq_of_lt (by omega)]
        rw [hpred]
        exact ih left _ (by omega) (by omega) hleft
      | eq =>
        exact ih _ _ le_rfl (by omega) (Or.inr (by simp [hc]))
    · rw [if_neg hlt]
      exact ⟨left, rfl, by omega, hleft⟩

theorem prevWhileAbove_of_not {target : List UInt8} {it : BlockIter}
    (h : ¬(it.valid ∧ cmp it.key target = .gt)) (fuel : Nat) :
    BlockIter.prevWhileAbove cmp target fuel it = it := by
  cases fuel with
  | zero => rfl
  | succ fuel =>
    unfold BlockIter.prevWhileAbove
    rw [if_neg h]

theorem seek_le_length_keys (target : List UInt8) :
    SortedList.seek cmp (kvs.map Prod.fst) target ≤ kvs.length := by
  have h : SortedList.seek cmp (kvs.map Prod.fst) target ≤ (kvs.map Prod.fst).length :=
    SortedList.seek_le_length _ _
  simpa using h

variable [Std.TransCmp cmp]

/-- A restart point whose key is not above the target is at or before the first
key not below it. -/
theorem mul_le_seek (hs : SortedList.Sorted cmp (kvs.map Prod.fst)) {target : List UInt8}
    {index : Nat} (hN : index < numRestartsOf r kvs.length) (hr : 1 ≤ r)
    (hkey : index = 0 ∨ cmp (keyAt kvs (index * r)) target ≠ .gt) :
    index * r ≤ SortedList.seek cmp (kvs.map Prod.fst) target := by
  rcases hkey with rfl | hkey
  · simp
  rcases Nat.eq_zero_or_pos index with rfl | hpos
  · simp
  have hlt : index * r < kvs.length := by
    rcases Nat.eq_zero_or_pos kvs.length with h0 | hn
    · simp [h0, numRestartsOf] at hN
      omega
    · exact (lt_numRestartsOf_iff hr hn index).mp hN
  have hlt' : index * r < (kvs.map Prod.fst).length := by simpa using hlt
  rw [keyAt_eq_getElem hlt'] at hkey
  cases hc : cmp (kvs.map Prod.fst)[index * r] target with
  | lt => exact ((SortedList.lt_iff_lt_seek hs target hlt').mp hc).le
  | eq => exact (SortedList.seek_eq_of_eq hs hlt' hc).ge
  | gt => exact absurd hc hkey

/-- The linear search of `Seek`, from before entry `j` at or before the first key
not below the target: it stops there. -/
theorem Over.seekLinear (hb : Built r d kvs) (hs : SortedList.Sorted cmp (kvs.map Prod.fst))
    (target : List UInt8) :
    ∀ fuel (it : BlockIter) (j : Nat), it.Over r d kvs →
      j ≤ SortedList.seek cmp (kvs.map Prod.fst) target →
      it.nextEntryOffset = entryOffset r d kvs j → Shares r d kvs it.key j →
      it.restartIndex * r ≤ j → SortedList.seek cmp (kvs.map Prod.fst) target - j < fuel →
      (BlockIter.seekLinear cmp target fuel it).Positioned r d kvs
        (SortedList.seek cmp (kvs.map Prod.fst) target) := by
  have hseek : SortedList.seek cmp (kvs.map Prod.fst) target ≤ kvs.length :=
    seek_le_length_keys target
  intro fuel
  induction fuel with
  | zero => intro it j _ _ _ _ _ hfuel; omega
  | succ fuel ih =>
    intro it j ho hj hnext hkey hidx hfuel
    obtain ⟨hpos, hok⟩ := ho.positioned_parseNextKey hb (by omega) hnext hkey hidx
    unfold BlockIter.seekLinear
    rcases hp : it.parseNextKey with ⟨it', ok⟩
    rw [hp] at hpos hok
    dsimp only at hpos hok ⊢
    rcases hpos with ⟨hlt, hat⟩ | ⟨rfl, hdone⟩
    · have hbelow : cmp it'.key target = .lt ↔ j < SortedList.seek cmp (kvs.map Prod.fst) target := by
        have hlt' : j < (kvs.map Prod.fst).length := by simpa using hlt
        rw [hat.key, keyAt_eq_getElem hlt']
        exact SortedList.lt_iff_lt_seek hs target hlt'
      by_cases hmore : j < SortedList.seek cmp (kvs.map Prod.fst) target
      · -- still below the target: the search goes on
        rw [if_pos ⟨by simp [hok, hlt], hbelow.mpr hmore⟩]
        exact ih it' (j + 1) hat.onBlock hmore (hat.nextEntryOffset hb) hat.shares_next
          (Nat.le_succ_of_le hat.restartIndex_le) (by omega)
      · rw [if_neg fun h => hmore (hbelow.mp h.2)]
        obtain rfl : j = SortedList.seek cmp (kvs.map Prod.fst) target := by omega
        exact hat.positioned
    · -- past the last entry: every key is below the target
      rw [if_neg (by simp [hok])]
      rw [show SortedList.seek cmp (kvs.map Prod.fst) target = kvs.length by omega]
      exact hdone.positioned

/-- `BinarySeek`, then `SeekToRestartPoint` and the linear search, as `Seek` and
`SeekForPrev` do them: the first key not below the target. -/
theorem Over.seekRestartThenLinear (hb : Built r d kvs)
    (hs : SortedList.Sorted cmp (kvs.map Prod.fst)) {it : BlockIter} (ho : it.Over r d kvs)
    (target : List UInt8) :
    ∃ index, BlockIter.binarySeek cmp target it.numRestarts it 0 (it.numRestarts - 1) =
        (it, some index) ∧
      (BlockIter.seekLinear cmp target (it.restarts + 1) (it.seekToRestartPoint index)).Positioned
        r d kvs (SortedList.seek cmp (kvs.map Prod.fst) target) := by
  have hN := one_le_numRestartsOf r kvs.length
  have hnum := ho.numRestarts
  obtain ⟨index, heq, hidx, hkey⟩ := ho.binarySeek hb target it.numRestarts 0
    (it.numRestarts - 1) (Nat.zero_le _) (by omega) (Or.inl rfl)
  have hseek : SortedList.seek cmp (kvs.map Prod.fst) target ≤ kvs.length :=
    seek_le_length_keys target
  have hdata := length_le_dataEnd r d kvs
  refine ⟨index, heq, ?_⟩
  exact (ho.seekToRestartPoint index).seekLinear hb hs target _ _ (index * r)
    (mul_le_seek hs hidx hb.interval_pos hkey) (ho.nextEntryOffset_seekToRestartPoint hb hidx)
    (shares_of_restart _ (Nat.mul_mod_left index r)) le_rfl (by rw [ho.restarts]; omega)

/-- `Seek(target)`: the first key not below the target. -/
theorem Over.seek (hb : Built r d kvs) (hs : SortedList.Sorted cmp (kvs.map Prod.fst))
    {it : BlockIter} (ho : it.Over r d kvs) (target : List UInt8) :
    (it.seek cmp target).Positioned r d kvs (SortedList.seek cmp (kvs.map Prod.fst) target) := by
  obtain ⟨index, heq, hpos⟩ := ho.seekRestartThenLinear hb hs target
  rw [BlockIter.seek, if_neg (by simp [ho.hasData]), heq]
  exact hpos

/-- The loop at the end of `SeekForPrev`, from the first key not below the
target: back one entry when that key is above the target. -/
theorem At.prevWhileAbove (hb : Built r d kvs) (hs : SortedList.Sorted cmp (kvs.map Prod.fst))
    {target : List UInt8} {it : BlockIter}
    (h : it.At r d kvs (SortedList.seek cmp (kvs.map Prod.fst) target)) {fuel : Nat}
    (hfuel : 1 ≤ fuel) :
    (BlockIter.prevWhileAbove cmp target fuel it).Positioned r d kvs
      (SortedList.seekForPrev cmp (kvs.map Prod.fst) target) := by
  obtain ⟨fuel, rfl⟩ : ∃ f, fuel = f + 1 := ⟨fuel - 1, by omega⟩
  have hlen := h.lt
  have hlt : SortedList.seek cmp (kvs.map Prod.fst) target < (kvs.map Prod.fst).length := by
    simpa using h.lt
  have hkey : it.key = (kvs.map Prod.fst)[SortedList.seek cmp (kvs.map Prod.fst) target] := by
    rw [h.key, keyAt_eq_getElem hlt]
  have hnotlt : cmp it.key target ≠ .lt := by
    rw [hkey]
    exact fun hc => absurd ((SortedList.lt_iff_lt_seek hs target hlt).mp hc) (Nat.lt_irrefl _)
  rw [SortedList.seekForPrev_eq hs, List.getElem?_eq_getElem hlt]
  unfold BlockIter.prevWhileAbove
  by_cases heq : cmp it.key target = .eq
  · -- the key equals the target: it stays
    rw [if_neg (by simp [heq]), if_pos ⟨_, rfl, hkey ▸ heq⟩]
    exact h.positioned
  · -- the key is above the target: the entry before is below it, or there is none
    have hgt : cmp it.key target = .gt := by
      cases hc : cmp it.key target <;> simp_all
    rw [if_pos ⟨h.valid, hgt⟩, if_neg (by simp only [Option.some.injEq, exists_eq_left']; rwa [← hkey])]
    have hprev := h.prev hb
    by_cases h0 : SortedList.seek cmp (kvs.map Prod.fst) target = 0
    · rw [if_pos h0] at hprev ⊢
      rw [List.length_map]
      rcases hprev with ⟨hp, -⟩ | ⟨-, hdone⟩
      · omega
      · rw [prevWhileAbove_of_not (by simp [hdone.valid])]
        exact hdone.positioned
    · rw [if_neg h0] at hprev ⊢
      rcases hprev with ⟨-, hat⟩ | ⟨hp, -⟩
      · have hbelow : cmp it.prev.key target = .lt := by
          have hlt' : SortedList.seek cmp (kvs.map Prod.fst) target - 1 <
              (kvs.map Prod.fst).length := by simpa using hat.lt
          rw [hat.key, keyAt_eq_getElem hlt']
          exact (SortedList.lt_iff_lt_seek hs target hlt').mpr (by omega)
        rw [prevWhileAbove_of_not (by simp [hbelow])]
        exact hat.positioned
      · omega

/-- `SeekForPrev(target)`: the last key not above the target. -/
theorem Over.seekForPrev (hb : Built r d kvs) (hs : SortedList.Sorted cmp (kvs.map Prod.fst))
    {it : BlockIter} (ho : it.Over r d kvs) (target : List UInt8) :
    (it.seekForPrev cmp target).Positioned r d kvs
      (SortedList.seekForPrev cmp (kvs.map Prod.fst) target) := by
  obtain ⟨index, heq, hpos⟩ := ho.seekRestartThenLinear hb hs target
  rw [BlockIter.seekForPrev, if_neg (by simp [ho.hasData]), heq]
  dsimp only
  rcases hpos with ⟨-, hat⟩ | ⟨hn, hdone⟩
  · rw [if_neg (by simp [hat.valid])]
    exact hat.prevWhileAbove hb hs (Nat.le_add_left 1 _)
  · -- every key is below the target: the last one
    have hlast : SortedList.seekForPrev cmp (kvs.map Prod.fst) target = kvs.length - 1 := by
      rw [SortedList.seekForPrev_eq hs, hn, List.getElem?_eq_none (by simp)]
      by_cases h0 : kvs.length = 0 <;> simp [h0]
    rw [if_pos (by simp [hdone.valid]), hlast]
    exact hdone.onBlock.seekToLast hb

/-- One operation on a built block of sorted keys moves the iterator as it moves
a cursor over the keys. -/
theorem Positioned.apply (hb : Built r d kvs) (hs : SortedList.Sorted cmp (kvs.map Prod.fst))
    {it : BlockIter} {p : Nat} (h : it.Positioned r d kvs p) (op : SortedList.CursorOp (List UInt8))
    {p' : Nat} (hstep : SortedList.cursorStep cmp (kvs.map Prod.fst) op p = some p') :
    (it.apply cmp op).Positioned r d kvs p' := by
  cases op with
  | seekToFirst =>
    obtain rfl : 0 = p' := Option.some.inj hstep
    exact h.over.seekToFirst hb
  | seekToLast =>
    obtain rfl : kvs.length - 1 = p' := by simpa [SortedList.cursorStep] using hstep
    exact h.over.seekToLast hb
  | seek target =>
    obtain rfl := Option.some.inj hstep
    exact h.over.seek hb hs target
  | seekForPrev target =>
    obtain rfl := Option.some.inj hstep
    exact h.over.seekForPrev hb hs target
  | next =>
    -- `Next` is only asked of a valid iterator
    simp only [SortedList.cursorStep, List.length_map] at hstep
    split_ifs at hstep with hp
    obtain rfl := Option.some.inj hstep
    rcases h with ⟨-, hat⟩ | ⟨rfl, -⟩
    · exact hat.next hb
    · omega
  | prev =>
    simp only [SortedList.cursorStep, List.length_map] at hstep
    by_cases hp : p < kvs.length
    · rw [if_pos hp] at hstep
      obtain rfl := Option.some.inj hstep
      rcases h with ⟨-, hat⟩ | ⟨rfl, -⟩
      · exact hat.prev hb
      · omega
    · rw [if_neg hp] at hstep
      cases hstep

/-- A sequence of operations, by induction over it from the step lemma. -/
theorem Positioned.applyAll (hb : Built r d kvs) (hs : SortedList.Sorted cmp (kvs.map Prod.fst))
    (ops : List (SortedList.CursorOp (List UInt8))) :
    ∀ {it : BlockIter} {p p' : Nat}, it.Positioned r d kvs p →
      SortedList.cursorRun cmp (kvs.map Prod.fst) ops p = some p' →
      (ops.foldl (BlockIter.apply cmp) it).Positioned r d kvs p' := by
  induction ops with
  | nil =>
    intro it p p' h hrun
    obtain rfl := Option.some.inj hrun
    exact h
  | cons op ops ih =>
    intro it p p' h hrun
    obtain ⟨q, hq, hrest⟩ := Option.bind_eq_some_iff.mp hrun
    exact ih (h.apply hb hs op hq) hrest

end Sorted

/-! ## Reading a built block back -/

theorem At.value {it : BlockIter} {i : Nat} (h : it.At r d kvs i) : it.value = valueAt kvs i := by
  rw [BlockIter.value, h.onBlock.data, h.valueOffset, h.valueSize, drop_valueStart h.lt,
    List.take_left' rfl]

/-- `NewIterator` over a built block: past the last entry. -/
theorem done_newIterator (hb : Built r d kvs) :
    (Block.create (blockContents r d kvs) kDisableGlobalSequenceNumber).newIterator.Done r d kvs := by
  rw [hb.newIterator]
  exact ⟨⟨rfl, rfl, rfl, rfl, rfl, rfl, cacheOk_nil⟩, rfl, rfl⟩

/-- What the iterator shows at cursor position `p` over `kvs`: status OK, valid
exactly on an entry, and then the entry's key and value. -/
def Reads (it : BlockIter) (kvs : List (List UInt8 × List UInt8)) (p : Nat) : Prop :=
  it.status = .ok ∧ it.valid = decide (p < kvs.length) ∧
    ∀ hp : p < kvs.length, it.key = kvs[p].1 ∧ it.value = kvs[p].2

theorem Positioned.reads {it : BlockIter} {p : Nat} (h : it.Positioned r d kvs p) :
    it.Reads kvs p := by
  rcases h with ⟨hp, hat⟩ | ⟨rfl, hdone⟩
  · refine ⟨hat.onBlock.status, by simp [hat.valid, hp], fun _ => ⟨?_, ?_⟩⟩
    · rw [hat.key, keyAt, List.getD_eq_getElem _ _ hp]
    · rw [hat.value, valueAt, List.getD_eq_getElem _ _ hp]
  · exact ⟨hdone.onBlock.status, by simp [hdone.valid], fun hp => absurd hp (Nat.lt_irrefl _)⟩

/-- `k` calls of `Next()` from position `i`, up to the end. -/
theorem Positioned.iterate_next (hb : Built r d kvs) :
    ∀ k {it : BlockIter} {i : Nat}, it.Positioned r d kvs i → i + k ≤ kvs.length →
      (BlockIter.next^[k] it).Positioned r d kvs (i + k) := by
  intro k
  induction k with
  | zero => intro it i h _; exact h
  | succ k ih =>
    intro it i h hk
    rw [Function.iterate_succ_apply, show i + (k + 1) = i + 1 + k by omega]
    rcases h with ⟨-, hat⟩ | ⟨rfl, -⟩
    · exact ih (hat.next hb) (by omega)
    · omega

/-- `k` calls of `Prev()` from entry `i`: entry `i - k`, and past the last entry
after the first. -/
theorem Positioned.iterate_prev (hb : Built r d kvs) :
    ∀ k {it : BlockIter} {i : Nat}, it.Positioned r d kvs i → i < kvs.length → k ≤ i + 1 →
      (BlockIter.prev^[k] it).Positioned r d kvs (if k = i + 1 then kvs.length else i - k) := by
  intro k
  induction k with
  | zero => intro it i h _ _; simpa using h
  | succ k ih =>
    intro it i h hi hk
    rw [Function.iterate_succ_apply]
    rcases h with ⟨-, hat⟩ | ⟨rfl, -⟩
    · have hprev := hat.prev hb
      by_cases h0 : i = 0
      · -- from the first entry, one `Prev` leaves the iterator past the last
        subst h0
        obtain rfl : k = 0 := by omega
        simpa using hprev
      · rw [if_neg h0] at hprev
        have := ih hprev (by omega) (by omega)
        rw [show i - 1 + 1 = i by omega, Nat.sub_sub, Nat.add_comm 1 k] at this
        simpa using this
    · omega

end BlockIter

namespace BlockBuilder

/-- The block `Finish` returns after a run of `Add` from a new builder. -/
theorem finish_foldl_add {r : Nat} (hr : 1 ≤ r) (d : Bool) (kvs : List (List UInt8 × List UInt8)) :
    (kvs.foldl (fun b e => b.add e.1 e.2) (create r d)).finish.2 = blockContents r d kvs := by
  rw [(holds_foldl_add hr d kvs).finish]
  simp [create]

end BlockBuilder

open BlockBuilder BlockIter

/-- **Reading a block back.** A block that `BlockBuilder` builds from entries with
strictly increasing keys, opened with `NewIterator`, answers every sequence of
`Seek`, `SeekForPrev`, `SeekToFirst`, `SeekToLast`, `Next` and `Prev` as a cursor
over the keys does: valid exactly when the cursor is on a key, and then on that
key and its value. -/
theorem blockIter_refines_cursor {cmp : List UInt8 → List UInt8 → Ordering} [Std.TransCmp cmp]
    {r : Nat} (hr : 1 ≤ r) (d : Bool) {kvs : List (List UInt8 × List UInt8)}
    (hs : SortedList.Sorted cmp (kvs.map Prod.fst))
    (hfit : ((kvs.foldl (fun b e => b.add e.1 e.2) (create r d)).finish.2).length < 2 ^ 32)
    {ops : List (SortedList.CursorOp (List UInt8))} {p : Nat}
    (hrun : SortedList.cursorRun cmp (kvs.map Prod.fst) ops kvs.length = some p) :
    (ops.foldl (BlockIter.apply cmp) (Block.create
      (kvs.foldl (fun b e => b.add e.1 e.2) (create r d)).finish.2
        kDisableGlobalSequenceNumber).newIterator).Reads kvs p := by
  rw [finish_foldl_add hr d kvs] at hfit ⊢
  have hb : Built r d kvs := ⟨hr, hfit⟩
  exact (Positioned.applyAll hb hs ops (done_newIterator hb).positioned hrun).reads

/-- Keys sharing a prefix, two restart blocks: `Seek`, `Next`, then two `Prev`s,
the second read from the entries the first remembered. -/
theorem blockIter_refines_cursor_seek_next_prev_prev :
    ([SortedList.CursorOp.seek [1, 4], .next, .prev, .prev].foldl (BlockIter.apply bytewiseCompare)
      (Block.create ([([1, 2], [10]), ([1, 4], [20]), ([2], [30])].foldl
        (fun b e => b.add e.1 e.2) (create 2 true)).finish.2
          kDisableGlobalSequenceNumber).newIterator).Reads
      [([1, 2], [10]), ([1, 4], [20]), ([2], [30])] 0 :=
  blockIter_refines_cursor (by decide) true (by unfold SortedList.Sorted; decide)
    (by decide +kernel) (by decide +kernel)

/-- **Scanning a block back.** Whatever the order of its keys, a block that
`BlockBuilder` builds is read back entry by entry: `SeekToFirst` then `k` calls of
`Next` show entry `k`, and `SeekToLast` then `k` calls of `Prev` show the `k`-th
entry from the end; after the last entry both leave the iterator invalid with
status OK. -/
theorem blockIter_scan_reads_entries {r : Nat} (hr : 1 ≤ r) (d : Bool)
    {kvs : List (List UInt8 × List UInt8)}
    (hfit : ((kvs.foldl (fun b e => b.add e.1 e.2) (create r d)).finish.2).length < 2 ^ 32)
    {k : Nat} (hk : k ≤ kvs.length) :
    (BlockIter.next^[k] (Block.create (kvs.foldl (fun b e => b.add e.1 e.2) (create r d)).finish.2
      kDisableGlobalSequenceNumber).newIterator.seekToFirst).Reads kvs k ∧
    (BlockIter.prev^[k] (Block.create (kvs.foldl (fun b e => b.add e.1 e.2) (create r d)).finish.2
      kDisableGlobalSequenceNumber).newIterator.seekToLast).Reads kvs
        (if k = kvs.length then kvs.length else kvs.length - 1 - k) := by
  rw [finish_foldl_add hr d kvs] at hfit ⊢
  have hb : Built r d kvs := ⟨hr, hfit⟩
  have hover := (done_newIterator hb).onBlock
  constructor
  · -- forward from the first entry
    simpa using ((hover.seekToFirst hb).iterate_next hb k (by omega)).reads
  · -- backward from the last entry, through the entries `Prev` remembers
    rcases Nat.eq_zero_or_pos kvs.length with h0 | hpos
    · obtain rfl : k = 0 := by omega
      simpa [h0] using (hover.seekToLast hb).reads
    · have h := (hover.seekToLast hb).iterate_prev hb k (by omega) (by omega)
      rw [show kvs.length - 1 + 1 = kvs.length by omega] at h
      exact h.reads

/-- Keys out of order and repeated, read both ways to the end. -/
theorem blockIter_scan_reads_entries_unsorted :
    (BlockIter.next^[3] (Block.create ([([3], [30]), ([1], [10]), ([1], [11])].foldl
        (fun b e => b.add e.1 e.2) (create 2 true)).finish.2
          kDisableGlobalSequenceNumber).newIterator.seekToFirst).Reads
        [([3], [30]), ([1], [10]), ([1], [11])] 3 ∧
    (BlockIter.prev^[3] (Block.create ([([3], [30]), ([1], [10]), ([1], [11])].foldl
        (fun b e => b.add e.1 e.2) (create 2 true)).finish.2
          kDisableGlobalSequenceNumber).newIterator.seekToLast).Reads
        [([3], [30]), ([1], [10]), ([1], [11])] (if 3 = 3 then 3 else 3 - 1 - 3) :=
  blockIter_scan_reads_entries (by decide) true (by decide +kernel) (by decide)

end RocksDB
