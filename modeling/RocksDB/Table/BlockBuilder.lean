import Mathlib
import RocksDB.Table.Block
import RocksDB.Util.Comparator

/-!
# `table/block_builder.cc`: building a data block

`BlockBuilder::Add` appends one entry for each key: the number of bytes the key
shares with the key before it, the number of bytes that follow, and the value's
length, as three varint32s, then the unshared key bytes and the value. Every
`block_restart_interval` entries it starts a restart point: the key is stored
whole and the entry's offset goes into `restarts_`. `Finish` appends the restart
offsets and their number as fixed32 words.

## Main results

* `BlockBuilder.Holds`: what a builder holds after adding a list of entries: the
  entries laid out one after another (`entryBytes`), the offsets of every `r`-th
  one (`restartOffsets`), the counter and the last key. The constructor and
  `Reset` hold no entries and `Add` adds one (`Holds.add`), so every run of `Add`
  holds what it added (`holds_foldl_add`).
* `Holds.finish`: the finished block is `blockContents`, the laid-out entries,
  the restart array and its count.
* `Holds.currentSizeEstimate_eq`: `estimate_` is exactly the size of that block.

## Design notes

* `block_restart_interval_` is an `int` the constructor asserts to be at least
  one; it is a `Nat` here. The layout results assume it is at least one.
* `Slice::difference_offset` is `diffIndex`, the loop `FindShortestSeparator`
  starts with.
* The three lengths are cast to `uint32_t` as in the source (`UInt32.ofNat`).
-/

namespace RocksDB

open ByteCoding

/-- One entry as `Add` writes it, sharing `shared` bytes with the key before. -/
def encodeEntry (shared : Nat) (key value : List UInt8) : List UInt8 :=
  putVarint32Varint32Varint32 [] (UInt32.ofNat shared) (UInt32.ofNat (key.length - shared))
      (UInt32.ofNat value.length) ++ key.drop shared ++ value

/-- `BlockBuilder`: the two settings the constructor fixes, `buffer_`,
`restarts_`, `estimate_`, `counter_`, `finished_` and `last_key_`. -/
structure BlockBuilder where
  blockRestartInterval : Nat
  useDeltaEncoding : Bool
  buffer : List UInt8
  restarts : List UInt32
  estimate : Nat
  counter : Nat
  finished : Bool
  lastKey : List UInt8
  deriving DecidableEq, Repr

namespace BlockBuilder

/-- The constructor: the first restart point is at offset 0, and the estimate
counts it and the restart count. -/
def create (blockRestartInterval : Nat) (useDeltaEncoding : Bool) : BlockBuilder :=
  { blockRestartInterval, useDeltaEncoding, buffer := [], restarts := [0], estimate := 4 + 4,
    counter := 0, finished := false, lastKey := [] }

/-- `Reset`: the contents as if just constructed. -/
def reset (b : BlockBuilder) : BlockBuilder :=
  { b with
    buffer := [], restarts := [0], estimate := 4 + 4, counter := 0, finished := false,
    lastKey := [] }

/-- `CurrentSizeEstimate`. -/
def currentSizeEstimate (b : BlockBuilder) : Nat := b.estimate

/-- `EstimateSizeAfterKV`: the estimate grown by the key and the value, a
restart entry if one is due, four bytes for the shared length and the varint
lengths of the key and the value. -/
def estimateSizeAfterKV (b : BlockBuilder) (key value : List UInt8) : Nat :=
  b.currentSizeEstimate + (key.length + value.length) +
    (if b.counter ≥ b.blockRestartInterval then 4 else 0) + 4 +
    varintLength key.length + varintLength value.length

/-- `empty`: no entry since the last `Reset`. -/
def empty (b : BlockBuilder) : Bool := b.buffer.isEmpty

/-- `Finish`: the restart array and its size appended to the buffer, which is
also the block returned. -/
def finish (b : BlockBuilder) : BlockBuilder × List UInt8 :=
  let buffer := b.restarts.foldl putFixed32 b.buffer
  let buffer := putFixed32 buffer (UInt32.ofNat b.restarts.length)
  ({ b with buffer, finished := true }, buffer)

/-- `Add(key, value)`. -/
def add (b : BlockBuilder) (key value : List UInt8) : BlockBuilder :=
  let (b, shared) :=
    if b.counter ≥ b.blockRestartInterval then
      -- restart compression
      ({ b with
          restarts := b.restarts ++ [UInt32.ofNat b.buffer.length],
          estimate := b.estimate + 4, counter := 0,
          lastKey := if b.useDeltaEncoding then key else b.lastKey }, 0)
    else if b.useDeltaEncoding then ({ b with lastKey := key }, diffIndex key b.lastKey)
    else (b, 0)
  let nonShared := key.length - shared
  let currSize := b.buffer.length
  let buffer := putVarint32Varint32Varint32 b.buffer (UInt32.ofNat shared)
    (UInt32.ofNat nonShared) (UInt32.ofNat value.length)
  let buffer := buffer ++ key.drop shared ++ value
  { b with buffer, counter := b.counter + 1, estimate := b.estimate + (buffer.length - currSize) }

/-! ## The common prefix -/

@[simp] theorem diffIndex_nil_right (a : List UInt8) : diffIndex a [] = 0 := by
  cases a <;> rfl

theorem diffIndex_le_length_right : ∀ (a b : List UInt8), diffIndex a b ≤ b.length
  | [], _ => by simp [diffIndex]
  | _ :: _, [] => by simp [diffIndex]
  | x :: as, y :: bs => by
    have := diffIndex_le_length_right as bs
    simp only [diffIndex, List.length_cons]
    split <;> omega

theorem diffIndex_le_length_left : ∀ (a b : List UInt8), diffIndex a b ≤ a.length
  | [], _ => by simp [diffIndex]
  | _ :: _, [] => by simp [diffIndex]
  | x :: as, y :: bs => by
    have := diffIndex_le_length_left as bs
    simp only [diffIndex, List.length_cons]
    split <;> omega

/-- The bytes before the first difference are the same in both keys. -/
theorem take_diffIndex : ∀ (a b : List UInt8), a.take (diffIndex a b) = b.take (diffIndex a b)
  | [], _ => by simp [diffIndex]
  | _ :: _, [] => by simp [diffIndex]
  | x :: as, y :: bs => by
    simp only [diffIndex]
    split
    · rename_i hxy
      simp [hxy, take_diffIndex as bs]
    · rfl

/-! ## The layout of the entries -/

section Layout

variable (r : Nat) (d : Bool) (kvs : List (List UInt8 × List UInt8))

/-- The key of entry `i`. -/
def keyAt (i : Nat) : List UInt8 := (kvs.getD i ([], [])).1

/-- The value of entry `i`. -/
def valueAt (i : Nat) : List UInt8 := (kvs.getD i ([], [])).2

/-- The bytes entry `i` shares with the key before it, as `Add` computes them:
none at a restart point, every `r`-th entry, nor without delta encoding. -/
def sharedAt (i : Nat) : Nat :=
  if i % r = 0 then 0 else if d then diffIndex (keyAt kvs i) (keyAt kvs (i - 1)) else 0

/-- The bytes of each entry. -/
def entryBytes : List (List UInt8) :=
  (List.range kvs.length).map fun i => encodeEntry (sharedAt r d kvs i) (keyAt kvs i) (valueAt kvs i)

/-- The offset of entry `i`: the bytes of the entries before it. -/
def entryOffset (i : Nat) : Nat := ((entryBytes r d kvs).take i).flatten.length

/-- The number of restart points of `n` entries: one every `r` entries, and the
one at offset 0 when there are none. -/
def numRestartsOf (n : Nat) : Nat := (n - 1) / r + 1

/-- The restart array: the offsets of entries `0, r, 2r, …`. -/
def restartOffsets : List UInt32 :=
  (List.range (numRestartsOf r kvs.length)).map fun j => UInt32.ofNat (entryOffset r d kvs (j * r))

/-- The block `Finish` returns. -/
def blockContents : List UInt8 :=
  (entryBytes r d kvs).flatten ++ (restartOffsets r d kvs).flatMap encodeFixed32 ++
    encodeFixed32 (UInt32.ofNat (numRestartsOf r kvs.length))

variable {kvs}

theorem keyAt_append {i : Nat} (hi : i < kvs.length) (e : List UInt8 × List UInt8) :
    keyAt (kvs ++ [e]) i = keyAt kvs i := by
  simp [keyAt, List.getD_eq_getElem?_getD, List.getElem?_append_left hi]

theorem valueAt_append {i : Nat} (hi : i < kvs.length) (e : List UInt8 × List UInt8) :
    valueAt (kvs ++ [e]) i = valueAt kvs i := by
  simp [valueAt, List.getD_eq_getElem?_getD, List.getElem?_append_left hi]

@[simp] theorem keyAt_append_length (e : List UInt8 × List UInt8) :
    keyAt (kvs ++ [e]) kvs.length = e.1 := by
  simp [keyAt, List.getD_eq_getElem?_getD]

@[simp] theorem valueAt_append_length (e : List UInt8 × List UInt8) :
    valueAt (kvs ++ [e]) kvs.length = e.2 := by
  simp [valueAt, List.getD_eq_getElem?_getD]

theorem sharedAt_append {i : Nat} (hi : i < kvs.length) (e : List UInt8 × List UInt8) :
    sharedAt r d (kvs ++ [e]) i = sharedAt r d kvs i := by
  unfold sharedAt
  rw [keyAt_append hi, keyAt_append (by omega)]

@[simp] theorem length_restartOffsets :
    (restartOffsets r d kvs).length = numRestartsOf r kvs.length := by
  simp [restartOffsets]

@[simp] theorem length_entryBytes : (entryBytes r d kvs).length = kvs.length := by
  simp [entryBytes]

theorem entryBytes_append (e : List UInt8 × List UInt8) :
    entryBytes r d (kvs ++ [e]) =
      entryBytes r d kvs ++ [encodeEntry (sharedAt r d (kvs ++ [e]) kvs.length) e.1 e.2] := by
  unfold entryBytes
  rw [List.length_append, List.length_singleton, List.range_succ, List.map_append,
    List.map_singleton, keyAt_append_length, valueAt_append_length]
  congr 1
  refine List.map_congr_left fun i hi => ?_
  have hi' : i < kvs.length := List.mem_range.mp hi
  rw [sharedAt_append r d hi', keyAt_append hi', valueAt_append hi']

theorem entryOffset_append {i : Nat} (hi : i ≤ kvs.length) (e : List UInt8 × List UInt8) :
    entryOffset r d (kvs ++ [e]) i = entryOffset r d kvs i := by
  unfold entryOffset
  rw [entryBytes_append, List.take_append_of_le_length (by simpa using hi)]

theorem entryOffset_length : entryOffset r d kvs kvs.length = (entryBytes r d kvs).flatten.length := by
  unfold entryOffset
  rw [List.take_of_length_le (by simp)]

end Layout

/-! ## What a builder holds -/

section Holds

/-- The builder holds the entries `kvs`, added in order since the last `Reset`:
the buffer is their laid-out bytes, the restart array their restart offsets,
`counter_` the entries since the last restart point and `last_key_` the last key
when delta encoding is on; the estimate is the size `Finish` would return. -/
structure Holds (b : BlockBuilder) (kvs : List (List UInt8 × List UInt8)) : Prop where
  buffer : b.buffer = (entryBytes b.blockRestartInterval b.useDeltaEncoding kvs).flatten
  restarts : b.restarts = restartOffsets b.blockRestartInterval b.useDeltaEncoding kvs
  counter : b.counter = if kvs = [] then 0 else (kvs.length - 1) % b.blockRestartInterval + 1
  lastKey : b.lastKey = if b.useDeltaEncoding then keyAt kvs (kvs.length - 1) else []
  estimate : b.estimate = b.buffer.length + 4 * b.restarts.length + 4
  finished : b.finished = false

theorem holds_create (r : Nat) (d : Bool) : (create r d).Holds [] where
  buffer := rfl
  restarts := by simp [create, restartOffsets, numRestartsOf, entryOffset]
  counter := rfl
  lastKey := by cases d <;> rfl
  estimate := rfl
  finished := rfl

theorem holds_reset (b : BlockBuilder) : b.reset.Holds [] := by
  rw [show b.reset = create b.blockRestartInterval b.useDeltaEncoding from rfl]
  exact holds_create _ _

/-- `numRestartsOf` grows by one exactly when the new entry starts a restart
point. -/
theorem numRestartsOf_succ (r n : Nat) :
    numRestartsOf r (n + 1) =
      if 1 ≤ n ∧ n % r = 0 then numRestartsOf r n + 1 else numRestartsOf r n := by
  unfold numRestartsOf
  rcases n with _ | m
  · simp
  · rw [Nat.add_sub_cancel, Nat.add_sub_cancel, Nat.succ_div]
    by_cases h : r ∣ m + 1
    · rw [if_pos h, if_pos ⟨by omega, Nat.mod_eq_zero_of_dvd h⟩]
    · rw [if_neg h, if_neg fun h' => h (Nat.dvd_of_mod_eq_zero h'.2), Nat.add_zero]

/-- Restart point `j` exists exactly when entry `j * r` does. -/
theorem lt_numRestartsOf_iff {r n : Nat} (hr : 1 ≤ r) (hn : 1 ≤ n) (j : Nat) :
    j < numRestartsOf r n ↔ j * r < n := by
  unfold numRestartsOf
  rw [Nat.lt_succ_iff, Nat.le_div_iff_mul_le (by omega)]
  omega

theorem mul_le_of_lt_numRestartsOf {r n j : Nat} (hr : 1 ≤ r) (hj : j < numRestartsOf r n) :
    j * r ≤ n := by
  rcases Nat.eq_zero_or_pos n with rfl | hn
  · simp [numRestartsOf] at hj
    simp [hj]
  · exact ((lt_numRestartsOf_iff hr hn j).mp hj).le

/-- When the entries fill their last restart block, the next restart point is
the next entry. -/
theorem numRestartsOf_mul {r n : Nat} (hn : 1 ≤ n) (hmod : n % r = 0) :
    numRestartsOf r n * r = n := by
  have hsucc := numRestartsOf_succ r n
  rw [if_pos ⟨hn, hmod⟩] at hsucc
  unfold numRestartsOf at hsucc ⊢
  rw [Nat.add_sub_cancel] at hsucc
  rw [show (n - 1) / r + 1 = n / r by omega, Nat.div_mul_cancel (Nat.dvd_of_mod_eq_zero hmod)]

theorem restartOffsets_append {r : Nat} (hr : 1 ≤ r) (d : Bool)
    (kvs : List (List UInt8 × List UInt8)) (e : List UInt8 × List UInt8) :
    restartOffsets r d (kvs ++ [e]) =
      if 1 ≤ kvs.length ∧ kvs.length % r = 0 then
        restartOffsets r d kvs ++ [UInt32.ofNat (entryBytes r d kvs).flatten.length]
      else restartOffsets r d kvs := by
  -- the offsets of the old restart points do not move
  have hoff : ∀ j ∈ List.range (numRestartsOf r kvs.length),
      UInt32.ofNat (entryOffset r d (kvs ++ [e]) (j * r)) =
        UInt32.ofNat (entryOffset r d kvs (j * r)) := fun j hj => by
    rw [entryOffset_append r d (mul_le_of_lt_numRestartsOf hr (List.mem_range.mp hj)) e]
  unfold restartOffsets
  rw [List.length_append, List.length_singleton, numRestartsOf_succ]
  split_ifs with h
  · rw [List.range_succ, List.map_append, List.map_singleton, List.map_congr_left hoff,
      numRestartsOf_mul h.1 h.2, entryOffset_append r d le_rfl, entryOffset_length]
  · exact List.map_congr_left hoff

/-- The counter after `m` entries past the first closes its restart block when
the next entry starts a new one. -/
theorem mod_add_one_cases {r : Nat} (hr : 1 ≤ r) (m : Nat) :
    (m % r + 1 = r ∧ (m + 1) % r = 0) ∨ (m % r + 1 < r ∧ (m + 1) % r = m % r + 1) := by
  have hlt := Nat.mod_lt m (show 0 < r by omega)
  have hm : m + 1 = (m % r + 1) + m / r * r := by
    have := Nat.mod_add_div m r
    rw [mul_comm] at this
    omega
  rcases Nat.lt_or_ge (m % r + 1) r with h | h
  · refine .inr ⟨h, ?_⟩
    rw [hm, Nat.add_mul_mod_self_right, Nat.mod_eq_of_lt h]
  · have heq : m % r + 1 = r := by omega
    refine .inl ⟨heq, ?_⟩
    rw [hm, Nat.add_mul_mod_self_right, heq, Nat.mod_self]

/-! ### `Add` field by field -/

section Add

variable (b : BlockBuilder) (key value : List UInt8)

/-- Whether `Add` starts a restart point. -/
abbrev Restarts : Prop := b.counter ≥ b.blockRestartInterval

@[simp] theorem add_blockRestartInterval :
    (b.add key value).blockRestartInterval = b.blockRestartInterval := by
  unfold add
  split_ifs <;> rfl

@[simp] theorem add_useDeltaEncoding :
    (b.add key value).useDeltaEncoding = b.useDeltaEncoding := by
  unfold add
  split_ifs <;> rfl

@[simp] theorem add_finished : (b.add key value).finished = b.finished := by
  unfold add
  split_ifs <;> rfl

theorem add_buffer :
    (b.add key value).buffer =
      b.buffer ++ encodeEntry (if b.Restarts then 0
        else if b.useDeltaEncoding then diffIndex key b.lastKey else 0) key value := by
  unfold add encodeEntry putVarint32Varint32Varint32
  split_ifs <;> simp

theorem add_restarts :
    (b.add key value).restarts =
      if b.Restarts then b.restarts ++ [UInt32.ofNat b.buffer.length] else b.restarts := by
  unfold add
  split_ifs <;> rfl

theorem add_counter :
    (b.add key value).counter = (if b.Restarts then 0 else b.counter) + 1 := by
  unfold add
  split_ifs <;> rfl

theorem add_lastKey :
    (b.add key value).lastKey = if b.useDeltaEncoding then key else b.lastKey := by
  unfold add
  split_ifs <;> simp_all

theorem add_estimate :
    (b.add key value).estimate = b.estimate + (if b.Restarts then 4 else 0) +
      ((b.add key value).buffer.length - b.buffer.length) := by
  unfold add
  split_ifs <;> rfl

end Add

/-- `Add` adds its entry to what the builder holds, while the restart interval
is at least one. -/
theorem Holds.add {b : BlockBuilder} {kvs : List (List UInt8 × List UInt8)}
    (hr : 1 ≤ b.blockRestartInterval) (h : b.Holds kvs) (key value : List UInt8) :
    (b.add key value).Holds (kvs ++ [(key, value)]) := by
  -- `counter_` reaches the interval exactly when the new entry is a restart point
  have hrestart : b.Restarts ↔ 1 ≤ kvs.length ∧ kvs.length % b.blockRestartInterval = 0 := by
    show b.counter ≥ b.blockRestartInterval ↔ _
    rw [h.counter]
    rcases Nat.eq_zero_or_pos kvs.length with hn | hn
    · simp [List.length_eq_zero_iff.mp hn]
      omega
    · rw [if_neg (List.ne_nil_of_length_pos hn)]
      obtain ⟨m, hm⟩ : ∃ m, kvs.length = m + 1 := ⟨kvs.length - 1, by omega⟩
      rw [hm, Nat.add_sub_cancel]
      rcases mod_add_one_cases hr m with ⟨h1, h2⟩ | ⟨h1, h2⟩ <;> rw [h2]
      · exact ⟨fun _ => ⟨by omega, rfl⟩, fun _ => by omega⟩
      · exact ⟨fun _ => by omega, fun h' => by omega⟩
  have hshared : (if b.Restarts then 0
      else if b.useDeltaEncoding then diffIndex key b.lastKey else 0) =
      sharedAt b.blockRestartInterval b.useDeltaEncoding (kvs ++ [(key, value)]) kvs.length := by
    unfold sharedAt
    rw [keyAt_append_length]
    rcases Nat.eq_zero_or_pos kvs.length with hn | hn
    · have hnil := List.length_eq_zero_iff.mp hn
      subst hnil
      simp [hrestart, h.lastKey, keyAt]
    · by_cases hmod : kvs.length % b.blockRestartInterval = 0
      · rw [if_pos (hrestart.mpr ⟨hn, hmod⟩), if_pos hmod]
      · rw [if_neg fun hres => hmod (hrestart.mp hres).2, if_neg hmod, h.lastKey,
          keyAt_append (by omega)]
        split <;> simp_all
  refine ⟨?_, ?_, ?_, ?_, ?_, ?_⟩
  · rw [add_buffer, hshared, add_blockRestartInterval, add_useDeltaEncoding, entryBytes_append,
      List.flatten_append, h.buffer, List.flatten_singleton]
  · rw [add_restarts, add_blockRestartInterval, add_useDeltaEncoding, restartOffsets_append hr,
      h.restarts, h.buffer]
    by_cases hres : b.Restarts
    · rw [if_pos hres, if_pos (hrestart.mp hres)]
    · rw [if_neg hres, if_neg (mt hrestart.mpr hres)]
  · rw [add_counter, add_blockRestartInterval,
      if_neg (show kvs ++ [(key, value)] ≠ [] by simp), List.length_append,
      List.length_singleton, Nat.add_sub_cancel]
    by_cases hres : b.Restarts
    · rw [if_pos hres, (hrestart.mp hres).2]
    · rw [if_neg hres, h.counter]
      rcases Nat.eq_zero_or_pos kvs.length with hn | hn
      · rw [if_pos (List.length_eq_zero_iff.mp hn), hn, Nat.zero_mod]
      · obtain ⟨m, hm⟩ : ∃ m, kvs.length = m + 1 := ⟨kvs.length - 1, by omega⟩
        rw [if_neg (List.ne_nil_of_length_pos hn), hm, Nat.add_sub_cancel]
        rw [hm] at hrestart
        rcases mod_add_one_cases hr m with ⟨h1, h2⟩ | ⟨h1, h2⟩
        · exact absurd (hrestart.mpr ⟨by omega, h2⟩) hres
        · rw [h2]
  · rw [add_lastKey, add_useDeltaEncoding, List.length_append, List.length_singleton,
      Nat.add_sub_cancel, keyAt_append_length]
    cases hd : b.useDeltaEncoding
    · simpa [hd] using h.lastKey
    · rfl
  · rw [add_estimate, add_restarts, h.estimate]
    have hgrow : b.buffer.length ≤ (b.add key value).buffer.length := by
      rw [add_buffer, List.length_append]
      omega
    by_cases hres : b.Restarts
    · rw [if_pos hres, if_pos hres, List.length_append, List.length_singleton]
      omega
    · rw [if_neg hres, if_neg hres]
      omega
  · rw [add_finished, h.finished]

@[simp] theorem foldl_add_blockRestartInterval (kvs : List (List UInt8 × List UInt8))
    (b : BlockBuilder) :
    (kvs.foldl (fun b e => b.add e.1 e.2) b).blockRestartInterval = b.blockRestartInterval := by
  induction kvs generalizing b with
  | nil => rfl
  | cons e kvs ih => rw [List.foldl_cons, ih, add_blockRestartInterval]

@[simp] theorem foldl_add_useDeltaEncoding (kvs : List (List UInt8 × List UInt8))
    (b : BlockBuilder) :
    (kvs.foldl (fun b e => b.add e.1 e.2) b).useDeltaEncoding = b.useDeltaEncoding := by
  induction kvs generalizing b with
  | nil => rfl
  | cons e kvs ih => rw [List.foldl_cons, ih, add_useDeltaEncoding]

/-- Every run of `Add` from the constructor holds the entries it added. -/
theorem holds_foldl_add {r : Nat} (hr : 1 ≤ r) (d : Bool) (kvs : List (List UInt8 × List UInt8)) :
    (kvs.foldl (fun b e => b.add e.1 e.2) (create r d)).Holds kvs := by
  induction kvs using List.reverseRecOn with
  | nil => exact holds_create r d
  | append_singleton kvs e ih =>
    rw [List.foldl_append, List.foldl_cons, List.foldl_nil]
    exact ih.add (by simpa [create] using hr) e.1 e.2

end Holds

/-! ## The finished block and its size -/

section Finish

variable {b : BlockBuilder} {kvs : List (List UInt8 × List UInt8)}

/-- `Finish` returns the laid-out entries, the restart array and its count. -/
theorem Holds.finish (h : b.Holds kvs) :
    b.finish.2 = blockContents b.blockRestartInterval b.useDeltaEncoding kvs := by
  unfold BlockBuilder.finish blockContents
  dsimp only
  rw [foldl_putFixed32, putFixed32, h.buffer, h.restarts, length_restartOffsets]

theorem length_blockContents (r : Nat) (d : Bool) (kvs : List (List UInt8 × List UInt8)) :
    (blockContents r d kvs).length =
      (entryBytes r d kvs).flatten.length + 4 * numRestartsOf r kvs.length + 4 := by
  simp [blockContents, List.length_flatMap, List.sum_replicate, mul_comm]
  omega

/-- `estimate_` is exactly the size of the block `Finish` would return. -/
theorem Holds.currentSizeEstimate_eq (h : b.Holds kvs) :
    b.currentSizeEstimate = b.finish.2.length := by
  rw [h.finish, length_blockContents, currentSizeEstimate, h.estimate, h.buffer, h.restarts,
    length_restartOffsets]

end Finish

/-- After any run of `Add` from a new builder, `CurrentSizeEstimate` is exactly
the size of the block `Finish` returns. -/
theorem currentSizeEstimate_foldl_add {r : Nat} (hr : 1 ≤ r) (d : Bool)
    (kvs : List (List UInt8 × List UInt8)) :
    (kvs.foldl (fun b e => b.add e.1 e.2) (create r d)).currentSizeEstimate =
      (kvs.foldl (fun b e => b.add e.1 e.2) (create r d)).finish.2.length :=
  (holds_foldl_add hr d kvs).currentSizeEstimate_eq

theorem currentSizeEstimate_foldl_add_shared_prefix :
    ([([1, 2], [3]), ([1, 4], [5]), ([2], [])].foldl (fun b e => b.add e.1 e.2)
        (create 2 true)).currentSizeEstimate =
      ([([1, 2], [3]), ([1, 4], [5]), ([2], [])].foldl (fun b e => b.add e.1 e.2)
        (create 2 true)).finish.2.length :=
  currentSizeEstimate_foldl_add (by decide) true [([1, 2], [3]), ([1, 4], [5]), ([2], [])]

/-- The varint32 of a length cast to `uint32_t` is no longer than what
`VarintLength` counts for the length. -/
theorem length_encodeVarint32_le (x : Nat) :
    (encodeVarint32 (UInt32.ofNat x)).length ≤ varintLength x := by
  rw [encodeVarint32_eq, varintLength_eq]
  exact Varint.length_encode_mono (by rw [UInt32.toNat_ofNat']; exact Nat.mod_le _ _)

/-- A varint of `v` takes at most `v + 1` bytes. -/
theorem length_encode_le_succ (v : Nat) : (Varint.encode v).length ≤ v + 1 :=
  Varint.encode_length_le (v + 1) v (by omega)
    (lt_of_lt_of_le (Nat.lt_pow_self (by omega)) (Nat.pow_le_pow_right (by omega) (by omega)))

/-- `EstimateSizeAfterKV` never underestimates `Add`: the four bytes it counts
for the shared length cover its varint, which passes four bytes only for a
length of at least `2^28` that the key does not repeat. -/
theorem currentSizeEstimate_add_le (b : BlockBuilder) (key value : List UInt8) :
    (b.add key value).currentSizeEstimate ≤ b.estimateSizeAfterKV key value := by
  set shared := if b.Restarts then 0 else if b.useDeltaEncoding then diffIndex key b.lastKey else 0
  have hshared : shared ≤ key.length := by
    simp only [shared]
    split_ifs
    · omega
    · exact diffIndex_le_length_left key b.lastKey
    · omega
  have hs : (encodeVarint32 (UInt32.ofNat shared)).length ≤ shared + 4 :=
    le_trans (length_encodeVarint32_le shared)
      (by rw [varintLength_eq]; have := length_encode_le_succ shared; omega)
  have hk := length_encodeVarint32_le (key.length - shared)
  have hk' : varintLength (key.length - shared) ≤ varintLength key.length := by
    rw [varintLength_eq, varintLength_eq]
    exact Varint.length_encode_mono (Nat.sub_le _ _)
  have hv := length_encodeVarint32_le value.length
  have hlen : (b.add key value).buffer.length = b.buffer.length +
      ((encodeVarint32 (UInt32.ofNat shared)).length +
        (encodeVarint32 (UInt32.ofNat (key.length - shared))).length +
        (encodeVarint32 (UInt32.ofNat value.length)).length + (key.length - shared) +
        value.length) := by
    rw [add_buffer]
    simp [encodeEntry, putVarint32Varint32Varint32, shared]
    omega
  rw [currentSizeEstimate, add_estimate, hlen, estimateSizeAfterKV, currentSizeEstimate]
  show _ ≤ _ + _ + (if b.Restarts then 4 else 0) + _ + _ + _
  omega

end BlockBuilder

end RocksDB
