import Mathlib
import RocksDB.Db.DbFormat

/-!
# `table/block.h`, `table/block.cc`: the block constructor

A block is a run of entries followed by its restart array: one fixed32 offset
for each entry whose key is stored whole, then the number of those offsets. An
entry is three varint32 lengths (bytes shared with the previous key, bytes of key
that follow, bytes of value), the unshared key bytes and the value.

`Block::Block` locates the restart array from the last word. Its arithmetic is
the source's: `restart_offset_` is a `uint32_t` computed as
`static_cast<uint32_t>(size_)` less the `size_t` product
`(1 + NumRestarts()) * sizeof(uint32_t)`, and the only check is against
`size_ - sizeof(uint32_t)`. When the product passes `2^32` the stored difference
wraps back into the block and the check passes although the restart array does
not fit (`create_accepts_restarts_past_end`).

Left out: `BlockIter`, the prefix index and the read-amplification bitmap; the
constructor's check is what this module is about.
-/

namespace RocksDB

/-- `kDisableGlobalSequenceNumber`: `port::kMaxUint64`. -/
def kDisableGlobalSequenceNumber : Nat := 2 ^ 64 - 1

/-- `Block`: the contents, `size_` (zero marks a rejected block),
`restart_offset_` and the global sequence number. -/
structure Block where
  contents : List UInt8
  size : Nat
  restartOffset : UInt32
  globalSeqno : Nat
  deriving DecidableEq, Repr

namespace Block

/-- `Block::NumRestarts`: the last word of the block. -/
def numRestarts (b : Block) : UInt32 := decodeFixed32 (b.contents.drop (b.size - 4))

/-- The constructor `Block::Block`. -/
def create (contents : List UInt8) (globalSeqno : Nat) : Block :=
  let b : Block := ⟨contents, contents.length, 0, globalSeqno⟩
  if b.size < 4 then { b with size := 0 }
  else
    -- a `uint32_t` less a `size_t`, stored back into `uint32_t restart_offset_`
    let restartOffset : UInt32 :=
      ((UInt32.ofNat b.size).toUInt64 - (1 + b.numRestarts).toUInt64 * 4).toUInt32
    if restartOffset.toNat > b.size - 4 then { b with restartOffset, size := 0 }
    else { b with restartOffset }

/-! ## Where the constructor puts the restart array -/

/-- The constructor's difference in `Nat`: `size_` and `1 + NumRestarts()` are
reduced to 32 bits, the product is not, and the stored difference is taken
modulo `2^32`. -/
theorem restartOffset_arith (size : Nat) (n : UInt32) :
    ((UInt32.ofNat size).toUInt64 - (1 + n).toUInt64 * 4).toUInt32.toNat =
      (size % 2 ^ 32 + 2 ^ 64 - (1 + n).toNat * 4) % 2 ^ 32 := by
  have hn := (1 + n).toNat_lt
  rw [UInt64.toNat_toUInt32, UInt64.toNat_sub, UInt64.toNat_mul, UInt32.toNat_toUInt64,
    UInt32.toNat_toUInt64, UInt32.toNat_ofNat', show (4 : UInt64).toNat = 4 from rfl]
  omega

@[simp] theorem create_contents (contents : List UInt8) (g : Nat) :
    (create contents g).contents = contents := by
  unfold create
  dsimp only
  split
  · rfl
  · split <;> rfl

@[simp] theorem create_globalSeqno (contents : List UInt8) (g : Nat) :
    (create contents g).globalSeqno = g := by
  unfold create
  dsimp only
  split
  · rfl
  · split <;> rfl

section Accepted

variable {contents : List UInt8} (g : Nat) (h4 : 4 ≤ contents.length)
include h4

theorem create_restartOffset :
    (create contents g).restartOffset.toNat =
      (contents.length % 2 ^ 32 + 2 ^ 64 -
        (1 + decodeFixed32 (contents.drop (contents.length - 4))).toNat * 4) % 2 ^ 32 := by
  rw [← restartOffset_arith]
  unfold create
  dsimp only
  rw [if_neg (show ¬contents.length < 4 by omega)]
  split <;> rfl

/-- The only check: the offset must leave room for the count. -/
theorem create_size :
    (create contents g).size =
      if (create contents g).restartOffset.toNat > contents.length - 4 then 0
      else contents.length := by
  unfold create
  dsimp only
  rw [if_neg (show ¬contents.length < 4 by omega)]
  split <;> simp [*]

theorem create_numRestarts (hacc : (create contents g).size ≠ 0) :
    (create contents g).numRestarts = decodeFixed32 (contents.drop (contents.length - 4)) := by
  have hsize := create_size g h4
  rw [numRestarts, create_contents, hsize, if_neg (by intro h; simp [h] at hsize; exact hacc hsize)]

/-- Below `2^30` restarts and `2^32` bytes nothing wraps and the check is exact:
the constructor accepts a block exactly when its restart array fits, and the
array then ends where the block does. -/
theorem create_accepts_iff (hsize : contents.length < 2 ^ 32)
    (hn : (decodeFixed32 (contents.drop (contents.length - 4))).toNat < 2 ^ 30) :
    ((create contents g).size ≠ 0 ↔
      4 * ((decodeFixed32 (contents.drop (contents.length - 4))).toNat + 1) ≤ contents.length) ∧
    ((create contents g).size ≠ 0 →
      (create contents g).restartOffset.toNat + 4 * ((create contents g).numRestarts.toNat + 1) =
        (create contents g).size) := by
  set n := decodeFixed32 (contents.drop (contents.length - 4)) with hn_def
  have hsucc : (1 + n).toNat = n.toNat + 1 := by
    rw [UInt32.toNat_add, show (1 : UInt32).toNat = 1 from rfl]
    omega
  have hoff := create_restartOffset g h4
  have hsz := create_size g h4
  rw [← hn_def, hsucc] at hoff
  refine ⟨?_, fun hacc => ?_⟩
  · rw [hsz]
    split_ifs with hc
    · -- the offset did not wrap back: the array does not fit
      simp only [ne_eq, not_true_eq_false, false_iff, not_le]
      omega
    · constructor <;> intro <;> omega
  · rw [create_numRestarts g h4 hacc, ← hn_def]
    rw [hsz] at hacc ⊢
    split_ifs at hacc ⊢ <;> omega

end Accepted

/-- A trailer of `2^30` restarts makes the product `2^32 + 4`: the stored
difference wraps to `size_ - 4`, which passes the check, and the restart array
the block then claims runs `2^32` bytes past its end. Every block of fewer than
`2^32` bytes with that trailer is accepted so. -/
theorem create_accepts_restarts_past_end (pre : List UInt8) (g : Nat)
    (hlen : pre.length + 4 < 2 ^ 32) :
    (create (pre ++ encodeFixed32 (2 ^ 30)) g).size = pre.length + 4 ∧
      (create (pre ++ encodeFixed32 (2 ^ 30)) g).numRestarts = 2 ^ 30 ∧
      (create (pre ++ encodeFixed32 (2 ^ 30)) g).restartOffset.toNat +
          4 * ((create (pre ++ encodeFixed32 (2 ^ 30)) g).numRestarts.toNat + 1) =
        (create (pre ++ encodeFixed32 (2 ^ 30)) g).size + 2 ^ 32 := by
  have hlen' : (pre ++ encodeFixed32 (2 ^ 30)).length = pre.length + 4 := by simp
  have h4 : 4 ≤ (pre ++ encodeFixed32 (2 ^ 30)).length := by omega
  have htrailer : decodeFixed32 ((pre ++ encodeFixed32 (2 ^ 30)).drop
      ((pre ++ encodeFixed32 (2 ^ 30)).length - 4)) = 2 ^ 30 := by
    rw [hlen', Nat.add_sub_cancel, List.drop_left, ← List.append_nil (encodeFixed32 _),
      decodeFixed32_encode]
  have hoff := create_restartOffset g h4
  rw [htrailer, hlen', show (1 + 2 ^ 30 : UInt32).toNat = 2 ^ 30 + 1 from rfl] at hoff
  have hoff' : (create (pre ++ encodeFixed32 (2 ^ 30)) g).restartOffset.toNat = pre.length := by
    rw [hoff]
    omega
  have hsize : (create (pre ++ encodeFixed32 (2 ^ 30)) g).size = pre.length + 4 := by
    rw [create_size g h4, hoff', hlen', if_neg (by omega)]
  have hacc : (create (pre ++ encodeFixed32 (2 ^ 30)) g).size ≠ 0 := by omega
  have hnum := create_numRestarts g h4 hacc
  rw [htrailer] at hnum
  refine ⟨hsize, hnum, ?_⟩
  rw [hoff', hnum, hsize, show (2 ^ 30 : UInt32).toNat = 2 ^ 30 from rfl]
  omega

theorem create_accepts_restarts_past_end_sample :
    [(0 : UInt8), 0, 0, 0].length + 4 < 2 ^ 32 ∧
      (create ([0, 0, 0, 0] ++ encodeFixed32 (2 ^ 30)) kDisableGlobalSequenceNumber).size = 8 ∧
      (create ([0, 0, 0, 0] ++ encodeFixed32 (2 ^ 30)) kDisableGlobalSequenceNumber).numRestarts =
        2 ^ 30 ∧
      (create ([0, 0, 0, 0] ++ encodeFixed32 (2 ^ 30)) kDisableGlobalSequenceNumber).restartOffset.toNat +
          4 * ((create ([0, 0, 0, 0] ++ encodeFixed32 (2 ^ 30))
            kDisableGlobalSequenceNumber).numRestarts.toNat + 1) =
        (create ([0, 0, 0, 0] ++ encodeFixed32 (2 ^ 30)) kDisableGlobalSequenceNumber).size +
          2 ^ 32 :=
  ⟨by decide, create_accepts_restarts_past_end [0, 0, 0, 0] _ (by decide)⟩

end Block

end RocksDB
