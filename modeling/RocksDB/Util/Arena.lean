import Mathlib
import RocksDB.Lib.Extent

/-!
# `util/arena.cc`: the block arena

An `Arena` hands out memory from a current block, at first its `inline_block_`:
`Allocate` carves unaligned requests from the back of the free range,
`AllocateAligned` aligned ones from the front, padded by the slop up to the next
multiple of `alignof(max_align_t)`. A request that does not fit goes to
`AllocateFallback`, which gives a request above a quarter block a block of its
own and otherwise abandons the rest of the current block for a new one.

Pointers are addresses (`Nat`); `size_t` is `UInt64`, so that `bytes + slop`
wraps as the source's sum does. `new char[n]` is a parameter, an allocator of
fresh memory aligned to `alignof(max_align_t)`.

## Main definitions

* `optimizeBlockSize`, `create`, `allocate`, `allocateAligned`,
  `allocateFallback`, `allocateNewBlock`; `run` serves a list of requests.
* `Inv`: the invariant over the arena and the ranges it has handed out.

## Main results

* `optimizeBlockSize_spec`: the constructor's assertion holds for every
  `block_size`.
* `Inv.carve` and `Inv.newBlock`: handing out a range from the free range, or
  from a fresh block, keeps the invariant; `Inv.serve` and `Inv.run` from them.
* `arena_allocations_inside_apart_aligned`: every returned range is inside a
  block of the arena, no two overlap, every aligned one is aligned, and the
  pointers meet the remaining count in a block, while no `AllocateAligned(n)` has
  `n` within `alignof(max_align_t)` of `2^64`.
* `arena_allocateAligned_needed_wraps`: past that bound `bytes + slop` wraps to
  `0`, and `AllocateAligned` answers the same address twice.

## Design notes

* Huge pages, the `AllocTracker` and the statistics accessors are left out;
  `blocks_` keeps, beside each block's address, the size it was allocated with.
* `kAlignUnit` is `alignof(max_align_t)` of the 64-bit targets, 16.
-/

namespace RocksDB

namespace Arena

/-- `Arena::kInlineSize`. -/
def kInlineSize : UInt64 := 2048

/-- `Arena::kMinBlockSize`. -/
def kMinBlockSize : UInt64 := 4096

/-- `Arena::kMaxBlockSize`, `2u << 30`. -/
def kMaxBlockSize : UInt64 := (2 : UInt64) <<< 30

/-- `kAlignUnit`, `alignof(max_align_t)`. -/
def kAlignUnit : UInt64 := 16

/-- `OptimizeBlockSize`: clamp to `[kMinBlockSize, kMaxBlockSize]`, then round up
to a multiple of `kAlignUnit`. -/
def optimizeBlockSize (blockSize : UInt64) : UInt64 :=
  let blockSize := max kMinBlockSize blockSize
  let blockSize := min kMaxBlockSize blockSize
  if blockSize % kAlignUnit ≠ 0 then (1 + blockSize / kAlignUnit) * kAlignUnit else blockSize

/-- **The constructor's assertion**: `OptimizeBlockSize` lands in
`[kMinBlockSize, kMaxBlockSize]` on a multiple of `kAlignUnit`, for every
`block_size`. -/
theorem optimizeBlockSize_spec (blockSize : UInt64) :
    kMinBlockSize ≤ optimizeBlockSize blockSize ∧ optimizeBlockSize blockSize ≤ kMaxBlockSize ∧
      optimizeBlockSize blockSize % kAlignUnit = 0 := by
  -- the clamped size, as a number
  have hclamp : (min kMaxBlockSize (max kMinBlockSize blockSize)).toNat =
      min (2 ^ 31) (max 4096 blockSize.toNat) := by
    simp [UInt64.toNat_min, UInt64.toNat_max, kMinBlockSize, kMaxBlockSize]
  unfold optimizeBlockSize
  dsimp only
  simp only [UInt64.le_iff_toNat_le, ← UInt64.toNat_inj, UInt64.toNat_mod]
  split
  · rename_i h
    have hne : (min kMaxBlockSize (max kMinBlockSize blockSize)).toNat % 16 ≠ 0 := by
      intro h'
      exact h (UInt64.toNat_inj.mp (by simpa [UInt64.toNat_mod, kAlignUnit] using h'))
    rw [hclamp] at hne
    simp only [UInt64.toNat_mul, UInt64.toNat_add, UInt64.toNat_div, hclamp]
    simp [kAlignUnit, kMinBlockSize, kMaxBlockSize]
    omega
  · rename_i h
    have he : (min kMaxBlockSize (max kMinBlockSize blockSize)).toNat % 16 = 0 := by
      simpa [UInt64.toNat_mod, kAlignUnit] using congrArg UInt64.toNat (not_not.mp h)
    rw [hclamp] at he ⊢
    simp [kAlignUnit, kMinBlockSize, kMaxBlockSize]
    omega

end Arena

/-- The members of an `Arena` that allocation reads and writes. `blocks` is
`blocks_`, each block with the size `new[]` gave it. -/
structure Arena where
  inlineBlock : Nat
  kBlockSize : UInt64
  blocks : List Extent
  irregularBlockNum : UInt64
  unalignedAllocPtr : Nat
  alignedAllocPtr : Nat
  allocBytesRemaining : UInt64
  blocksMemory : UInt64

namespace Arena

/-- The memory the arena owns: `inline_block_` and then `blocks_`. -/
def extents (a : Arena) : List Extent := ⟨a.inlineBlock, kInlineSize.toNat⟩ :: a.blocks

/-- The free range of the current block, from `aligned_alloc_ptr_` on. -/
def free (a : Arena) : Extent := ⟨a.alignedAllocPtr, a.allocBytesRemaining.toNat⟩

/-- `Arena::Arena(block_size)` with `inline_block_` at `inlineBlock`, without
huge pages or tracker. -/
def create (inlineBlock : Nat) (blockSize : UInt64) : Arena where
  inlineBlock := inlineBlock
  kBlockSize := optimizeBlockSize blockSize
  blocks := []
  irregularBlockNum := 0
  unalignedAllocPtr := inlineBlock + kInlineSize.toNat
  alignedAllocPtr := inlineBlock
  allocBytesRemaining := kInlineSize
  blocksMemory := kInlineSize

/-- `current_mod` and `slop` of `AllocateAligned`: the bytes from `p` up to the
next multiple of `kAlignUnit`. -/
def slop (p : Nat) : UInt64 :=
  let currentMod := UInt64.ofNat p &&& (kAlignUnit - 1)
  if currentMod = 0 then 0 else kAlignUnit - currentMod

theorem toNat_slop (p : Nat) : (slop p).toNat = (16 - p % 16) % 16 := by
  have hmod : (UInt64.ofNat p &&& (kAlignUnit - 1)).toNat = p % 16 := by
    rw [UInt64.toNat_and, UInt64.toNat_ofNat']
    show p % 2 ^ 64 &&& 2 ^ 4 - 1 = p % 16
    rw [Nat.and_two_pow_sub_one_eq_mod]
    omega
  unfold slop
  dsimp only
  split
  · rename_i h
    have := congrArg UInt64.toNat h
    rw [hmod, UInt64.toNat_zero] at this
    rw [UInt64.toNat_zero]
    omega
  · rename_i h
    have : p % 16 ≠ 0 := fun h' => h (UInt64.toNat_inj.mp (by simp [hmod, h']))
    rw [UInt64.toNat_sub_of_le _ _ (by rw [UInt64.le_iff_toNat_le, hmod]; simp [kAlignUnit]; omega),
      hmod]
    simp [kAlignUnit]
    omega

section Allocation

variable (sys : FreshAllocator kAlignUnit.toNat)

/-- `AllocateNewBlock(block_bytes)`: `new char[block_bytes]`, recorded in
`blocks_`. -/
def allocateNewBlock (a : Arena) (blockBytes : UInt64) : Arena × Nat :=
  let block := sys.alloc a.extents blockBytes.toNat
  ({ a with blocks := a.blocks ++ [⟨block, blockBytes.toNat⟩],
            blocksMemory := a.blocksMemory + blockBytes }, block)

/-- `AllocateFallback(bytes, aligned)`: a block of its own above a quarter block;
otherwise a new current block, the request at its front (aligned) or back. -/
def allocateFallback (a : Arena) (bytes : UInt64) (aligned : Bool) : Arena × Nat :=
  if bytes > a.kBlockSize / 4 then
    allocateNewBlock sys { a with irregularBlockNum := a.irregularBlockNum + 1 } bytes
  else
    let size := a.kBlockSize
    let (a, blockHead) := allocateNewBlock sys a size
    let a := { a with allocBytesRemaining := size - bytes }
    if aligned then
      ({ a with alignedAllocPtr := blockHead + bytes.toNat,
                unalignedAllocPtr := blockHead + size.toNat }, blockHead)
    else
      let a := { a with alignedAllocPtr := blockHead,
                        unalignedAllocPtr := blockHead + size.toNat - bytes.toNat }
      (a, a.unalignedAllocPtr)

/-- `AllocateAligned(bytes)`, without huge pages. -/
def allocateAligned (a : Arena) (bytes : UInt64) : Arena × Nat :=
  let slop := slop a.alignedAllocPtr
  let needed := bytes + slop
  if needed ≤ a.allocBytesRemaining then
    ({ a with alignedAllocPtr := a.alignedAllocPtr + needed.toNat,
              allocBytesRemaining := a.allocBytesRemaining - needed },
     a.alignedAllocPtr + slop.toNat)
  else allocateFallback sys a bytes true

/-- `Allocate(bytes)`. -/
def allocate (a : Arena) (bytes : UInt64) : Arena × Nat :=
  if bytes ≤ a.allocBytesRemaining then
    let a := { a with unalignedAllocPtr := a.unalignedAllocPtr - bytes.toNat,
                      allocBytesRemaining := a.allocBytesRemaining - bytes }
    (a, a.unalignedAllocPtr)
  else allocateFallback sys a bytes false

/-- The requests an arena serves. -/
inductive Request
  | allocate (bytes : UInt64)
  | allocateAligned (bytes : UInt64)
  deriving DecidableEq, Repr

/-- The size of a request. -/
def Request.bytes : Request → UInt64
  | .allocate n => n
  | .allocateAligned n => n

/-- Whether a request asks for aligned memory. -/
def Request.isAligned : Request → Bool
  | .allocate _ => false
  | .allocateAligned _ => true

/-- One request. -/
def serve (a : Arena) : Request → Arena × Nat
  | .allocate n => allocate sys a n
  | .allocateAligned n => allocateAligned sys a n

/-- The requests in turn, each returned pointer with its request. -/
def run (a : Arena) : List Request → Arena × List (Nat × Request)
  | [] => (a, [])
  | r :: rs =>
    let (a', p) := serve sys a r
    let (a'', out) := run a' rs
    (a'', (p, r) :: out)

end Allocation

/-- The range a returned pointer stands for. -/
def range (x : Nat × Request) : Extent := ⟨x.1, x.2.bytes.toNat⟩

/-! ## The invariant -/

/-- The invariant of an arena `a` that has handed out the ranges of `out`:
`aligned_alloc_ptr_ + alloc_bytes_remaining_ == unaligned_alloc_ptr_` inside a
block, the blocks apart, and the ranges inside blocks, apart from each other and
from the free range, the aligned ones aligned. -/
structure Inv (a : Arena) (out : List (Nat × Request)) : Prop where
  ptrs : a.alignedAllocPtr + a.allocBytesRemaining.toNat = a.unalignedAllocPtr
  current : ∃ b ∈ a.extents, a.free.Within b
  blocks_apart : a.extents.Pairwise fun b b' => Disjoint b.toSet b'.toSet
  inside : ∀ x ∈ out, ∃ b ∈ a.extents, (range x).Within b
  apart : out.Pairwise fun x y => Disjoint (range x).toSet (range y).toSet
  apart_free : ∀ x ∈ out, Disjoint (range x).toSet a.free.toSet
  aligned : ∀ x ∈ out, x.2.isAligned = true → x.1 % kAlignUnit.toNat = 0

theorem create_inv (inlineBlock : Nat) (blockSize : UInt64) : (create inlineBlock blockSize).Inv [] where
  ptrs := rfl
  current := ⟨_, List.mem_cons_self, Extent.Within.refl _⟩
  blocks_apart := List.pairwise_singleton _ _
  inside _ h := absurd h List.not_mem_nil
  apart := List.Pairwise.nil
  apart_free _ h := absurd h List.not_mem_nil
  aligned _ h := absurd h List.not_mem_nil

open Extent

/-- **Carving a range from the free range keeps the invariant**: the arena keeps
its blocks, its new free range lies in the old one, and the range handed out lies
in the old free range, apart from the new one. -/
theorem Inv.carve {a a' : Arena} {out : List (Nat × Request)} (h : a.Inv out)
    {x : Nat × Request} (hext : a'.extents = a.extents)
    (hptrs : a'.alignedAllocPtr + a'.allocBytesRemaining.toNat = a'.unalignedAllocPtr)
    (hfree : a'.free.Within a.free) (hx : (range x).Within a.free)
    (hxf : Disjoint (range x).toSet a'.free.toSet)
    (hal : x.2.isAligned = true → x.1 % kAlignUnit.toNat = 0) : a'.Inv (out ++ [x]) := by
  obtain ⟨b, hb, hfb⟩ := h.current
  refine ⟨hptrs, ⟨b, hext ▸ hb, hfree.trans hfb⟩, hext ▸ h.blocks_apart, ?_, ?_, ?_, ?_⟩
  · intro y hy
    rcases List.mem_append.mp hy with hy | hy
    · exact hext ▸ h.inside y hy
    · rw [List.mem_singleton.mp hy]
      exact ⟨b, hext ▸ hb, hx.trans hfb⟩
  · refine List.pairwise_append.mpr ⟨h.apart, List.pairwise_singleton _ _, fun y hy z hz => ?_⟩
    rw [List.mem_singleton.mp hz]
    exact (Within.refl _).disjoint hx (h.apart_free y hy)
  · intro y hy
    rcases List.mem_append.mp hy with hy | hy
    · exact (Within.refl _).disjoint hfree (h.apart_free y hy)
    · rw [List.mem_singleton.mp hy]
      exact hxf
  · intro y hy
    rcases List.mem_append.mp hy with hy | hy
    · exact h.aligned y hy
    · rw [List.mem_singleton.mp hy]
      exact hal

/-- **Taking a fresh block keeps the invariant**: the block is apart from every
block the arena owns, the range handed out lies in it, and the free range either
stays (a block of its own) or moves into the new block, apart from the range. -/
theorem Inv.newBlock {a a' : Arena} {out : List (Nat × Request)} (h : a.Inv out)
    {x : Nat × Request} {nb : Extent} (hext : a'.extents = a.extents ++ [nb])
    (hnb : ∀ b ∈ a.extents, Disjoint nb.toSet b.toSet)
    (hptrs : a'.alignedAllocPtr + a'.allocBytesRemaining.toNat = a'.unalignedAllocPtr)
    (hfree : a'.free = a.free ∨ a'.free.Within nb ∧ Disjoint (range x).toSet a'.free.toSet)
    (hx : (range x).Within nb)
    (hal : x.2.isAligned = true → x.1 % kAlignUnit.toNat = 0) : a'.Inv (out ++ [x]) := by
  have hmem : ∀ b ∈ a.extents, b ∈ a'.extents := fun b hb => hext ▸ List.mem_append_left _ hb
  have hnb' : nb ∈ a'.extents := hext ▸ List.mem_append_right _ List.mem_cons_self
  -- what lies in an old block is apart from what lies in the new one
  have hold : ∀ e f : Extent, (∃ b ∈ a.extents, e.Within b) → f.Within nb →
      Disjoint e.toSet f.toSet := by
    rintro e f ⟨b, hb, heb⟩ hf
    exact heb.disjoint hf (hnb b hb).symm
  refine ⟨hptrs, ?_, ?_, ?_, ?_, ?_, ?_⟩
  · rcases hfree with hfree | ⟨hfree, -⟩
    · obtain ⟨b, hb, hfb⟩ := h.current
      exact ⟨b, hmem b hb, hfree ▸ hfb⟩
    · exact ⟨nb, hnb', hfree⟩
  · rw [hext]
    exact List.pairwise_append.mpr ⟨h.blocks_apart, List.pairwise_singleton _ _,
      fun b hb b' hb' => by rw [List.mem_singleton.mp hb']; exact (hnb b hb).symm⟩
  · intro y hy
    rcases List.mem_append.mp hy with hy | hy
    · obtain ⟨b, hb, hyb⟩ := h.inside y hy
      exact ⟨b, hmem b hb, hyb⟩
    · rw [List.mem_singleton.mp hy]
      exact ⟨nb, hnb', hx⟩
  · refine List.pairwise_append.mpr ⟨h.apart, List.pairwise_singleton _ _, fun y hy z hz => ?_⟩
    rw [List.mem_singleton.mp hz]
    exact hold _ _ (h.inside y hy) hx
  · intro y hy
    rcases List.mem_append.mp hy with hy | hy
    · rcases hfree with hfree | ⟨hfree, -⟩
      · exact hfree ▸ h.apart_free y hy
      · exact hold _ _ (h.inside y hy) hfree
    · rw [List.mem_singleton.mp hy]
      rcases hfree with hfree | ⟨-, hxf⟩
      · exact (hold _ _ (hfree ▸ h.current) hx).symm
      · exact hxf
  · intro y hy
    rcases List.mem_append.mp hy with hy | hy
    · exact h.aligned y hy
    · rw [List.mem_singleton.mp hy]
      exact hal

section Allocation

variable (sys : FreshAllocator kAlignUnit.toNat)

theorem allocateNewBlock_extents (a : Arena) (blockBytes : UInt64) :
    (allocateNewBlock sys a blockBytes).1.extents =
      a.extents ++ [⟨sys.alloc a.extents blockBytes.toNat, blockBytes.toNat⟩] := by
  simp [allocateNewBlock, extents]

/-- The new block is apart from every block the arena owns. -/
theorem allocateNewBlock_fresh (a : Arena) (blockBytes : UInt64) :
    ∀ b ∈ a.extents, Disjoint (Extent.toSet ⟨sys.alloc a.extents blockBytes.toNat,
      blockBytes.toNat⟩) b.toSet :=
  sys.fresh a.extents blockBytes.toNat

/-- **`AllocateFallback` keeps the invariant**, in each of its three cases: a
block of the request's own, or a new current block with the request at its
front or at its back. -/
theorem Inv.allocateFallback {a : Arena} {out : List (Nat × Request)} (h : a.Inv out)
    (r : Request) (aligned : Bool) (hal : r.isAligned = aligned) :
    (allocateFallback sys a r.bytes aligned).1.Inv
      (out ++ [((allocateFallback sys a r.bytes aligned).2, r)]) := by
  unfold Arena.allocateFallback
  split
  · -- a block of its own, the free range untouched
    let a₁ : Arena := { a with irregularBlockNum := a.irregularBlockNum + 1 }
    have hext : a₁.extents = a.extents := rfl
    refine h.newBlock (allocateNewBlock_extents sys a₁ _) (hext ▸ allocateNewBlock_fresh sys a₁ _)
      h.ptrs (.inl rfl) (Within.refl _) fun _ => sys.aligned _ _
  · rename_i hsmall
    have hle : r.bytes.toNat ≤ a.kBlockSize.toNat := by
      simp only [gt_iff_lt, UInt64.lt_iff_toNat_lt, UInt64.toNat_div, UInt64.reduceToNat,
        not_lt] at hsmall
      omega
    have hrem : (a.kBlockSize - r.bytes).toNat = a.kBlockSize.toNat - r.bytes.toNat :=
      UInt64.toNat_sub_of_le _ _ (UInt64.le_iff_toNat_le.mpr hle)
    have hext := allocateNewBlock_extents sys a a.kBlockSize
    have hfresh := allocateNewBlock_fresh sys a a.kBlockSize
    dsimp only
    split
    · -- a new current block, the request at its front
      refine h.newBlock hext hfresh ?_ (.inr ⟨?_, ?_⟩) ?_ fun _ => sys.aligned _ _
      · simp [allocateNewBlock, hrem]; omega
      · simp [free, allocateNewBlock, Within, hrem]; omega
      · exact disjoint_of_le (by simp [free, range, allocateNewBlock])
      · simp [allocateNewBlock, Within, range, hle]
    · -- a new current block, the request at its back
      refine h.newBlock hext hfresh ?_ (.inr ⟨?_, ?_⟩) ?_ (by simp_all)
      · simp [allocateNewBlock, hrem]; omega
      · simp [free, allocateNewBlock, Within, hrem]
      · exact (disjoint_of_le (by simp [free, range, allocateNewBlock, hrem]; omega)).symm
      · simp [allocateNewBlock, Within, range]; omega

/-- **`Allocate` keeps the invariant.** -/
theorem Inv.allocate {a : Arena} {out : List (Nat × Request)} (h : a.Inv out) (n : UInt64) :
    (allocate sys a n).1.Inv (out ++ [((allocate sys a n).2, .allocate n)]) := by
  unfold Arena.allocate
  split
  · -- from the back of the free range
    rename_i hn
    have hsub : (a.allocBytesRemaining - n).toNat = a.allocBytesRemaining.toNat - n.toNat :=
      UInt64.toNat_sub_of_le _ _ hn
    have hn' := UInt64.le_iff_toNat_le.mp hn
    have hp := h.ptrs
    refine h.carve rfl ?_ ?_ ?_ ?_ (by simp [Request.isAligned])
    · simp only [hsub]; omega
    · simp [free, Within, hsub]
    · simp [free, range, Within, Request.bytes]; omega
    · exact (disjoint_of_le (by simp [free, range, Request.bytes, hsub]; omega)).symm
  · exact h.allocateFallback sys (.allocate n) false rfl

/-- **`AllocateAligned` keeps the invariant** while `bytes + slop` does not wrap. -/
theorem Inv.allocateAligned {a : Arena} {out : List (Nat × Request)} (h : a.Inv out)
    (n : UInt64) (hn : n.toNat ≤ 2 ^ 64 - kAlignUnit.toNat) :
    (allocateAligned sys a n).1.Inv (out ++ [((allocateAligned sys a n).2, .allocateAligned n)]) := by
  unfold Arena.allocateAligned
  dsimp only
  split
  · -- from the front of the free range, after the slop
    rename_i hneeded
    have hs := toNat_slop a.alignedAllocPtr
    have hS : (slop a.alignedAllocPtr).toNat < 16 := by omega
    have hnk : n.toNat ≤ 2 ^ 64 - 16 := hn
    have hsum : (n + slop a.alignedAllocPtr).toNat = n.toNat + (slop a.alignedAllocPtr).toNat := by
      rw [UInt64.toNat_add]
      exact Nat.mod_eq_of_lt (by omega)
    have hle := UInt64.le_iff_toNat_le.mp hneeded
    have hsub : (a.allocBytesRemaining - (n + slop a.alignedAllocPtr)).toNat =
        a.allocBytesRemaining.toNat - (n.toNat + (slop a.alignedAllocPtr).toNat) := by
      rw [UInt64.toNat_sub_of_le _ _ hneeded, hsum]
    have hp := h.ptrs
    refine h.carve rfl ?_ ?_ ?_ ?_ fun _ => ?_
    · simp only [hsum, hsub]; omega
    · simp [free, Within, hsum, hsub]; omega
    · simp [free, range, Within, Request.bytes]; omega
    · exact disjoint_of_le (by simp [free, range, Request.bytes, hsum]; omega)
    · show (a.alignedAllocPtr + (slop a.alignedAllocPtr).toNat) % 16 = 0
      omega
  · exact h.allocateFallback sys (.allocateAligned n) true rfl

/-- **Every request keeps the invariant**, an aligned one while its size is not
within `kAlignUnit` of `2^64`. -/
theorem Inv.serve {a : Arena} {out : List (Nat × Request)} (h : a.Inv out) (r : Request)
    (hr : r.isAligned = true → r.bytes.toNat ≤ 2 ^ 64 - kAlignUnit.toNat) :
    (serve sys a r).1.Inv (out ++ [((serve sys a r).2, r)]) := by
  cases r with
  | allocate n => exact h.allocate sys n
  | allocateAligned n => exact h.allocateAligned sys n (hr rfl)

/-- **The invariant over a whole run**, by induction on the requests. -/
theorem Inv.run {a : Arena} {out : List (Nat × Request)} (h : a.Inv out) (rs : List Request)
    (hrs : ∀ n, Request.allocateAligned n ∈ rs → n.toNat ≤ 2 ^ 64 - kAlignUnit.toNat) :
    (run sys a rs).1.Inv (out ++ (run sys a rs).2) := by
  induction rs generalizing a out with
  | nil => simpa [Arena.run] using h
  | cons r rs ih =>
    have hr : r.isAligned = true → r.bytes.toNat ≤ 2 ^ 64 - kAlignUnit.toNat := by
      cases r with
      | allocate n => simp [Request.isAligned]
      | allocateAligned n => exact fun _ => hrs n List.mem_cons_self
    have := ih (h.serve sys r hr) fun n hn => hrs n (List.mem_cons_of_mem _ hn)
    simpa [Arena.run] using this

/-- **Arena allocations are inside the arena's blocks, apart and aligned.** For
every block size and every sequence of `Allocate(n)` and `AllocateAligned(n)`
calls on a fresh arena (no huge pages), where no `AllocateAligned(n)` has `n`
within `alignof(max_align_t)` of `2^64`: every returned range `[p, p + n)` lies
inside the inline block or a block the arena allocated, no two returned ranges
overlap, every `AllocateAligned` result is a multiple of `alignof(max_align_t)`,
and `aligned_alloc_ptr_ + alloc_bytes_remaining_ == unaligned_alloc_ptr_` with both
pointers inside a block. -/
theorem arena_allocations_inside_apart_aligned (inlineBlock : Nat) (blockSize : UInt64)
    (rs : List Request)
    (hrs : ∀ n, Request.allocateAligned n ∈ rs → n.toNat ≤ 2 ^ 64 - kAlignUnit.toNat) :
    let r := run sys (create inlineBlock blockSize) rs
    (∀ x ∈ r.2, ∃ b ∈ r.1.extents, (range x).Within b) ∧
      r.2.Pairwise (fun x y => Disjoint (range x).toSet (range y).toSet) ∧
      (∀ x ∈ r.2, x.2.isAligned = true → x.1 % kAlignUnit.toNat = 0) ∧
      r.1.alignedAllocPtr + r.1.allocBytesRemaining.toNat = r.1.unalignedAllocPtr ∧
      ∃ b ∈ r.1.extents, b.addr ≤ r.1.alignedAllocPtr ∧ r.1.unalignedAllocPtr ≤ b.addr + b.size := by
  intro r
  have h := (create_inv inlineBlock blockSize).run sys rs hrs
  rw [List.nil_append] at h
  obtain ⟨b, hb, hfb⟩ := h.current
  refine ⟨h.inside, h.apart, h.aligned, h.ptrs, b, hb, hfb.1, ?_⟩
  rw [← h.ptrs]
  exact hfb.2

end Allocation

/-- `new[]` for the samples: memory past everything the arena owns. -/
def sampleNew : FreshAllocator kAlignUnit.toNat := FreshAllocator.bump 16 (by decide)

/-- An arena of the default block size, its inline block at `0`, serving a run
that takes every path: unaligned and aligned requests from the inline block, one
with slop, a request that needs a block of its own, and an aligned request that
opens a new current block. -/
theorem arena_allocations_inside_apart_aligned_sample :
    let rs := [Request.allocate 100, .allocateAligned 10, .allocateAligned 10, .allocate 3000,
      .allocate 1900, .allocateAligned 500]
    let r := run sampleNew (create 0 kMinBlockSize) rs
    (∀ x ∈ r.2, ∃ b ∈ r.1.extents, (range x).Within b) ∧
      r.2.Pairwise (fun x y => Disjoint (range x).toSet (range y).toSet) ∧
      (∀ x ∈ r.2, x.2.isAligned = true → x.1 % kAlignUnit.toNat = 0) ∧
      r.1.alignedAllocPtr + r.1.allocBytesRemaining.toNat = r.1.unalignedAllocPtr ∧
      ∃ b ∈ r.1.extents, b.addr ≤ r.1.alignedAllocPtr ∧ r.1.unalignedAllocPtr ≤ b.addr + b.size :=
  arena_allocations_inside_apart_aligned sampleNew 0 kMinBlockSize _ (by
    intro n hn
    simp only [List.mem_cons, reduceCtorEq, Request.allocateAligned.injEq, List.not_mem_nil,
      false_or, or_false] at hn
    rcases hn with rfl | rfl | rfl <;> decide)

/-- **`bytes + slop` wraps.** After `AllocateAligned(1)` at an aligned address the
slop is 15, so `AllocateAligned(2^64 - 15)` needs `0` bytes: it answers 16 bytes
past the start of the inline block and moves no pointer, and the next
`AllocateAligned(1)` answers the same address. The second range is in no block,
and it overlaps the third. -/
theorem arena_allocateAligned_needed_wraps :
    let r := run sampleNew (create 0 kMinBlockSize)
      [.allocateAligned 1, .allocateAligned (2 ^ 64 - 15), .allocateAligned 1]
    r.2.map Prod.fst = [0, 16, 16] ∧ r.1.blocks = [] ∧
      ¬ (∀ x ∈ r.2, ∃ b ∈ r.1.extents, (range x).Within b) ∧
      ¬ r.2.Pairwise (fun x y => Disjoint (range x).toSet (range y).toSet) := by
  intro r
  have hout : r.2 = [(0, .allocateAligned 1), (16, .allocateAligned (2 ^ 64 - 15)),
      (16, .allocateAligned 1)] := by decide +kernel
  refine ⟨by rw [hout]; rfl, by decide +kernel, by decide +kernel, fun hp => ?_⟩
  rw [hout] at hp
  simp only [List.pairwise_cons, List.mem_cons, List.not_mem_nil, or_false] at hp
  have h23 := hp.2.1 _ rfl
  rw [Extent.disjoint_iff] at h23
  simp [range, Request.bytes] at h23
  exact absurd h23 (by decide +kernel)

end Arena

end RocksDB
