import Mathlib
import RocksDB.Lib.ArrayHeap

/-!
# `util/heap.h`: `BinaryHeap`

The max-heap of the merging iterators, over a less-than comparator `cmp`. The
array `data_` is a list; a sift keeps the moved value `v` out of the array and
writes it into the hole at the end, as the source does. `root_cmp_cache_`
remembers which child of the root a sift down starting there picked, so that
the next `replace_top` or `pop` compares `v` with it directly.

Both loops run on a fuel that the index bounds: `upheap` moves the hole to a
smaller index each round and `downheap` to a larger one, so the fuel is never
what stops them (`upheapLoop_spec`, `downheapLoop_spec`).

An operation is applied through `Op.apply`, which fails where the call cannot
complete: `pop` and `replace_top` assert a non-empty heap, and `push_back`
cannot grow the array past `kMaxSizet` elements (`max_size()` is smaller).

## Main results

* `Inv`: the heap order, the root-child cache and the size bound, kept by every
  operation (`Op.apply_spec`) together with the abstract step `ModelStep` on
  the multiset of elements.
* `run_spec`: every run from the empty heap keeps `Inv` and follows a run of
  the abstract model.
-/

namespace RocksDB

open ArrayHeap

/-- `port::kMaxSizet`, the largest `size_t`. -/
def kMaxSizet : Nat := 2 ^ 64 - 1

/-- A `BinaryHeap<T, Compare>`: `data_` and `root_cmp_cache_`. -/
structure BinaryHeap (α : Type*) where
  data : List α
  rootCmpCache : Nat
  deriving DecidableEq

namespace BinaryHeap

variable {α : Type*} (cmp : α → α → Bool)

/-- `BinaryHeap()`: no elements and no cached child. -/
def init : BinaryHeap α := ⟨[], kMaxSizet⟩

def getRoot : Nat := 0

def getParent (index : Nat) : Nat := (index - 1) / 2

def getLeft (index : Nat) : Nat := 2 * index + 1

/-- The loop of `upheap` with `v` out of the array and the hole at `index`:
while the hole has a parent less than `v`, that parent moves down into it. -/
def upheapLoop (v : α) : Nat → (data : List α) → (index : Nat) → index < data.length → List α
  | 0, data, index, _ => data.set index v
  | fuel + 1, data, index, h =>
    if index > getRoot then
      have hp : getParent index < data.length := by unfold getParent; omega
      if !cmp data[getParent index] v then data.set index v
      else upheapLoop v fuel (data.set index data[getParent index]) (getParent index)
        (by simpa using hp)
    else data.set index v

/-- `upheap(index)`, which also resets the cache. -/
def upheap (hp : BinaryHeap α) (index : Nat) (h : index < hp.data.length) : BinaryHeap α :=
  ⟨upheapLoop cmp hp.data[index] index hp.data index h, kMaxSizet⟩

/-- The child `downheap` compares `v` with: the cached one at the root if the
cache is inside the array, else the right child if the left is less than it,
else the left. -/
def pickChild (cache : Nat) (data : List α) (index : Nat) (hl : getLeft index < data.length) :
    Nat :=
  let leftChild := getLeft index
  let rightChild := leftChild + 1
  if index = 0 ∧ cache < data.length then cache
  else if hr : rightChild < data.length then
    if cmp data[leftChild] data[rightChild] then rightChild else leftChild
  else leftChild

theorem pickChild_lt (cache : Nat) (data : List α) (index : Nat)
    (hl : getLeft index < data.length) : pickChild cmp cache data index hl < data.length := by
  unfold pickChild
  dsimp only
  split
  · omega
  · split
    · split <;> omega
    · exact hl

/-- The loop of `downheap` with `v` out of the array and the hole at `index`:
the picked child moves up into the hole while `v` is less than it. It returns
the array, the final hole and `picked_child`. -/
def downheapLoop (cache : Nat) (v : α) :
    Nat → (data : List α) → (index pickedChild : Nat) → index < data.length →
      List α × Nat × Nat
  | 0, data, index, pickedChild, _ => (data, index, pickedChild)
  | fuel + 1, data, index, pickedChild, h =>
    if hl : getLeft index ≥ data.length then (data, index, pickedChild)
    else
      let picked := pickChild cmp cache data index (by omega)
      have hp : picked < data.length := pickChild_lt cmp cache data index _
      if !cmp v data[picked] then (data, index, picked)
      else downheapLoop cache v fuel (data.set index data[picked]) picked picked
        (by simpa using hp)

/-- `downheap(index)`: the sift, then the cache set to the picked child if the
hole never left the root (the root's children are unchanged), else reset. -/
def downheap (hp : BinaryHeap α) (index : Nat) (h : index < hp.data.length) : BinaryHeap α :=
  let v := hp.data[index]
  let r := downheapLoop cmp hp.rootCmpCache v hp.data.length hp.data index kMaxSizet h
  ⟨r.1.set r.2.1 v, if r.2.1 = 0 then r.2.2 else kMaxSizet⟩

def push (hp : BinaryHeap α) (value : α) : BinaryHeap α :=
  let data := hp.data ++ [value]
  upheap cmp ⟨data, hp.rootCmpCache⟩ (data.length - 1) (by simp [data])

def top (hp : BinaryHeap α) (h : hp.data ≠ []) : α := hp.data.head h

def replaceTop (hp : BinaryHeap α) (value : α) (h : hp.data ≠ []) : BinaryHeap α :=
  downheap cmp ⟨hp.data.set 0 value, hp.rootCmpCache⟩ getRoot
    (by simpa [getRoot] using List.length_pos_iff.mpr h)

/-- `pop`: the last element moves to the root and the array shrinks; the sift
runs if something is left, else the cache is reset. -/
def pop (hp : BinaryHeap α) (h : hp.data ≠ []) : BinaryHeap α :=
  let data := (hp.data.set 0 (hp.data.getLast h)).dropLast
  if hne : data ≠ [] then
    downheap cmp ⟨data, hp.rootCmpCache⟩ getRoot
      (by simpa [getRoot] using List.length_pos_iff.mpr hne)
  else ⟨data, kMaxSizet⟩

def clear (_ : BinaryHeap α) : BinaryHeap α := ⟨[], kMaxSizet⟩

/-- A call of a heap operation. -/
inductive Op (α : Type*) where
  | push (value : α)
  | pop
  | replaceTop (value : α)
  | clear

/-- The call on `hp`, or `none` where it cannot complete: `assert(!empty())` in
`pop` and `replace_top`, and a `push_back` past `kMaxSizet` elements. -/
def Op.apply (hp : BinaryHeap α) : Op α → Option (BinaryHeap α)
  | .push value =>
    if hp.data.length < kMaxSizet then some (BinaryHeap.push cmp hp value) else none
  | .pop => if h : hp.data ≠ [] then some (BinaryHeap.pop cmp hp h) else none
  | .replaceTop value =>
    if h : hp.data ≠ [] then some (BinaryHeap.replaceTop cmp hp value h) else none
  | .clear => some (BinaryHeap.clear hp)

/-- The calls in turn on a new heap. -/
def run (ops : List (Op α)) : Option (BinaryHeap α) := ops.foldlM (Op.apply cmp) init

/-! ## The abstract heap -/

/-- What the heap stands for: a multiset, where `push` adds the value, `pop`
takes out some element no other is above, and `replace_top` trades such an
element for the value. -/
def ModelStep (lt : α → α → Bool) (M : Multiset α) : Op α → Multiset α → Prop
  | .push value, M' => M' = M + {value}
  | .pop, M' => ∃ m ∈ M, (∀ x ∈ M, lt m x = false) ∧ M = M' + {m}
  | .replaceTop value, M' => ∃ m ∈ M, (∀ x ∈ M, lt m x = false) ∧ M + {value} = M' + {m}
  | .clear, M' => M' = 0

/-- The multisets the abstract heap can hold after a sequence of calls. -/
inductive ModelRun (lt : α → α → Bool) : List (Op α) → Multiset α → Prop
  | nil : ModelRun lt [] 0
  | snoc {ops : List (Op α)} {M : Multiset α} {op : Op α} {M' : Multiset α} :
    ModelRun lt ops M → ModelStep lt M op M' → ModelRun lt (ops ++ [op]) M'

/-! ## The invariant -/

/-- `root_cmp_cache_`, when inside the array, is a child of the root not less
than the other child. -/
def CacheValid (hp : BinaryHeap α) : Prop :=
  ∀ _ : hp.rootCmpCache < hp.data.length, IsMaxChild cmp hp.data 0 hp.rootCmpCache

structure Inv (hp : BinaryHeap α) : Prop where
  ordered : HeapOrdered cmp hp.data
  cache : CacheValid cmp hp
  size : hp.data.length ≤ kMaxSizet

theorem init_inv : Inv cmp (init : BinaryHeap α) :=
  ⟨fun _ _ hp => absurd hp (by simp [init]), fun h => absurd h (by simp [init]),
    by simp [init]⟩

section Sift

variable {cmp} (hlt : IsStrictWeakOrder α (fun a b => cmp a b = true))
include hlt

/-- `upheap`'s loop ends with an ordered array holding the values it started
with, `v` included, as long as the fuel covers the index. -/
theorem upheapLoop_spec {v : α} (fuel : Nat) {data : List α} {index : Nat}
    (h : index < data.length) (hf : index ≤ fuel) (o : UpOrder cmp data index v) :
    HeapOrdered cmp (upheapLoop cmp v fuel data index h) ∧
      (↑(upheapLoop cmp v fuel data index h) : Multiset α) = ↑(data.set index v) := by
  induction fuel generalizing data index with
  | zero =>
    -- the hole is at the root, which has no parent
    exact ⟨o.finish fun g _ hg => absurd hg.1 (by omega), rfl⟩
  | succ fuel ih =>
    rw [upheapLoop]
    dsimp only
    split
    · rename_i hi
      have hpc : IsChild index (getParent index) := ⟨hi, rfl⟩
      have hpl : getParent index < data.length := lt_trans hpc.lt h
      split
      · -- the parent is not less than `v`: the hole is filled
        rename_i hb
        have hb' : cmp data[getParent index] v = false := by simpa using hb
        refine ⟨o.finish fun g hg hgi => ?_, rfl⟩
        obtain rfl := hgi.unique hpc
        exact hb'
      · -- the parent moves down into the hole
        rename_i hb
        have hb' : cmp data[getParent index] v = true := by simpa using hb
        obtain ⟨hord, hms⟩ := ih (by simpa using hpl) (by unfold getParent; omega)
          (o.move hlt hpc hpl hb')
        exact ⟨hord, hms.trans (coe_set_swap data h hpl (Nat.ne_of_gt hpc.lt) v)⟩
    · rename_i hi
      exact ⟨o.finish fun g _ hg => absurd hg.1 (by unfold getRoot at hi; omega), rfl⟩

/-- The child `downheap` picks is a maximal child of the hole, given the cache
is one at the root when it is inside the array. -/
theorem pickChild_spec (cache : Nat) (data : List α) (index : Nat)
    (hl : getLeft index < data.length)
    (hcache : index = 0 → cache < data.length → IsMaxChild cmp data 0 cache) :
    IsMaxChild cmp data index (pickChild cmp cache data index hl) := by
  have hleft : IsChild (getLeft index) index := isChild_iff.mpr (.inl rfl)
  unfold pickChild
  dsimp only
  split
  · rename_i hc
    obtain ⟨rfl, hcl⟩ := hc
    exact hcache rfl hcl
  · split
    · rename_i hr
      split
      · -- the left child is less than the right one
        rename_i hlr
        refine ⟨isChild_iff.mpr (.inr (by unfold getLeft; omega)), hr, fun s hs hsi => ?_⟩
        rcases isChild_iff.mp hsi with rfl | rfl
        · exact swo_asymm hlt hlr
        · exact swo_irrefl hlt _
      · rename_i hlr
        refine ⟨hleft, hl, fun s hs hsi => ?_⟩
        rcases isChild_iff.mp hsi with rfl | rfl
        · exact swo_irrefl hlt _
        · simpa [getLeft] using hlr
    · -- no right child
      rename_i hr
      refine ⟨hleft, hl, fun s hs hsi => ?_⟩
      rcases isChild_iff.mp hsi with rfl | rfl
      · exact swo_irrefl hlt _
      · exact absurd hs (by unfold getLeft at hr; omega)

/-- `downheap`'s loop ends with an ordered array holding the values it started
with, `v` included. Either the hole never moved, and then the array is as it
was and `picked_child` is the one passed in or a maximal child of the hole, or
the hole ends below where it started. -/
theorem downheapLoop_spec {cache : Nat} {v : α} (fuel : Nat) {data : List α}
    {index pickedChild : Nat} (h : index < data.length) (hf : data.length ≤ fuel + index)
    (o : DownOrder cmp data index v)
    (hcache : index = 0 → cache < data.length → IsMaxChild cmp data 0 cache) :
    let r := downheapLoop cmp cache v fuel data index pickedChild h
    HeapOrdered cmp (r.1.set r.2.1 v) ∧
      (↑(r.1.set r.2.1 v) : Multiset α) = ↑(data.set index v) ∧
      (r.2.1 = index ∧ r.1 = data ∧ (r.2.2 = pickedChild ∨ IsMaxChild cmp data index r.2.2) ∨
        index < r.2.1) := by
  induction fuel generalizing data index pickedChild with
  | zero => omega
  | succ fuel ih =>
    rw [downheapLoop]
    dsimp only
    split
    · -- no children: the hole is filled
      rename_i hl
      refine ⟨o.finish fun c hc hci => ?_, rfl, .inl ⟨rfl, rfl, .inl rfl⟩⟩
      have := isChild_iff.mp hci
      unfold getLeft at hl
      omega
    · rename_i hl
      obtain ⟨hcp, hcl, hmax⟩ := pickChild_spec hlt cache data index (by omega) hcache
      split
      · -- `v` is not less than the picked child, so than no child
        rename_i hb
        have hb' : cmp v data[pickChild cmp cache data index (by omega)] = false := by
          simpa using hb
        refine ⟨o.finish fun c hc hci => swo_not_lt_trans hlt hb' (hmax c hc hci), rfl,
          .inl ⟨rfl, rfl, .inr ⟨hcp, hcl, hmax⟩⟩⟩
      · -- the picked child moves up into the hole
        rename_i hb
        have hb' : cmp v data[pickChild cmp cache data index (by omega)] = true := by
          simpa using hb
        obtain ⟨hord, hms, hmoved⟩ := ih (by simpa using hcl)
          (by have := hcp.lt; simp only [List.length_set]; omega) (o.move hlt hcp hcl hmax hb')
          (fun h0 => absurd h0 (by have := hcp.lt; omega))
        refine ⟨hord, hms.trans (coe_set_swap data h hcl (Nat.ne_of_lt hcp.lt) v), .inr ?_⟩
        rcases hmoved with ⟨heq, -, -⟩ | hgt
        · rw [heq]
          exact hcp.lt
        · exact lt_trans hcp.lt hgt

/-- `downheap` at the root of an array ordered off the root, with a valid cache,
gives a heap that keeps `Inv` and holds the same values. -/
theorem downheap_spec (hp : BinaryHeap α) (h0 : getRoot < hp.data.length)
    (hex : OrderedExcept cmp hp.data 0) (hcache : CacheValid cmp hp)
    (hsize : hp.data.length ≤ kMaxSizet) :
    Inv cmp (downheap cmp hp getRoot h0) ∧
      (↑(downheap cmp hp getRoot h0).data : Multiset α) = ↑hp.data := by
  -- the sift starts at the root with `picked_child = port::kMaxSizet`
  obtain ⟨hord, hms, hstay⟩ := @downheapLoop_spec _ _ hlt hp.rootCmpCache hp.data[getRoot]
    hp.data.length hp.data getRoot kMaxSizet h0 (by omega) (downOrder_root hex _)
    (fun _ hc => hcache hc)
  simp only [downheap]
  generalize downheapLoop cmp hp.rootCmpCache hp.data[getRoot] hp.data.length hp.data getRoot
    kMaxSizet h0 = r at hord hms hstay
  rw [List.set_getElem_self] at hms
  have hlen : (r.1.set r.2.1 hp.data[getRoot]).length = hp.data.length := by
    simpa using congrArg Multiset.card hms
  refine ⟨⟨hord, fun hc => ?_, by rw [hlen]; exact hsize⟩, hms⟩
  dsimp only at hc ⊢
  rw [hlen] at hc
  split at hc
  · -- the hole stayed at the root: the array's children are those of `hp`
    rename_i h0'
    rcases hstay with ⟨-, hdata, hpicked | hmax⟩ | hgt
    · rw [hpicked] at hc
      omega
    · rw [hdata, h0']
      exact hmax.of_agree (by simpa using hc) (by simp) fun i _ _ hi0 =>
        List.getElem_set_ne (Ne.symm hi0) _
    · unfold getRoot at hgt
      omega
  · omega

/-! ## The operations -/

theorem push_spec {hp : BinaryHeap α} (hinv : Inv cmp hp) (value : α)
    (hsize : hp.data.length < kMaxSizet) :
    Inv cmp (push cmp hp value) ∧ (↑(push cmp hp value).data : Multiset α) = ↑hp.data + {value} := by
  have o : UpOrder cmp (hp.data ++ [value]) ((hp.data ++ [value]).length - 1)
      (hp.data ++ [value])[(hp.data ++ [value]).length - 1] := by
    simpa using upOrder_append hinv.ordered value
  obtain ⟨hord, hms⟩ := upheapLoop_spec hlt _ (by simp) le_rfl o
  rw [List.set_getElem_self] at hms
  have happ : (↑(hp.data ++ [value]) : Multiset α) = ↑hp.data + {value} := by
    rw [← Multiset.coe_add, Multiset.coe_singleton]
  have hms' : (↑(push cmp hp value).data : Multiset α) = ↑hp.data + {value} := hms.trans happ
  have hlen : (push cmp hp value).data.length = hp.data.length + 1 := by
    simpa using congrArg Multiset.card hms'
  -- `upheap` resets the cache, which the size keeps outside the array
  have hcache : (push cmp hp value).rootCmpCache = kMaxSizet := rfl
  exact ⟨⟨hord, fun hc => absurd hc (by rw [hcache, hlen]; omega), by omega⟩, hms'⟩

omit hlt in
/-- Off the root, `replace_top` and `pop` leave the children where they were,
so the cache stays valid. -/
theorem cacheValid_of_agree {hp : BinaryHeap α} (hinv : Inv cmp hp) {data : List α}
    (hlen : data.length ≤ hp.data.length)
    (hagree : ∀ i (hi : i < data.length) (hi' : i < hp.data.length), i ≠ 0 →
      data[i] = hp.data[i]) :
    CacheValid cmp ⟨data, hp.rootCmpCache⟩ := fun hc =>
  (hinv.cache (lt_of_lt_of_le hc hlen)).of_agree hc hlen hagree

theorem replaceTop_spec {hp : BinaryHeap α} (hinv : Inv cmp hp) (value : α) (h : hp.data ≠ []) :
    Inv cmp (replaceTop cmp hp value h) ∧
      (↑(replaceTop cmp hp value h).data : Multiset α) + {top hp h} = ↑hp.data + {value} := by
  have h0 : 0 < hp.data.length := List.length_pos_iff.mpr h
  have hspec := downheap_spec hlt ⟨hp.data.set 0 value, hp.rootCmpCache⟩
    (by simpa [getRoot] using h0) ((hinv.ordered.orderedExcept 0).set value)
    (cacheValid_of_agree hinv (by simp) fun i _ _ hi0 => List.getElem_set_ne (Ne.symm hi0) _)
    (by simpa using hinv.size)
  refine ⟨hspec.1, ?_⟩
  rw [replaceTop, hspec.2, top, List.head_eq_getElem]
  exact coe_set_add hp.data h0 value

theorem pop_spec {hp : BinaryHeap α} (hinv : Inv cmp hp) (h : hp.data ≠ []) :
    Inv cmp (pop cmp hp h) ∧ (↑(pop cmp hp h).data : Multiset α) + {top hp h} = ↑hp.data := by
  have h0 : 0 < hp.data.length := List.length_pos_iff.mpr h
  have hms := coe_dropLast_set_zero hp.data h0
  rw [← List.head_eq_getElem (List.ne_nil_of_length_pos h0)] at hms
  unfold pop
  dsimp only
  split
  · rename_i hne
    have hspec := downheap_spec hlt ⟨(hp.data.set 0 (hp.data.getLast h)).dropLast, hp.rootCmpCache⟩
      (by simpa [getRoot] using List.length_pos_iff.mpr hne)
      ((hinv.ordered.orderedExcept 0).set _).dropLast
      (cacheValid_of_agree hinv (by simp) fun i _ _ hi0 => by
        rw [List.getElem_dropLast, List.getElem_set_ne (Ne.symm hi0)])
      (by simp; have := hinv.size; omega)
    exact ⟨hspec.1, by rw [hspec.2]; exact hms⟩
  · -- the last element was the root: nothing is left
    rename_i hne
    simp only [ne_eq, Decidable.not_not] at hne
    refine ⟨⟨fun _ _ hp => by simp [hne] at hp, fun hc => by simp [hne] at hc, by simp [hne]⟩,
      hms⟩

/-- Every call that completes keeps `Inv` and makes the abstract step: the root
it takes out is the top, which nothing is above. -/
theorem Op.apply_spec {hp hp' : BinaryHeap α} (hinv : Inv cmp hp) {op : Op α}
    (happ : Op.apply cmp hp op = some hp') :
    Inv cmp hp' ∧ ModelStep cmp ↑hp.data op ↑hp'.data := by
  -- the top is in the heap and above nothing in it
  have htop : ∀ h : hp.data ≠ [], top hp h ∈ (↑hp.data : Multiset α) ∧
      ∀ x ∈ (↑hp.data : Multiset α), cmp (top hp h) x = false := fun h =>
    ⟨Multiset.mem_coe.mpr (List.head_mem h), fun x hx => by
      rw [top, List.head_eq_getElem]
      exact hinv.ordered.root_max hlt (List.length_pos_iff.mpr h) x (Multiset.mem_coe.mp hx)⟩
  cases op with
  | push value =>
    simp only [Op.apply, Option.ite_none_right_eq_some, Option.some.injEq] at happ
    obtain ⟨hsize, rfl⟩ := happ
    exact push_spec hlt hinv value hsize
  | pop =>
    simp only [Op.apply, Option.dite_none_right_eq_some, Option.some.injEq] at happ
    obtain ⟨h, rfl⟩ := happ
    obtain ⟨hinv', hms⟩ := pop_spec hlt hinv h
    exact ⟨hinv', top hp h, (htop h).1, (htop h).2, hms.symm⟩
  | replaceTop value =>
    simp only [Op.apply, Option.dite_none_right_eq_some, Option.some.injEq] at happ
    obtain ⟨h, rfl⟩ := happ
    obtain ⟨hinv', hms⟩ := replaceTop_spec hlt hinv value h
    exact ⟨hinv', top hp h, (htop h).1, (htop h).2, hms.symm⟩
  | clear =>
    simp only [Op.apply, Option.some.injEq] at happ
    subst happ
    exact ⟨⟨fun _ _ hb => by simp [BinaryHeap.clear] at hb,
      fun hc => by simp [BinaryHeap.clear] at hc, by simp [BinaryHeap.clear]⟩, rfl⟩

/-- Every run that completes ends in a heap that keeps `Inv` and holds what the
abstract heap holds after the same calls. -/
theorem run_spec (ops : List (Op α)) {hp : BinaryHeap α} (hrun : run cmp ops = some hp) :
    Inv cmp hp ∧ ModelRun cmp ops ↑hp.data := by
  induction ops using List.reverseRecOn generalizing hp with
  | nil =>
    simp only [run, List.foldlM_nil, Option.pure_def, Option.some.injEq] at hrun
    subst hrun
    exact ⟨init_inv cmp, .nil⟩
  | append_singleton ops op ih =>
    simp only [run, List.foldlM_append, List.foldlM_cons, List.foldlM_nil, Option.bind_eq_bind,
      Option.pure_def, Option.bind_eq_some_iff, Option.some.injEq] at hrun
    obtain ⟨hp0, hrun0, hp1, happ, rfl⟩ := hrun
    obtain ⟨hinv0, hmodel0⟩ := ih hrun0
    obtain ⟨hinv, hstep⟩ := Op.apply_spec hlt hinv0 happ
    exact ⟨hinv, .snoc hmodel0 hstep⟩

end Sift

/-- Every sequence of `push`, `pop`, `replace_top` and `clear` calls that
completes, under a strict weak order: the heap holds what the abstract heap
holds after the same calls, no element is less than one of its descendants, the
top is a maximum, and a cache inside the array names a child of the root not
less than the other child. -/
theorem binaryHeap_run_invariant (cmp : α → α → Bool)
    (hlt : IsStrictWeakOrder α (fun a b => cmp a b = true)) (ops : List (Op α))
    (hp : BinaryHeap α) (hrun : run cmp ops = some hp) :
    ModelRun cmp ops ↑hp.data ∧
      (∀ a c (ha : a < hp.data.length) (hc : c < hp.data.length), Desc a c →
        cmp hp.data[a] hp.data[c] = false) ∧
      (∀ h : hp.data ≠ [], ∀ x ∈ hp.data, cmp (top hp h) x = false) ∧
      ∀ h : hp.rootCmpCache < hp.data.length, IsChild hp.rootCmpCache 0 ∧
        ∀ s (hs : s < hp.data.length), IsChild s 0 → cmp hp.data[hp.rootCmpCache] hp.data[s] = false := by
  obtain ⟨hinv, hmodel⟩ := run_spec hlt ops hrun
  refine ⟨hmodel, fun a c ha hc hd => hinv.ordered.desc hlt hd ha hc, fun h x hx => ?_,
    fun h => ?_⟩
  · rw [top, List.head_eq_getElem]
    exact hinv.ordered.root_max hlt (List.length_pos_iff.mpr h) x hx
  · obtain ⟨hchild, _, hmax⟩ := hinv.cache h
    exact ⟨hchild, hmax⟩

/-- `<` on numbers is a strict weak order. -/
theorem natLt_isStrictWeakOrder : IsStrictWeakOrder ℕ (fun a b => decide (a < b) = true) where
  irrefl a := by simp
  trans a b c := by simp only [decide_eq_true_eq]; omega
  incomp_trans a b c := by simp only [decide_eq_true_eq]; omega

theorem binaryHeap_run_invariant_sample :
    run (fun a b : ℕ => decide (a < b)) [.push 3, .push 5, .pop] = some ⟨[3], kMaxSizet⟩ ∧
      ModelRun (fun a b : ℕ => decide (a < b)) [.push 3, .push 5, .pop] ↑[3] :=
  have hrun : run (fun a b : ℕ => decide (a < b)) [.push 3, .push 5, .pop] =
      some ⟨[3], kMaxSizet⟩ := by decide
  ⟨hrun, (binaryHeap_run_invariant _ natLt_isStrictWeakOrder _ _ hrun).1⟩

end BinaryHeap

end RocksDB
