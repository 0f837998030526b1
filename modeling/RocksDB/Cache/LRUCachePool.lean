import RocksDB.Cache.LRUCacheCapacity

/-!
# The high-priority pool's bound

`MaintainPoolSize` overflows the oldest entries of the high-priority pool into the low-priority
pool until `high_pri_pool_usage_` is at most `high_pri_pool_capacity_`. It runs after
`LRU_Insert` of a high-priority entry and in `SetHighPriorityPoolRatio`; every other list
operation only takes entries out of the pool. So no call but `SetCapacity`, which lowers the
pool's capacity and evicts for the total capacity only, takes a pool within its capacity over it.

## Main definitions

- `PoolWithin`: `high_pri_pool_usage_ <= high_pri_pool_capacity_`, as `MaintainPoolSize` tests it
- `highPriPoolTotal`: the charges of the flagged entries of the list, summed as numbers

## Main results

- `PoolOk.maintainPoolSize_within`: `MaintainPoolSize` ends with the pool within its capacity
- `ShardState.apply_poolWithin`: every call but `SetCapacity` keeps the pool within its capacity,
  while the live charges fit in 64 bits

## Design notes

`high_pri_pool_usage_` is a `uint64_t`, the pool's total only while that total does not wrap.
The steps of a call are compared through `highPriPoolTotal`, which counts in numbers, and the
word is read as that number only at the two ends of the call, where `Inv` holds.
-/

namespace RocksDB

namespace LRUCacheShard

variable {s : LRUCacheShard} {hs pend : List Nat} {e : Nat}

/-! ### The pool's total -/

/-- `high_pri_pool_usage_ <= high_pri_pool_capacity_`: the test `MaintainPoolSize` loops on,
negated, with the usage converted to `double`. -/
def PoolWithin (s : LRUCacheShard) : Prop :=
  (BinaryFloat.Value.ofNat s.highPriPoolUsage.toNat : Double).val ≤ s.highPriPoolCapacity.val

instance (s : LRUCacheShard) : Decidable s.PoolWithin :=
  inferInstanceAs (Decidable (_ ≤ _))

/-- What an entry of the list adds to the pool: its charge when it is flagged. -/
def highPriCharge (s : LRUCacheShard) (x : Nat) : Nat :=
  if (s.handle x).inHighPriPool then (s.chargeOf x).toNat else 0

/-- The high-priority pool's usage as a number: the charges of the flagged entries of the
list. -/
def highPriPoolTotal (s : LRUCacheShard) : Nat := (s.lru.map s.highPriCharge).sum

/-- Over a split, the pool's total is the charge of its `high` side. -/
theorem PoolSplit.highPriPoolTotal_eq {low high : List Nat} (hs : s.PoolSplit low high)
    (hnd : s.lru.Nodup) :
    s.highPriPoolTotal = (high.map fun x => (s.chargeOf x).toNat).sum := by
  have hdisj := (List.nodup_append.mp (hs.lru_eq ▸ hnd)).2.2
  have hmem : ∀ x, x ∈ low ∨ x ∈ high → x ∈ s.lru := fun x hx => by
    rw [hs.lru_eq]
    exact List.mem_append.mpr hx
  -- the `low` side adds nothing, the `high` side its charges
  have hlow : low.map s.highPriCharge = low.map fun _ => 0 :=
    List.map_congr_left fun x hx => by
      have hnot : x ∉ high := fun h => hdisj x hx x h rfl
      simp [highPriCharge, (hs.inHighPriPool_iff x (hmem x (Or.inl hx))).not.mpr hnot]
  have hhigh : high.map s.highPriCharge = high.map fun x => (s.chargeOf x).toNat :=
    List.map_congr_left fun x hx => by
      simp [highPriCharge, (hs.inHighPriPool_iff x (hmem x (Or.inr hx))).mpr hx]
  rw [highPriPoolTotal, hs.lru_eq, List.map_append, List.sum_append, hlow, hhigh]
  simp

/-- `high_pri_pool_usage_` is the pool's total while that total fits in 64 bits. -/
theorem PoolOk.toNat_highPriPoolUsage (hp : s.PoolOk) (hN : s.highPriPoolTotal < 2 ^ 64) :
    s.highPriPoolUsage.toNat = s.highPriPoolTotal := by
  obtain ⟨low, high, hs⟩ := hp.split
  rw [hs.highPriPoolTotal_eq hp.nodup] at hN ⊢
  rw [hs.highPriPoolUsage_eq, UInt64.toNat_list_sum_of_lt] <;> rw [List.map_map]
  · rfl
  · exact hN

/-- The pool's total is part of the live entries' charges. -/
theorem PoolOk.highPriPoolTotal_le (hp : s.PoolOk) (hwf : s.heap.WF) :
    s.highPriPoolTotal ≤ s.chargeTotal := by
  obtain ⟨low, high, hs⟩ := hp.split
  have hnd : (low ++ high).Nodup := hs.lru_eq ▸ hp.nodup
  rw [hs.highPriPoolTotal_eq hp.nodup]
  exact sum_chargeOf_le hwf (List.nodup_append.mp hnd).2.1 fun x hx =>
    hp.live x (by rw [hs.lru_eq]; exact List.mem_append_right low hx)

/-- An empty pool is within any capacity that is not negative. -/
theorem PoolSplit.poolWithin_nil {low : List Nat} (hs : s.PoolSplit low [])
    (hcap : 0 ≤ s.highPriPoolCapacity.val) : s.PoolWithin := by
  simpa [PoolWithin, hs.highPriPoolUsage_eq] using hcap

/-! ### What each list operation does to the total -/

/-- Keeping the list and what its entries add keeps the total. -/
theorem highPriPoolTotal_congr {s' : LRUCacheShard} (hlru : s'.lru = s.lru)
    (hx : ∀ x ∈ s.lru, s'.highPriCharge x = s.highPriCharge x) :
    s'.highPriPoolTotal = s.highPriPoolTotal := by
  rw [highPriPoolTotal, highPriPoolTotal, hlru, List.map_congr_left hx]

/-- A write that keeps the charge and the pool flag keeps what every entry adds. -/
theorem highPriCharge_modify (f : LRUHandle → LRUHandle)
    (hf : ∀ h, (f h).inHighPriPool = h.inHighPriPool ∧ (f h).charge = h.charge) :
    (s.modify e f).highPriCharge = s.highPriCharge := by
  funext x
  by_cases hx : x = e
  · subst hx
    cases hc : s.heap.cells x with
    | none => simp [highPriCharge, handle, hc]
    | some h =>
      simp [highPriCharge, chargeOf, handle_modify_of_cells f hc, handle_eq_of_cells hc, hf]
  · simp [highPriCharge, chargeOf, handle_modify_of_ne f hx]

theorem highPriPoolTotal_modify (f : LRUHandle → LRUHandle)
    (hf : ∀ h, (f h).inHighPriPool = h.inHighPriPool ∧ (f h).charge = h.charge) :
    (s.modify e f).highPriPoolTotal = s.highPriPoolTotal := by
  rw [highPriPoolTotal, highPriPoolTotal, lru_modify, highPriCharge_modify f hf]

@[simp] theorem highPriPoolTotal_setUsage (u : UInt64) :
    ({ s with usage := u } : LRUCacheShard).highPriPoolTotal = s.highPriPoolTotal := rfl
@[simp] theorem highPriPoolTotal_setTable (t : AList fun _ : List UInt8 => Nat) :
    ({ s with table := t } : LRUCacheShard).highPriPoolTotal = s.highPriPoolTotal := rfl
@[simp] theorem highPriPoolTotal_unref : (s.unref e).1.highPriPoolTotal = s.highPriPoolTotal :=
  highPriPoolTotal_modify (fun h => { h with refs := h.refs - 1 }) fun _ => ⟨rfl, rfl⟩
@[simp] theorem highPriPoolTotal_setInCache (b : Bool) :
    (s.setInCache e b).highPriPoolTotal = s.highPriPoolTotal :=
  highPriPoolTotal_modify (fun h => { h with inCache := b }) fun _ => ⟨rfl, rfl⟩

/-- `LRU_Remove` takes at most its entry's share off the total. -/
theorem highPriPoolTotal_lruRemove_le : (s.lruRemove e).highPriPoolTotal ≤ s.highPriPoolTotal := by
  have hcharge : (s.lruRemove e).highPriCharge = s.highPriCharge := by
    funext x
    simp [highPriCharge, chargeOf]
  rw [highPriPoolTotal, highPriPoolTotal, hcharge, lru_lruRemove]
  exact ((List.erase_sublist).map _).sum_le_sum fun _ _ => Nat.zero_le _

theorem highPriPoolTotal_ite_lruRemove_le (c : Prop) [Decidable c] :
    (if c then s.lruRemove e else s).highPriPoolTotal ≤ s.highPriPoolTotal := by
  split_ifs
  · exact highPriPoolTotal_lruRemove_le
  · exact le_rfl

theorem highPriPoolTotal_dropFromCache :
    (s.dropFromCache e).highPriPoolTotal = s.highPriPoolTotal := by
  have h : (s.dropFromCache e).highPriCharge =
      ((s.modify e fun h => { h with inCache := false }).modify e
        fun h => { h with refs := h.refs - 1 }).highPriCharge := rfl
  rw [highPriPoolTotal, h, highPriCharge_modify (fun h => { h with refs := h.refs - 1 })
    fun _ => ⟨rfl, rfl⟩, highPriCharge_modify (fun h => { h with inCache := false })
    fun _ => ⟨rfl, rfl⟩]
  rfl

theorem highPriPoolTotal_evictOldest_le :
    (s.evictOldest e).highPriPoolTotal ≤ s.highPriPoolTotal := by
  rw [evictOldest, highPriPoolTotal_dropFromCache]
  exact highPriPoolTotal_lruRemove_le

/-- Eviction only takes from the pool. -/
theorem highPriPoolTotal_evictLoop_le (cond : LRUCacheShard → Bool) (fuel : Nat)
    (s : LRUCacheShard) (del : List Nat) :
    (evictLoop cond fuel s del).1.highPriPoolTotal ≤ s.highPriPoolTotal :=
  evictLoop_induction (fun t _ => t.highPriPoolTotal ≤ s.highPriPoolTotal)
    (fun _ _ _ _ _ h => highPriPoolTotal_evictOldest_le.trans h) cond fuel s del le_rfl

/-- Freeing keeps the total when the list is live after: no entry of the list was freed. -/
theorem highPriPoolTotal_freeAll {es : List Nat} (hp : (s.freeAll es).PoolOk) :
    (s.freeAll es).highPriPoolTotal = s.highPriPoolTotal := by
  refine highPriPoolTotal_congr rfl fun x hx => ?_
  have hlive := hp.live x hx
  have hcells : (s.heap.freeAll es).cells x = s.heap.cells x := by
    rw [Heap.cells_freeAll]
    split_ifs with hmem
    · -- a freed entry's cell is empty, so a live one was not freed
      have hnone : (s.heap.freeAll es).cells x = none := by rw [Heap.cells_freeAll, if_pos hmem]
      exact absurd hlive (by simp [freeAll, hnone])
    · rfl
  have hhandle : (s.freeAll es).handle x = s.handle x := by
    show ((s.heap.freeAll es).cells x).getD default = _
    rw [hcells]
    rfl
  unfold highPriCharge chargeOf
  rw [hhandle]

theorem highPriPoolTotal_free (hp : (s.free e).PoolOk) :
    (s.free e).highPriPoolTotal = s.highPriPoolTotal := by
  show (s.freeAll [e]).highPriPoolTotal = _
  exact highPriPoolTotal_freeAll hp

/-- A record put at the next address, off the list, adds nothing to the total. -/
theorem highPriPoolTotal_of_alloc {s' : LRUCacheShard} {h : LRUHandle} (hlru : s'.lru = s.lru)
    (hheap : s'.heap = (s.heap.alloc h).1) (hfresh : s.heap.next ∉ s.lru) :
    s'.highPriPoolTotal = s.highPriPoolTotal :=
  highPriPoolTotal_congr hlru fun x hx => by
    have hne : x ≠ s.heap.next := fun h => hfresh (h ▸ hx)
    have hhandle : s'.handle x = s.handle x := by
      unfold handle
      rw [hheap, Heap.cells_alloc, if_neg hne]
    unfold highPriCharge chargeOf
    rw [hhandle]

/-- `replaceOld` only takes from the pool: the old entry leaves the list, if at all. -/
theorem highPriPoolTotal_replaceOld_le (old : Option Nat) (pend : List Nat) :
    (s.replaceOld old pend).1.highPriPoolTotal ≤ s.highPriPoolTotal := by
  cases old with
  | none => exact le_rfl
  | some o =>
    have hmod : ((s.setInCache o false).unref o).1.highPriPoolTotal = s.highPriPoolTotal := by
      rw [highPriPoolTotal_unref, highPriPoolTotal_setInCache]
    dsimp only [replaceOld]
    split
    · exact highPriPoolTotal_lruRemove_le.trans hmod.le
    · exact hmod.le

/-- Linking in after `lru_low_pri_` puts the entry outside the pool. -/
theorem highPriPoolTotal_linkLowPri (hp : s.PoolOk) (he : e ∉ s.lru)
    (hlive : (s.heap.cells e).isSome) :
    (s.linkLowPri e).highPriPoolTotal = s.highPriPoolTotal := by
  obtain ⟨-, low, high, hlru, hlru'⟩ := hp.linkLowPri he hlive
  obtain ⟨h, hc⟩ := Option.isSome_iff_exists.mp hlive
  have hother : ∀ x ∈ s.lru, (s.linkLowPri e).highPriCharge x = s.highPriCharge x := by
    intro x hx
    have hxe : x ≠ e := fun h => he (h ▸ hx)
    show (s.modify e fun h => { h with inHighPriPool := false }).highPriCharge x = _
    simp only [highPriCharge, chargeOf, handle_modify_of_ne _ hxe]
  have he0 : (s.linkLowPri e).highPriCharge e = 0 := by
    show (s.modify e fun h => { h with inHighPriPool := false }).highPriCharge e = 0
    simp [highPriCharge, handle_modify_of_cells _ hc]
  rw [highPriPoolTotal, hlru', List.map_append, List.map_cons, List.sum_append,
    List.sum_cons, he0, zero_add, ← List.sum_append, ← List.map_append, ← hlru,
    List.map_congr_left hother]
  rfl

/-! ### `MaintainPoolSize` -/

/-- **`MaintainPoolSize`'s loop** overflows until the pool is within its capacity: it stops
early only on an empty pool, and the pool's `high` side is fuel enough. -/
theorem PoolOk.maintainPoolSizeLoop_within (hp : s.PoolOk) (hcap : 0 ≤ s.highPriPoolCapacity.val)
    {low high : List Nat} (hs : s.PoolSplit low high) (fuel : Nat) (hfuel : high.length ≤ fuel) :
    (LRUCacheShard.maintainPoolSizeLoop fuel s).PoolWithin := by
  induction fuel generalizing s low high with
  | zero =>
    rw [List.eq_nil_of_length_eq_zero (Nat.le_zero.mp hfuel)] at hs
    exact hs.poolWithin_nil hcap
  | succ fuel ih =>
    unfold LRUCacheShard.maintainPoolSizeLoop
    split_ifs with hover
    · rw [hs.nextOf_lruLowPri hp.nodup]
      cases high with
      | nil => exact hs.poolWithin_nil hcap
      | cons x high =>
        exact ih (hp.overflowHighPri hs) hcap (hs.overflowHighPri hp) (by simpa using hfuel)
    · exact not_lt.mp hover

/-- **`MaintainPoolSize`** ends with the pool within its capacity. -/
theorem PoolOk.maintainPoolSize_within (hp : s.PoolOk) (hcap : 0 ≤ s.highPriPoolCapacity.val) :
    (LRUCacheShard.maintainPoolSize s).PoolWithin := by
  obtain ⟨low, high, hs⟩ := hp.split
  refine hp.maintainPoolSizeLoop_within hcap hs _ ?_
  rw [hs.lru_eq, List.length_append]
  omega

/-- `LRU_Insert`: a high-priority entry ends with `MaintainPoolSize`, so with the pool within
its capacity; a low-priority one adds nothing to the total. -/
theorem PoolOk.lruInsert_pool (hp : s.PoolOk) (he : e ∉ s.lru) (hlive : (s.heap.cells e).isSome)
    (hcap : 0 ≤ s.highPriPoolCapacity.val) :
    (s.lruInsert e).PoolWithin ∨ (s.lruInsert e).highPriPoolTotal = s.highPriPoolTotal := by
  unfold LRUCacheShard.lruInsert
  split_ifs
  · exact Or.inl ((hp.linkHighPri he hlive).maintainPoolSize_within hcap)
  · exact Or.inr (highPriPoolTotal_linkLowPri hp he hlive)

theorem highPriPoolCapacity_replaceOld (old : Option Nat) (pend : List Nat) :
    (s.replaceOld old pend).1.highPriPoolCapacity = s.highPriPoolCapacity :=
  congrArg Settings.highPriPoolCapacity (settings_replaceOld old pend)

/-! ### The calls

Each call ends with the pool within its capacity, or with its total no larger; the state after
the call, which `Inv` makes `PoolOk`, lets the frees at its end be read as keeping the total. -/

/-- The end of `Insert`'s path that keeps the entry, from `r`, the state and the entries to free
after `replaceOld`: with a handle the entry stays off the list, and without one `LRU_Insert`
ends within the pool's capacity or adds nothing. -/
theorem PoolOk.insertTail_pool {r : LRUCacheShard × List Nat} {n B : Nat} (hp : r.1.PoolOk)
    (hoff : n ∉ r.1.lru) (hlive : (r.1.heap.cells n).isSome) (hcap : 0 ≤ r.1.highPriPoolCapacity.val)
    (hB : r.1.highPriPoolTotal ≤ B) (withHandle : Bool) :
    ((if withHandle then r.1 else r.1.lruInsert n).freeAll r.2).PoolOk →
      ((if withHandle then r.1 else r.1.lruInsert n).freeAll r.2).PoolWithin ∨
        ((if withHandle then r.1 else r.1.lruInsert n).freeAll r.2).highPriPoolTotal ≤ B := by
  intro hF
  rw [highPriPoolTotal_freeAll hF]
  cases withHandle with
  | true => exact Or.inr hB
  | false => exact (hp.lruInsert_pool hoff hlive hcap).imp id fun h => h.trans_le hB

/-- `Insert`: eviction only takes from the pool, a dropped or refused entry never joins it, and
a kept one joins it through `LRU_Insert`. -/
theorem Inv.insert_pool (hinv : s.Inv hs []) (hcap : 0 ≤ s.highPriPoolCapacity.val)
    (key : List UInt8) (charge : UInt64) (withHandle : Bool) (priority : Cache.Priority) :
    (s.insert key charge withHandle priority).1.PoolOk →
      (s.insert key charge withHandle priority).1.PoolWithin ∨
        (s.insert key charge withHandle priority).1.highPriPoolTotal ≤ s.highPriPoolTotal := by
  have hev : (s.evictFromLRU charge).1.Inv hs (s.evictFromLRU charge).2 := hinv.evictLoop _ _
  have hle : (s.evictFromLRU charge).1.highPriPoolTotal ≤ s.highPriPoolTotal :=
    highPriPoolTotal_evictLoop_le _ _ _ _
  have hset : (s.evictFromLRU charge).1.settings = s.settings := settings_evictLoop _ _ _ _
  unfold LRUCacheShard.insert
  generalize s.evictFromLRU charge = p at hev hle hset ⊢
  obtain ⟨t, del⟩ := p
  dsimp only at hev hle hset ⊢
  have hcapt : 0 ≤ t.highPriPoolCapacity.val := by
    rw [show t.highPriPoolCapacity = s.highPriPoolCapacity from
      congrArg Settings.highPriPoolCapacity hset]
    exact hcap
  by_cases hfull : t.capacity < t.usage - t.lruUsage + charge ∧
      (t.strictCapacityLimit = true ∨ withHandle = false)
  · -- dropped or refused: the frees keep what eviction left
    rw [if_pos hfull]
    cases withHandle with
    | false =>
      intro hF
      exact Or.inr ((highPriPoolTotal_freeAll (s := { t with heap := (t.heap.alloc _).1 })
        hF).trans_le ((highPriPoolTotal_of_alloc (by rfl) (by rfl) hev.fresh.1).trans_le hle))
    | true =>
      intro hF
      exact Or.inr ((highPriPoolTotal_freeAll (s := t) hF).trans_le hle)
  · rw [if_neg hfull]
    obtain ⟨hi₁, hcn, hoff, -, -⟩ := hev.insertReplaced key
      { key, charge
        refs := if withHandle then 2 else 1
        inCache := true
        isHighPri := priority == .high
        inHighPriPool := false } withHandle
    -- the new record adds nothing, and `replaceOld` only takes from the pool
    exact PoolOk.insertTail_pool hi₁.toPoolOk hoff (by rw [hcn]; rfl)
      (by rw [highPriPoolCapacity_replaceOld]; exact hcapt)
      ((highPriPoolTotal_replaceOld_le _ _).trans
        ((highPriPoolTotal_of_alloc (by rfl) (by rfl) hev.fresh.1).trans_le hle)) withHandle

/-- `Lookup` only takes from the pool: a hit leaves the list if only the cache held it. -/
theorem highPriPoolTotal_lookup_le (key : List UInt8) :
    (s.lookup key).1.highPriPoolTotal ≤ s.highPriPoolTotal := by
  unfold lookup
  split
  · exact le_rfl
  · dsimp only
    rw [highPriPoolTotal_modify (fun h => { h with refs := h.refs + 1 }) fun _ => ⟨rfl, rfl⟩]
    exact highPriPoolTotal_ite_lruRemove_le _

theorem highPriPoolTotal_ref_le (e : Nat) : (s.ref e).1.highPriPoolTotal ≤ s.highPriPoolTotal := by
  unfold ref
  dsimp only
  rw [highPriPoolTotal_modify (fun h => { h with refs := h.refs + 1 }) fun _ => ⟨rfl, rfl⟩]
  exact highPriPoolTotal_ite_lruRemove_le _

/-- The end of `Release`, from the state `t` after the reference is dropped: only `LRU_Insert`
adds to the pool, and it ends within the pool's capacity or adds nothing. -/
theorem PoolOk.releaseTail_pool {t : LRUCacheShard} {B : Nat} (hp : t.PoolOk) (hoff : e ∉ t.lru)
    (hlive : (t.heap.cells e).isSome) (hcap : 0 ≤ t.highPriPoolCapacity.val)
    (hB : t.highPriPoolTotal ≤ B) (forceErase last : Bool) :
    (let r := if (t.handle e).refs = 1 ∧ (t.handle e).inCache then
          if t.capacity < t.usage ∨ forceErase then (t.dropFromCache e, true)
          else (t.lruInsert e, last)
        else (t, last);
      (if r.2 then r.1.free e else r.1).PoolOk →
        (if r.2 then r.1.free e else r.1).PoolWithin ∨
          (if r.2 then r.1.free e else r.1).highPriPoolTotal ≤ B) := by
  dsimp only
  have hins := hp.lruInsert_pool hoff hlive hcap
  by_cases hA : (t.handle e).refs = 1 ∧ (t.handle e).inCache = true
  · rw [if_pos hA]
    by_cases hB' : t.capacity < t.usage ∨ forceErase = true
    · -- over capacity, or forced: the entry leaves the cache and is freed
      simp only [if_pos hB', ↓reduceIte]
      intro hF
      exact Or.inr (((highPriPoolTotal_free hF).trans highPriPoolTotal_dropFromCache).trans_le hB)
    · -- the entry goes on the list
      simp only [if_neg hB']
      cases last with
      | false =>
        simp only [Bool.false_eq_true, ↓reduceIte]
        exact fun _ => hins.imp id fun h => h.trans_le hB
      | true =>
        simp only [↓reduceIte]
        exact fun hF => hins.imp id fun h => ((highPriPoolTotal_free hF).trans h).trans_le hB
  · -- callers still hold it: it stays off the list
    rw [if_neg hA]
    cases last with
    | false =>
      simp only [Bool.false_eq_true, ↓reduceIte]
      exact fun _ => Or.inr hB
    | true =>
      simp only [↓reduceIte]
      exact fun hF => Or.inr ((highPriPoolTotal_free hF).trans_le hB)

/-- `Release` of a handle the caller holds: the entry was off the list, and goes on it only
through `LRU_Insert`. -/
theorem Inv.release_pool (hinv : s.Inv hs []) (he : e ∈ hs) (hcap : 0 ≤ s.highPriPoolCapacity.val)
    (forceErase : Bool) :
    (s.release (some e) forceErase).1.PoolOk →
      (s.release (some e) forceErase).1.PoolWithin ∨
        (s.release (some e) forceErase).1.highPriPoolTotal ≤ s.highPriPoolTotal := by
  obtain ⟨h, hc⟩ := hinv.cells_of_mem_handles he
  obtain ⟨hrefs, -, hlru, -⟩ := (hinv.entry e).of_cells hc List.not_mem_nil
  -- a held entry is not on the list: the list holds the entries only the cache holds
  have hoff : e ∉ s.lru := fun hon => by
    have hheld := List.count_pos_iff.mpr he
    obtain ⟨hin, h1⟩ := hlru.mp hon
    simp only [hin, ↓reduceIte] at hrefs
    omega
  have hl₁ : (s.unref e).1.LruOk :=
    hinv.toLruOk.modify_of_not_mem (fun h => { h with refs := h.refs - 1 }) hoff
  have hlive : ((s.unref e).1.heap.cells e).isSome := by simp [hc]
  unfold LRUCacheShard.release
  dsimp only
  -- `usage_` is written when the handle held the last reference
  cases hl : (s.unref e).2 with
  | false =>
    simp only [Bool.false_eq_true, ↓reduceIte]
    exact PoolOk.releaseTail_pool (t := (s.unref e).1) hl₁.toPoolOk hoff hlive hcap
      highPriPoolTotal_unref.le forceErase false
  | true =>
    simp only [↓reduceIte]
    exact PoolOk.releaseTail_pool (t := { (s.unref e).1 with
        usage := (s.unref e).1.usage - ((s.unref e).1.handle e).charge })
      (LruOk.toPoolOk (hl₁.congr_cells rfl rfl rfl rfl fun _ _ => rfl)) hoff hlive hcap
      highPriPoolTotal_unref.le forceErase true

/-- `Erase` only takes from the pool: the entry leaves the list if only the cache held it. -/
theorem highPriPoolTotal_erase_le (key : List UInt8) :
    (s.erase key).PoolOk → (s.erase key).highPriPoolTotal ≤ s.highPriPoolTotal := by
  unfold LRUCacheShard.erase
  split
  · exact fun _ => le_rfl
  · rename_i x _
    dsimp only
    -- on the last reference the entry is freed, and leaves the list if it was in the cache
    cases hl : (({ s with table := s.table.erase key } : LRUCacheShard).unref x).2 with
    | false =>
      simp only [Bool.false_eq_true, false_and, ↓reduceIte]
      exact fun _ => by
        simp only [highPriPoolTotal_setInCache, highPriPoolTotal_unref, highPriPoolTotal_setTable,
          le_refl]
    | true =>
      simp only [true_and, ↓reduceIte]
      intro hF
      rw [highPriPoolTotal_free hF, highPriPoolTotal_setInCache]
      exact (highPriPoolTotal_ite_lruRemove_le _).trans
        (highPriPoolTotal_unref (s := { s with table := s.table.erase key }) (e := x)).le

theorem highPriPoolTotal_eraseUnRefEntries_le :
    s.eraseUnRefEntries.PoolOk → s.eraseUnRefEntries.highPriPoolTotal ≤ s.highPriPoolTotal := by
  unfold eraseUnRefEntries
  dsimp only
  intro hF
  exact (highPriPoolTotal_freeAll hF).trans_le (highPriPoolTotal_evictLoop_le _ _ _ _)

/-- `SetHighPriorityPoolRatio` ends with `MaintainPoolSize`, under the new capacity. -/
theorem LruOk.setHighPriorityPoolRatio_within (hl : s.LruOk) {ratio : Double} (hr : 0 ≤ ratio.val) :
    (s.setHighPriorityPoolRatio ratio).PoolWithin := by
  unfold LRUCacheShard.setHighPriorityPoolRatio
  refine PoolOk.maintainPoolSize_within ?_ ?_
  · exact LruOk.toPoolOk (hl.congr_cells rfl rfl rfl rfl fun _ _ => rfl)
  · exact BinaryFloat.Value.val_mul_nonneg (BinaryFloat.Value.ofNat_nonneg _) hr

/-- The pool's ratio and capacity are not negative. -/
def Settings.PoolNonneg (st : Settings) : Prop :=
  0 ≤ st.highPriPoolRatio.val ∧ 0 ≤ st.highPriPoolCapacity.val

end LRUCacheShard

namespace ShardState

open LRUCacheShard

/-- Every valid call keeps the pool's ratio and capacity non-negative: a ratio a caller may set
is in `[0, 1]`, and the pool's capacity is the shard's capacity times the ratio. -/
theorem poolNonneg_apply {w : ShardState} (hw : w.shard.settings.PoolNonneg) {op : ShardOp}
    (hv : w.Valid op) : (w.apply op).shard.settings.PoolNonneg := by
  cases op with
  | insert key charge withHandle priority =>
    show (w.shard.insert key charge withHandle priority).1.settings.PoolNonneg
    rw [settings_insert]
    exact hw
  | lookup key =>
    show (w.shard.lookup key).1.settings.PoolNonneg
    rw [settings_lookup]
    exact hw
  | ref e =>
    show (w.shard.ref e).1.settings.PoolNonneg
    rw [settings_ref]
    exact hw
  | release e forceErase =>
    show (w.shard.release (some e) forceErase).1.settings.PoolNonneg
    rw [settings_release]
    exact hw
  | erase key =>
    show (w.shard.erase key).settings.PoolNonneg
    rw [settings_erase]
    exact hw
  | setCapacity capacity =>
    show (w.shard.setCapacity capacity).settings.PoolNonneg
    rw [settings_setCapacity]
    exact ⟨hw.1, BinaryFloat.Value.val_mul_nonneg (BinaryFloat.Value.ofNat_nonneg _) hw.1⟩
  | setHighPriorityPoolRatio ratio =>
    show (w.shard.setHighPriorityPoolRatio ratio).settings.PoolNonneg
    rw [settings_setHighPriorityPoolRatio]
    exact ⟨hv.1, BinaryFloat.Value.val_mul_nonneg (BinaryFloat.Value.ofNat_nonneg _) hv.1⟩
  | setStrictCapacityLimit b => exact hw
  | eraseUnRefEntries =>
    show w.shard.eraseUnRefEntries.settings.PoolNonneg
    rw [settings_eraseUnRefEntries]
    exact hw

theorem FitReachable.poolNonneg {w : ShardState} (hw : w.FitReachable) :
    w.shard.settings.PoolNonneg := by
  induction hw with
  | create => exact ⟨le_rfl, le_rfl⟩
  | step _ hv _ ih => exact poolNonneg_apply ih hv

/-- **A call and the pool**: every valid call but `SetCapacity` ends with the pool within its
capacity, or with the pool's total no larger and the same capacity. -/
theorem apply_pool {w : ShardState} (hw : w.shard.Inv w.handles [])
    (hcap : 0 ≤ w.shard.highPriPoolCapacity.val) {op : ShardOp} (hv : w.Valid op)
    (hfit : w.RefsFit op) (hop : ∀ c, op ≠ .setCapacity c) :
    (w.apply op).shard.PoolWithin ∨
      ((w.apply op).shard.highPriPoolTotal ≤ w.shard.highPriPoolTotal ∧
        (w.apply op).shard.highPriPoolCapacity = w.shard.highPriPoolCapacity) := by
  have hF := (inv_apply hw hv hfit).toPoolOk
  cases op with
  | insert key charge withHandle priority =>
    exact (hw.insert_pool hcap key charge withHandle priority hF).imp_right fun h =>
      ⟨h, congrArg Settings.highPriPoolCapacity (settings_insert key charge withHandle priority)⟩
  | lookup key =>
    exact Or.inr ⟨highPriPoolTotal_lookup_le key,
      congrArg Settings.highPriPoolCapacity (settings_lookup key)⟩
  | ref e =>
    exact Or.inr ⟨highPriPoolTotal_ref_le e, congrArg Settings.highPriPoolCapacity (settings_ref e)⟩
  | release e forceErase =>
    exact (hw.release_pool hv hcap forceErase hF).imp_right fun h =>
      ⟨h, congrArg Settings.highPriPoolCapacity (settings_release (some e) forceErase)⟩
  | erase key =>
    exact Or.inr ⟨highPriPoolTotal_erase_le key hF,
      congrArg Settings.highPriPoolCapacity (settings_erase key)⟩
  | setCapacity capacity => exact absurd rfl (hop capacity)
  | setHighPriorityPoolRatio ratio =>
    exact Or.inl (hw.toLruOk.setHighPriorityPoolRatio_within hv.1)
  | setStrictCapacityLimit b => exact Or.inr ⟨le_rfl, rfl⟩
  | eraseUnRefEntries =>
    exact Or.inr ⟨highPriPoolTotal_eraseUnRefEntries_le hF,
      congrArg Settings.highPriPoolCapacity settings_eraseUnRefEntries⟩

/-- **The high-priority pool stays within its capacity.** From a reachable state whose pool is
within its capacity, every valid call but `SetCapacity` ends with the pool within its capacity,
while the live entries' charges fit in 64 bits. -/
theorem apply_poolWithin {w : ShardState} (hw : w.FitReachable) {op : ShardOp} (hv : w.Valid op)
    (hfit : w.RefsFit op) (hop : ∀ c, op ≠ .setCapacity c) (hN : w.shard.chargeTotal < 2 ^ 64)
    (hpool : w.shard.PoolWithin) : (w.apply op).shard.PoolWithin := by
  have hinv := hw.inv
  rcases apply_pool hinv hw.poolNonneg.2 hv hfit hop with hwithin | ⟨hle, hcap⟩
  · exact hwithin
  · -- the total only fell, and the word holds it at both ends of the call
    have hp := hinv.toPoolOk
    have hN₀ : w.shard.highPriPoolTotal < 2 ^ 64 :=
      (hp.highPriPoolTotal_le hinv.heap_wf).trans_lt hN
    have h₀ := hp.toNat_highPriPoolUsage hN₀
    have h₁ := (hw.step hv hfit).inv.toPoolOk.toNat_highPriPoolUsage (hle.trans_lt hN₀)
    unfold PoolWithin at hpool ⊢
    rw [h₁, hcap]
    rw [h₀] at hpool
    exact (BinaryFloat.Value.ofNat_mono hle).trans hpool

/-- What eviction and the capacities come to at a state of the shard: what `EvictFromLRU`
evicts and when it stops, what `Insert` under the strict limit does to `usage_`, and that the
calls keep the high-priority pool within its capacity. -/
structure CapacityBounds (w : ShardState) : Prop where
  /-- `EvictFromLRU` evicts a prefix of the list, oldest first. -/
  evict_prefix : ∀ charge : UInt64,
    (w.shard.evictFromLRU charge).2 ++ (w.shard.evictFromLRU charge).1.lru = w.shard.lru
  /-- It evicts only entries that the cache alone holds. -/
  evict_unpinned : ∀ charge : UInt64, ∀ x ∈ (w.shard.evictFromLRU charge).2,
    ∃ h, w.shard.heap.cells x = some h ∧ h.inCache = true ∧ h.refs = 1
  /-- It evicts the low-priority pool first. -/
  evict_lowPri_first : ∀ charge : UInt64, ∀ x ∈ (w.shard.evictFromLRU charge).2,
    (w.shard.handle x).inHighPriPool = true → ∀ y ∈ w.shard.lru,
      (w.shard.handle y).inHighPriPool = false → y ∈ (w.shard.evictFromLRU charge).2
  /-- It stops once the charge fits, or when the list is empty. -/
  evict_stop : ∀ charge : UInt64, (w.shard.evictFromLRU charge).1.lru = [] ∨
    (w.shard.evictFromLRU charge).1.usage + charge ≤ (w.shard.evictFromLRU charge).1.capacity
  /-- Under the strict limit `Insert` never takes `usage_` over both the capacity and what it
  was, and one that admits its entry leaves `usage_` within the capacity. -/
  insert_usage : ∀ (key : List UInt8) (charge : UInt64) (withHandle : Bool)
    (priority : Cache.Priority), w.shard.strictCapacityLimit = true →
      w.shard.chargeTotal + charge.toNat < 2 ^ 64 →
      (w.shard.insert key charge withHandle priority).1.usage.toNat ≤
          max w.shard.usage.toNat w.shard.capacity.toNat ∧
        ((w.shard.insert key charge withHandle priority).1.table.lookup key =
            some w.shard.heap.next →
          (w.shard.insert key charge withHandle priority).1.usage ≤ w.shard.capacity)
  /-- No valid call but `SetCapacity` takes the high-priority pool over its capacity. -/
  pool_within : ∀ op : ShardOp, w.Valid op → w.RefsFit op → (∀ c, op ≠ .setCapacity c) →
    w.shard.chargeTotal < 2 ^ 64 → w.shard.PoolWithin → (w.apply op).shard.PoolWithin

end ShardState

end RocksDB
