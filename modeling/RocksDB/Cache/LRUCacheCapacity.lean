import RocksDB.Cache.LRUCacheRun
import RocksDB.Lib.WordSum

/-!
# Eviction and the capacity

What the shard keeps of its capacity:

* only the setters write the settings (`settings_insert` and the lemmas beside it);
* `EvictFromLRU` evicts a prefix of the list, oldest first, and stops only when the charge
  fits or the list is empty (`evictFromLRU_spec`); the entries it evicts are held by the cache
  alone, the low-priority pool's first (`Inv.evictFromLRU_order`);
* under the strict limit an `Insert` that admits its entry ends within the capacity, and none
  takes `usage_` over both the capacity and what it was (`Inv.insert_usage_le`).

The counters are 64-bit words; the statements read them as numbers, which they are while the
charges of the live entries sum below `2^64` (`chargeTotal`). The high-priority pool's bound is
in `LRUCachePool`.
-/

namespace RocksDB

namespace LRUCacheShard

variable {s : LRUCacheShard} {hs pend : List Nat} {e : Nat}

/-! ### The settings

Only the setters write the capacity, the strict limit and the pool's ratio and capacity. -/

/-- The fields only the setters write. -/
structure Settings where
  capacity : UInt64
  strictCapacityLimit : Bool
  highPriPoolRatio : Double
  highPriPoolCapacity : Double

/-- The shard's settings. -/
def settings (s : LRUCacheShard) : Settings :=
  ⟨s.capacity, s.strictCapacityLimit, s.highPriPoolRatio, s.highPriPoolCapacity⟩

@[simp] theorem settings_modify (f : LRUHandle → LRUHandle) :
    (s.modify e f).settings = s.settings := rfl
@[simp] theorem settings_lruRemove : (s.lruRemove e).settings = s.settings := by
  unfold lruRemove; dsimp only; split <;> rfl
@[simp] theorem settings_dropFromCache : (s.dropFromCache e).settings = s.settings := rfl
@[simp] theorem settings_evictOldest : (s.evictOldest e).settings = s.settings := by
  simp [evictOldest]
@[simp] theorem settings_free : (s.free e).settings = s.settings := rfl
@[simp] theorem settings_freeAll (es : List Nat) : (s.freeAll es).settings = s.settings := rfl
@[simp] theorem settings_overflowHighPri : (s.overflowHighPri e).settings = s.settings := rfl
@[simp] theorem settings_unref : (s.unref e).1.settings = s.settings := rfl
@[simp] theorem settings_setInCache (b : Bool) : (s.setInCache e b).settings = s.settings := rfl
@[simp] theorem settings_setUsage (u : UInt64) :
    ({ s with usage := u } : LRUCacheShard).settings = s.settings := rfl
@[simp] theorem settings_setTable (t : AList fun _ : List UInt8 => Nat) :
    ({ s with table := t } : LRUCacheShard).settings = s.settings := rfl

theorem settings_maintainPoolSizeLoop (fuel : Nat) (s : LRUCacheShard) :
    (maintainPoolSizeLoop fuel s).settings = s.settings :=
  maintainPoolSizeLoop_induction (fun t => t.settings = s.settings)
    (fun _ _ _ h => settings_overflowHighPri.trans h) fuel s rfl

@[simp] theorem settings_lruInsert : (s.lruInsert e).settings = s.settings := by
  unfold lruInsert
  split_ifs
  · exact settings_maintainPoolSizeLoop _ _
  · rfl

theorem settings_evictLoop (cond : LRUCacheShard → Bool) (fuel : Nat) (s : LRUCacheShard)
    (del : List Nat) : (evictLoop cond fuel s del).1.settings = s.settings :=
  evictLoop_induction (fun t _ => t.settings = s.settings)
    (fun _ _ _ _ _ h => settings_evictOldest.trans h) cond fuel s del rfl

theorem settings_replaceOld (old : Option Nat) (pend : List Nat) :
    (s.replaceOld old pend).1.settings = s.settings := by
  cases old with
  | none => rfl
  | some o =>
    dsimp only [replaceOld]
    split
    · rw [settings_lruRemove]; rfl
    · rfl

/-- `Insert` writes none of the settings. -/
theorem settings_insert (key : List UInt8) (charge : UInt64) (withHandle : Bool)
    (priority : Cache.Priority) :
    (s.insert key charge withHandle priority).1.settings = s.settings := by
  have hset : (s.evictFromLRU charge).1.settings = s.settings := settings_evictLoop _ _ _ _
  unfold insert
  generalize s.evictFromLRU charge = p at hset ⊢
  obtain ⟨t, del⟩ := p
  dsimp only at hset ⊢
  by_cases hfull : t.capacity < t.usage - t.lruUsage + charge ∧
      (t.strictCapacityLimit = true ∨ withHandle = false)
  · -- dropped or refused: the frees keep what eviction left
    rw [if_pos hfull]
    cases withHandle <;> exact hset
  · rw [if_neg hfull]
    dsimp only
    cases withHandle
    · rw [if_neg Bool.false_ne_true, settings_freeAll, settings_lruInsert, settings_replaceOld]
      exact hset
    · rw [if_pos rfl, settings_freeAll, settings_replaceOld]
      exact hset

theorem settings_lookup (key : List UInt8) : (s.lookup key).1.settings = s.settings := by
  unfold lookup
  split
  · rfl
  · split_ifs <;> simp only [settings_modify, settings_lruRemove]

theorem settings_ref (e : Nat) : (s.ref e).1.settings = s.settings := by
  unfold ref
  split_ifs <;> simp only [settings_modify, settings_lruRemove]

theorem settings_release (e : Option Nat) (forceErase : Bool) :
    (s.release e forceErase).1.settings = s.settings := by
  unfold release
  split
  · rfl
  · dsimp only
    split_ifs <;> simp only [settings_free, settings_lruInsert, settings_dropFromCache,
      settings_setUsage, settings_unref]

theorem settings_erase (key : List UInt8) : (s.erase key).settings = s.settings := by
  unfold erase
  split
  · rfl
  · dsimp only
    split_ifs <;> simp only [settings_free, settings_setInCache, settings_lruRemove,
      settings_setUsage, settings_unref, settings_setTable]

theorem settings_eraseUnRefEntries : s.eraseUnRefEntries.settings = s.settings :=
  settings_evictLoop _ _ _ _

theorem settings_setCapacity (capacity : UInt64) :
    (s.setCapacity capacity).settings = { s.settings with
      capacity
      highPriPoolCapacity := BinaryFloat.Value.ofNat capacity.toNat * s.highPriPoolRatio } :=
  settings_evictLoop _ _ _ _

theorem settings_setHighPriorityPoolRatio (ratio : Double) :
    (s.setHighPriorityPoolRatio ratio).settings = { s.settings with
      highPriPoolRatio := ratio
      highPriPoolCapacity := BinaryFloat.Value.ofNat s.capacity.toNat * ratio } :=
  settings_maintainPoolSizeLoop _ _

/-! ### `EvictFromLRU` -/

/-- A round of eviction takes `lru_.next`, the list's oldest entry, off the list. -/
theorem lru_evictOldest {rest : List Nat} (hlru : s.lru = e :: rest) :
    (s.evictOldest e).lru = rest := by
  simp [evictOldest, hlru]

@[simp] theorem next_evictOldest : (s.evictOldest e).heap.next = s.heap.next := by
  simp [evictOldest]

/-- The eviction loop takes entries from the front of the list, in order, while `cond`
holds, and stops only when `cond` fails or the list is empty; the list's length is fuel
enough. -/
theorem evictLoop_spec (cond : LRUCacheShard → Bool) (fuel : Nat) (s : LRUCacheShard)
    (del : List Nat) (hfuel : s.lru.length ≤ fuel) :
    ∃ ev, (evictLoop cond fuel s del).2 = del ++ ev ∧
      ev ++ (evictLoop cond fuel s del).1.lru = s.lru ∧
      ((evictLoop cond fuel s del).1.lru = [] ∨ cond (evictLoop cond fuel s del).1 = false) := by
  induction fuel generalizing s del with
  | zero =>
    -- no fuel is left only for an empty list
    exact ⟨[], by simp [evictLoop], by simp [evictLoop],
      Or.inl (List.eq_nil_of_length_eq_zero (Nat.le_zero.mp hfuel))⟩
  | succ fuel ih =>
    unfold evictLoop
    split
    · rename_i hnil
      exact ⟨[], by simp, by simp, Or.inl hnil⟩
    · rename_i old rest hlru
      split_ifs with hc
      · have hlen : (s.evictOldest old).lru.length ≤ fuel := by
          rw [lru_evictOldest hlru]
          simp only [hlru, List.length_cons] at hfuel
          omega
        obtain ⟨ev, h₁, h₂, h₃⟩ := ih (s.evictOldest old) (del ++ [old]) hlen
        refine ⟨old :: ev, by simp [h₁], ?_, h₃⟩
        rw [List.cons_append, h₂, lru_evictOldest hlru, hlru]
      · exact ⟨[], by simp, by simp, Or.inr (by simpa using hc)⟩

theorem next_evictLoop (cond : LRUCacheShard → Bool) (fuel : Nat) (s : LRUCacheShard)
    (del : List Nat) : (evictLoop cond fuel s del).1.heap.next = s.heap.next :=
  evictLoop_induction (fun t _ => t.heap.next = s.heap.next)
    (fun _ _ _ _ _ h => next_evictOldest.trans h) cond fuel s del rfl

/-- **`EvictFromLRU`** evicts a prefix of the list, in order, and stops only once `charge`
fits in the capacity or the list is empty. -/
theorem evictFromLRU_spec (s : LRUCacheShard) (charge : UInt64) :
    (s.evictFromLRU charge).2 ++ (s.evictFromLRU charge).1.lru = s.lru ∧
      ((s.evictFromLRU charge).1.lru = [] ∨
        (s.evictFromLRU charge).1.usage + charge ≤ (s.evictFromLRU charge).1.capacity) := by
  obtain ⟨ev, h₁, h₂, h₃⟩ := evictLoop_spec (fun s => decide (s.capacity < s.usage + charge))
    s.lru.length s [] le_rfl
  unfold evictFromLRU
  refine ⟨by rw [h₁, List.nil_append, h₂], h₃.imp id fun hc => ?_⟩
  simpa using hc


/-- **`EvictFromLRU` on a shard with its invariant** evicts only entries that the cache alone
holds, and the low-priority pool first: an entry of the high-priority pool goes only after
every entry of the list outside it. -/
theorem Inv.evictFromLRU_order (hinv : s.Inv hs []) (charge : UInt64) :
    (∀ x ∈ (s.evictFromLRU charge).2,
        ∃ h, s.heap.cells x = some h ∧ h.inCache = true ∧ h.refs = 1) ∧
      ∀ x ∈ (s.evictFromLRU charge).2, (s.handle x).inHighPriPool = true →
        ∀ y ∈ s.lru, (s.handle y).inHighPriPool = false → y ∈ (s.evictFromLRU charge).2 := by
  have hpre := (evictFromLRU_spec s charge).1
  have hmem : ∀ x ∈ (s.evictFromLRU charge).2, x ∈ s.lru := fun x hx => by
    rw [← hpre]
    exact List.mem_append_left _ hx
  refine ⟨fun x hx => ?_, fun x hx hflag y hy hyflag => ?_⟩
  · obtain ⟨h, hc, hin, h1, -⟩ := hinv.of_mem_lru (hmem x hx)
    exact ⟨h, hc, hin, refs_eq_one_iff.mpr h1⟩
  · -- the list is the low-priority pool, then the flagged entries
    obtain ⟨low, high, hs⟩ := hinv.split
    have hdisj := (List.nodup_append.mp (hs.lru_eq ▸ hinv.nodup)).2.2
    have hxh : x ∈ high := (hs.inHighPriPool_iff x (hmem x hx)).mp hflag
    have hyh : y ∉ high := fun h => by
      simp [(hs.inHighPriPool_iff y hy).mpr h] at hyflag
    have hyl : y ∈ low := by
      rw [hs.lru_eq] at hy
      exact (List.mem_append.mp hy).resolve_right hyh
    exact List.subset_of_prefix_append (hpre.trans hs.lru_eq)
      (fun a ha hb => hdisj a ha a hb rfl) hx hxh y hyl

/-! ### The counters as numbers -/

/-- The charges of the live entries, summed as numbers. -/
def chargeTotal (s : LRUCacheShard) : Nat := s.heap.total fun h => h.charge.toNat

theorem toNat_chargeOf (s : LRUCacheShard) (x : Nat) :
    (s.chargeOf x).toNat = ((s.heap.cells x).map fun h => h.charge.toNat).getD 0 := by
  unfold chargeOf handle
  cases s.heap.cells x <;> rfl

/-- The charges of distinct live entries sum to at most the total. -/
theorem sum_chargeOf_le (hwf : s.heap.WF) {l : List Nat} (hl : l.Nodup)
    (hlive : ∀ x ∈ l, (s.heap.cells x).isSome) :
    (l.map fun x => (s.chargeOf x).toNat).sum ≤ s.chargeTotal := by
  simp only [toNat_chargeOf]
  exact Heap.sum_le_total hwf _ hl hlive

/-- A counter that sums the charges of distinct live entries holds their sum, while the
total stays below `2^64`. -/
theorem toNat_sum_chargeOf (hwf : s.heap.WF) {l : List Nat} (hl : l.Nodup)
    (hlive : ∀ x ∈ l, (s.heap.cells x).isSome) (hN : s.chargeTotal < 2 ^ 64) :
    (l.map s.chargeOf).sum.toNat = (l.map fun x => (s.chargeOf x).toNat).sum := by
  rw [UInt64.toNat_list_sum_of_lt] <;> rw [List.map_map]
  · rfl
  · exact lt_of_le_of_lt (sum_chargeOf_le hwf hl hlive) hN

theorem Inv.live_of_mem_pending (hinv : s.Inv hs pend) {x : Nat} (hx : x ∈ pend) :
    (s.heap.cells x).isSome :=
  Option.isSome_iff_ne_none.mpr fun hnone => ((hinv.entry x).of_none hnone).2 hx

/-- `usage_` as a number: the charges of the live entries but the pending ones. -/
theorem Inv.toNat_usage (hinv : s.Inv hs pend) (hN : s.chargeTotal < 2 ^ 64) :
    s.usage.toNat + (pend.map fun x => (s.chargeOf x).toNat).sum = s.chargeTotal := by
  have hlive : ∀ x ∈ pend, (s.heap.cells x).isSome := fun x hx => hinv.live_of_mem_pending hx
  have hP := sum_chargeOf_le hinv.heap_wf hinv.pending_nodup hlive
  have htotal : (s.heap.total LRUHandle.charge).toNat = s.chargeTotal := by
    rw [Heap.total_toNat]
    exact Nat.mod_eq_of_lt hN
  have heq := congrArg UInt64.toNat hinv.usage_eq
  rw [UInt64.toNat_add, toNat_sum_chargeOf hinv.heap_wf hinv.pending_nodup hlive hN,
    htotal] at heq
  have hu := s.usage.toNat_lt
  omega

@[simp] theorem chargeTotal_evictOldest : (s.evictOldest e).chargeTotal = s.chargeTotal := by
  simp only [chargeTotal, evictOldest, heap_dropFromCache, heap_lruRemove]
  -- the two writes keep every charge
  rw [Heap.total_modify, Heap.total_modify] <;> intros <;> rfl

theorem chargeTotal_evictLoop (cond : LRUCacheShard → Bool) (fuel : Nat) (s : LRUCacheShard)
    (del : List Nat) : (evictLoop cond fuel s del).1.chargeTotal = s.chargeTotal :=
  evictLoop_induction (fun t _ => t.chargeTotal = s.chargeTotal)
    (fun _ _ _ _ _ h => chargeTotal_evictOldest.trans h) cond fuel s del rfl


/-! ### `Insert` under the strict limit -/

/-- `replaceOld` takes at most the old entry's charge off `usage_`. -/
theorem usage_replaceOld_le {old : Option Nat} (hold : ∀ o ∈ old, s.chargeOf o ≤ s.usage)
    (pend : List Nat) : (s.replaceOld old pend).1.usage.toNat ≤ s.usage.toNat := by
  cases old with
  | none => exact le_rfl
  | some o =>
    have ho := hold o rfl
    have hcharge : ((s.setInCache o false).unref o).1.chargeOf o = s.chargeOf o := by
      rw [unref_fst, chargeOf_modify (fun h => { h with refs := h.refs - 1 }) fun _ => rfl,
        setInCache_eq, chargeOf_modify (fun h => { h with inCache := false }) fun _ => rfl]
    dsimp only [replaceOld]
    split
    · -- the last reference: the old entry's charge leaves `usage_`
      rw [usage_lruRemove]
      show (((s.setInCache o false).unref o).1.usage - ((s.setInCache o false).unref o).1.chargeOf
        o).toNat ≤ _
      rw [hcharge, unref_fst, setInCache_eq, usage_modify, usage_modify,
        UInt64.toNat_sub_of_le _ _ ho]
      omega
    · exact le_rfl

/-- The path of `Insert` that keeps the entry raises `usage_` by the entry's charge at most. -/
theorem Inv.usage_insertKept_le {t : LRUCacheShard} {del : List Nat} (hinv : t.Inv hs del)
    (key : List UInt8) (h : LRUHandle) (withHandle : Bool) (hN : t.chargeTotal < 2 ^ 64)
    (hnowrap : t.usage.toNat + h.charge.toNat < 2 ^ 64) :
    (let s₁ : LRUCacheShard := { t with
          heap := (t.heap.alloc h).1
          table := t.table.insert key t.heap.next
          usage := t.usage + h.charge }
      let r := s₁.replaceOld (t.table.lookup key) del
      (if withHandle then r.1 else r.1.lruInsert t.heap.next).freeAll r.2).usage.toNat ≤
      t.usage.toNat + h.charge.toNat := by
  dsimp only
  have hadd : (t.usage + h.charge).toNat = t.usage.toNat + h.charge.toNat := by
    rw [UInt64.toNat_add, Nat.mod_eq_of_lt hnowrap]
  -- `LRU_Insert` and the frees leave `usage_` as `replaceOld` left it
  have hfin : ∀ r : LRUCacheShard × List Nat,
      ((if withHandle then r.1 else r.1.lruInsert t.heap.next).freeAll r.2).usage = r.1.usage := by
    intro r
    split_ifs
    · rfl
    · exact (listFrame_lruInsert _ _).usage
  rw [hfin, ← hadd]
  refine usage_replaceOld_le (fun o ho => ?_) del
  -- the entry that had the key is live and not evicted, so `usage_` counts its charge
  obtain ⟨ho', hc, -, -, hop⟩ := hinv.of_lookup ho
  have hne : o ≠ t.heap.next := (hinv.heap_wf.lt_next hc).ne
  have hsum := sum_chargeOf_le hinv.heap_wf (l := del ++ [o])
    (hinv.pending_nodup.append (List.nodup_singleton o) (by simpa using hop)) fun x hx => by
      rcases List.mem_append.mp hx with hx | hx
      · exact hinv.live_of_mem_pending hx
      · rw [List.mem_singleton.mp hx, hc]; rfl
  simp only [List.map_append, List.map_cons, List.map_nil, List.sum_append, List.sum_cons,
    List.sum_nil, add_zero] at hsum
  have hu := hinv.toNat_usage hN
  have hcharge : ({ t with heap := (t.heap.alloc h).1 } : LRUCacheShard).chargeOf o =
      t.chargeOf o := by
    simp only [chargeOf, handle, Heap.cells_alloc, if_neg hne]
  rw [UInt64.le_iff_toNat_le]
  show (({ t with heap := (t.heap.alloc h).1 } : LRUCacheShard).chargeOf o).toNat ≤
    (t.usage + h.charge).toNat
  rw [hcharge]
  omega

/-- **`Insert` under the strict limit** never takes `usage_` above both the capacity and
what it was, and when it admits the entry (the key names the new record) `usage_` ends
within the capacity. The charges of the live entries and the new one sum below `2^64`. -/
theorem Inv.insert_usage_le (hinv : s.Inv hs []) (hstrict : s.strictCapacityLimit = true)
    (key : List UInt8) {charge : UInt64} (withHandle : Bool) (priority : Cache.Priority)
    (hN : s.chargeTotal + charge.toNat < 2 ^ 64) :
    (s.insert key charge withHandle priority).1.usage.toNat ≤
        max s.usage.toNat s.capacity.toNat ∧
      ((s.insert key charge withHandle priority).1.table.lookup key = some s.heap.next →
        (s.insert key charge withHandle priority).1.usage ≤ s.capacity) := by
  have hev : (s.evictFromLRU charge).1.Inv hs (s.evictFromLRU charge).2 := hinv.evictLoop _ _
  have hstop := (evictFromLRU_spec s charge).2
  have hset : (s.evictFromLRU charge).1.settings = s.settings := settings_evictLoop _ _ _ _
  have hnext : (s.evictFromLRU charge).1.heap.next = s.heap.next := next_evictLoop _ _ _ _
  have htot : (s.evictFromLRU charge).1.chargeTotal = s.chargeTotal :=
    chargeTotal_evictLoop _ _ _ _
  have hs₀ := hinv.toNat_usage (by omega)
  simp only [List.map_nil, List.sum_nil, add_zero] at hs₀
  unfold LRUCacheShard.insert
  generalize s.evictFromLRU charge = p at hev hstop hset hnext htot ⊢
  obtain ⟨t, del⟩ := p
  dsimp only at hev hstop hset hnext htot ⊢
  rw [← hnext]
  -- eviction only lowers `usage_`: the evicted entries' charges are pending
  have ht := hev.toNat_usage (by omega)
  have hle : t.usage.toNat ≤ s.usage.toNat := by omega
  by_cases hfull : t.capacity < t.usage - t.lruUsage + charge ∧
      (t.strictCapacityLimit = true ∨ withHandle = false)
  · -- dropped or refused: `usage_` is as eviction left it, and no key names the next record
    rw [if_pos hfull]
    refine ⟨?_, fun hkept => absurd ?_ (hev.fresh.2.2.2 key)⟩
    · cases withHandle <;> exact le_trans hle (le_max_left _ _)
    · cases withHandle <;> exact hkept
  · rw [if_neg hfull]
    -- admitted: eviction stopped with room, or emptied the list and the test found room
    have hroom : t.usage + charge ≤ t.capacity := by
      rcases hstop with hnil | hfit
      · have h0 : t.lruUsage = 0 := by rw [hev.lruUsage_eq, hnil]; rfl
        have hstrict' : t.strictCapacityLimit = true :=
          (congrArg Settings.strictCapacityLimit hset).trans hstrict
        simpa [h0, hstrict'] using hfull
      · exact hfit
    have hwrap : t.usage.toNat + charge.toNat < 2 ^ 64 := by omega
    have hcap : t.capacity = s.capacity := congrArg Settings.capacity hset
    have hroomN : t.usage.toNat + charge.toNat ≤ s.capacity.toNat := by
      have h := UInt64.le_iff_toNat_le.mp hroom
      rwa [UInt64.toNat_add, Nat.mod_eq_of_lt hwrap, hcap] at h
    have hfin := hev.usage_insertKept_le key
      { key, charge
        refs := if withHandle then 2 else 1
        inCache := true
        isHighPri := priority == .high
        inHighPriPool := false } withHandle (by omega) hwrap
    exact ⟨le_trans hfin (le_max_of_le_right hroomN),
      fun _ => UInt64.le_iff_toNat_le.mpr (le_trans hfin hroomN)⟩

end LRUCacheShard

end RocksDB
