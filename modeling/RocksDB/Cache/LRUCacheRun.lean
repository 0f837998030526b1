import RocksDB.Cache.LRUCacheInvariant

/-!
# Every call keeps the shard's bookkeeping

The operations of `LRUCacheShard` that `LRUCacheInvariant` does not treat: `Release`,
`Insert`, `Erase`, the three setters and `EraseUnRefEntries`. Each keeps `Inv _ _ []`, for
the handles its callers hold after it; so every state a new shard reaches under valid calls
has the bookkeeping of `lruCacheShard_invariant`.
-/

namespace RocksDB

namespace LRUCacheShard

variable {s s' : LRUCacheShard} {hs pend : List Nat} {e : Nat}

/-! ### Operations on the list and the setters -/

/-- `MaintainPoolSize` keeps the list's invariant: it moves pool bits only. -/
theorem LruOk.maintainPoolSize (hl : s.LruOk) : (maintainPoolSize s).LruOk := by
  obtain ⟨hlru, husage, hf⟩ := maintainPoolSize_frame s
  refine ⟨hl.toPoolOk.maintainPoolSize, ?_⟩
  rw [husage, hl.lruUsage_eq, hlru]
  exact congrArg List.sum (List.map_congr_left fun x _ => (hf.chargeOf x).symm)

/-- A list operation that keeps which entries are on the list keeps `Inv`. -/
theorem Inv.listFrame (hinv : s.Inv hs pend) (hf : ListFrame s s') (hl : s'.LruOk)
    (hmem : ∀ x, x ∈ s'.lru ↔ x ∈ s.lru) : s'.Inv hs pend :=
  ((hinv.toInvBut []).listFrame hf hl fun x _ => hmem x).toInv

theorem Inv.setStrictCapacityLimit (hinv : s.Inv hs []) (b : Bool) :
    (s.setStrictCapacityLimit b).Inv hs [] :=
  hinv.congr rfl rfl rfl rfl rfl rfl rfl

/-- `SetHighPriorityPoolRatio`: the new pool capacity, then `MaintainPoolSize`. -/
theorem Inv.setHighPriorityPoolRatio (hinv : s.Inv hs []) (ratio : Double) :
    (s.setHighPriorityPoolRatio ratio).Inv hs [] := by
  set s₀ : LRUCacheShard :=
    { s with
      highPriPoolRatio := ratio
      highPriPoolCapacity := BinaryFloat.Value.ofNat s.capacity.toNat * ratio }
  have h₀ : s₀.Inv hs [] := hinv.congr rfl rfl rfl rfl rfl rfl rfl
  obtain ⟨hlru, -, hf⟩ := maintainPoolSize_frame s₀
  show (maintainPoolSize s₀).Inv hs []
  exact h₀.listFrame hf h₀.toLruOk.maintainPoolSize fun x => by rw [hlru]

/-- The eviction loop, then the frees of what it evicted. -/
theorem Inv.evictLoop_freeAll (hinv : s.Inv hs []) (cond : LRUCacheShard → Bool) (fuel : Nat) :
    ((LRUCacheShard.evictLoop cond fuel s []).1.freeAll
      (LRUCacheShard.evictLoop cond fuel s []).2).Inv hs [] :=
  (hinv.evictLoop cond fuel).freeAll

/-- `SetCapacity`: the new capacities, then eviction down to the capacity. -/
theorem Inv.setCapacity (hinv : s.Inv hs []) (capacity : UInt64) :
    (s.setCapacity capacity).Inv hs [] :=
  Inv.evictLoop_freeAll (s := { s with
      capacity
      highPriPoolCapacity := BinaryFloat.Value.ofNat capacity.toNat * s.highPriPoolRatio })
    (hinv.congr rfl rfl rfl rfl rfl rfl rfl) _ _

theorem Inv.eraseUnRefEntries (hinv : s.Inv hs []) : s.eraseUnRefEntries.Inv hs [] :=
  hinv.evictLoop_freeAll _ _

/-! ### `Erase` -/

/-- The path of `Erase` for the key's entry `e`, `Unref`'s answer left open: `last` says
that the callers hold no handle on `e`. -/
theorem Inv.eraseEntry (hinv : s.Inv hs []) {key : List UInt8} (hk : s.table.lookup key = some e)
    (last : Bool) (hlast : last = true ↔ hs.count e = 0) :
    (let s₁ := ({ s with table := s.table.erase key } : LRUCacheShard).modify e
        fun h => { h with refs := h.refs - 1 }
      let s₂ := if last then { s₁ with usage := s₁.usage - (s₁.handle e).charge } else s₁
      let s₃ := if last = true ∧ (s₂.handle e).inCache = true then s₂.lruRemove e else s₂
      let s₄ := s₃.setInCache e false
      if last then s₄.free e else s₄).Inv hs [] := by
  obtain ⟨h, hc, hkey, hin, -⟩ := hinv.of_lookup hk
  obtain ⟨hrefs, hpos, hlru, -⟩ := (hinv.entry e).of_cells hc List.not_mem_nil
  simp only [hin, if_true] at hrefs
  have hpred := refs_toNat_sub_one hpos
  have he : e ∈ [e] := List.mem_cons_self
  -- the key leaves the table, and the entry the cache's reference
  have hi₀ := (hinv.toInvBut [e]).eraseKey he hk
  have hi₁ := hi₀.unref he
  have htab : ∀ k, (s.table.erase key).lookup k ≠ some e := lookup_erase_ne_of_keys fun k hk =>
    ((hinv.lookup_eq_some_iff hc List.not_mem_nil k).mp hk).2.trans hkey
  cases last with
  | true =>
    -- the cache held the last reference: the entry was on the list, and is freed
    have hcount : hs.count e = 0 := hlast.mp rfl
    have hon : e ∈ s.lru := hlru.mpr ⟨hin, by omega⟩
    have hoff : e ∉ s.lru.erase e := hinv.nodup.not_mem_erase
    have hi₂ := (hi₁.retire he List.not_mem_nil).lruRemove he hon
    have hi₃ := hi₂.setInCache he false
    simp only [↓reduceIte, true_and]
    -- the entry is still in the cache, so the test before `LRU_Remove` holds
    split_ifs with hcond
    swap
    · exact absurd (by simp [LRUCacheShard.handle, hc, hin]) hcond
    exact (hi₃.closePending (by simp [hc]) List.mem_cons_self (by simpa using hoff)
      (List.count_eq_zero.mp hcount) (by simpa using htab)).free
  | false =>
    -- callers hold the entry still: it only leaves the cache
    have hcount : hs.count e ≠ 0 := fun h0 => Bool.false_ne_true (hlast.mpr h0)
    have hoff : e ∉ s.lru := fun hon => by have := (hlru.mp hon).2; omega
    have hi₂ := hi₁.setInCache he false
    simp only [Bool.false_eq_true, if_false, false_and]
    refine hi₂.closeLive (h := { h with refs := h.refs - 1, inCache := false })
      (by simp [hc]) List.not_mem_nil (by simp [hpred]; omega) (by simp [hpred]; omega)
      (by simpa using hoff) fun k => ?_
    simp only [setInCache_eq, table_modify, Bool.false_eq_true, false_and, iff_false]
    exact htab k

/-- **`Erase`** takes the key's entry out of the table and the cache. When the cache held
the last reference the entry was on the list, and leaves it to be freed; otherwise its
holders keep it. -/
theorem Inv.erase (hinv : s.Inv hs []) (key : List UInt8) : (s.erase key).Inv hs [] := by
  cases hk : s.table.lookup key with
  | none => simpa [LRUCacheShard.erase, hk] using hinv
  | some e =>
    obtain ⟨h, hc, -, hin, -⟩ := hinv.of_lookup hk
    obtain ⟨hrefs, hpos, -, -⟩ := (hinv.entry e).of_cells hc List.not_mem_nil
    simp only [hin, if_true] at hrefs
    have hh₁ : ((({ s with table := s.table.erase key } : LRUCacheShard).modify e
        fun h => { h with refs := h.refs - 1 }).handle e) = { h with refs := h.refs - 1 } :=
      handle_modify_of_cells _ hc
    simp only [LRUCacheShard.erase, hk, LRUCacheShard.unref]
    exact hinv.eraseEntry hk _
      (by rw [hh₁]; simp [refs_eq_zero_iff, refs_toNat_sub_one hpos]; omega)


/-- `LRU_Insert` of the exempt entry once only the cache holds it closes the invariant: the
entry is on the list with its one reference. -/
theorem InvBut.lruInsertLive {h : LRUHandle} (hi : s.InvBut hs pend [e])
    (hc : s.heap.cells e = some h) (hp : e ∉ pend) (hnot : e ∉ s.lru) (hin : h.inCache = true)
    (hrefs : h.refs.toNat = 1) (hcount : hs.count e = 0)
    (htab : ∀ k, s.table.lookup k = some e ↔ k = h.key) : (s.lruInsert e).Inv hs pend := by
  have hlive : (s.heap.cells e).isSome := by simp [hc]
  have hf := listFrame_lruInsert s e
  -- `LRU_Insert` only moves the entry into a pool
  obtain ⟨h', hc', hh'⟩ := hf.exists_cells hc
  obtain ⟨hkey, -, hrefs', hin'⟩ := LRUHandle.fields_eq_of_sansPool_eq hh'
  refine (hi.lruInsert List.mem_cons_self hnot hlive).closeLive hc' hp ?_ (by rw [hrefs']; omega) ?_
    fun k => ?_
  · simp [hin', hin, hrefs', hrefs, hcount]
  · simp [(hi.toLruOk.lruInsert hnot hlive).2 e, hin', hin, hrefs', hrefs]
  · rw [hf.table, htab, hkey, hin', hin]
    simp

/-- The end of `Release` when the handle held the last reference: the entry, already out of
the cache and pending, is freed. -/
theorem Inv.releaseLast {t : LRUCacheShard} (hinv : t.Inv hs [e]) (h0 : (t.handle e).refs = 0)
    (forceErase : Bool) :
    (let r := if (t.handle e).refs = 1 ∧ (t.handle e).inCache then
          if t.capacity < t.usage ∨ forceErase then (t.dropFromCache e, true)
          else (t.lruInsert e, true)
        else (t, true)
      if r.2 then r.1.free e else r.1).Inv hs [] := by
  simp only [h0]
  exact hinv.free

/-- The end of `Release` on an entry whose cell is `h` when others still hold it: if only the
cache does, the entry is erased (over capacity, or on `force_erase`) or goes on the list. -/
theorem InvBut.releaseTail {t : LRUCacheShard} {h : LRUHandle} (hi : t.InvBut hs [] [e])
    (hc : t.heap.cells e = some h) (hnot : e ∉ t.lru)
    (hrefs : h.refs.toNat = (if h.inCache then 1 else 0) + hs.count e) (hpos : 0 < h.refs.toNat)
    (htab : ∀ k, t.table.lookup k = some e ↔ h.inCache ∧ k = h.key) (forceErase : Bool) :
    (let r := if (t.handle e).refs = 1 ∧ (t.handle e).inCache then
          if t.capacity < t.usage ∨ forceErase then (t.dropFromCache e, true)
          else (t.lruInsert e, false)
        else (t, false)
      if r.2 then r.1.free e else r.1).Inv hs [] := by
  simp only [handle_eq_of_cells hc]
  by_cases hA : h.refs = 1 ∧ h.inCache = true
  · -- only the cache holds the entry now
    obtain ⟨h1, hin⟩ := hA
    have h1' : h.refs.toNat = 1 := refs_eq_one_iff.mp h1
    have hcount : hs.count e = 0 := by simp only [hin, if_true] at hrefs; omega
    by_cases hB : t.capacity < t.usage ∨ forceErase = true
    · simp only [h1, hin, and_self, if_true, if_pos hB]
      have hkey : t.table.lookup (t.handle e).key = some e := by
        rw [handle_eq_of_cells hc]; exact (htab _).mpr ⟨hin, rfl⟩
      have hi' := hi.dropFromCache List.mem_cons_self List.not_mem_nil hkey
      refine (hi'.closePending (by simp [hc]) List.mem_cons_self (by simpa using hnot)
        (List.count_eq_zero.mp hcount) fun k => ?_).free
      rw [table_dropFromCache, handle_eq_of_cells hc]
      exact lookup_erase_ne_of_keys (fun k hk => ((htab k).mp hk).2) k
    · simp only [h1, hin, and_self, if_true, if_neg hB, Bool.false_eq_true, if_false]
      exact hi.lruInsertLive hc List.not_mem_nil hnot hin h1' hcount fun k => by simp [htab, hin]
  · -- callers hold it still: it stays where it is
    simp only [if_neg hA, Bool.false_eq_true, if_false]
    exact hi.closeLive hc List.not_mem_nil hrefs hpos
      (by simp only [hnot, false_iff]; exact fun ⟨hin, h1⟩ => hA ⟨refs_eq_one_iff.mpr h1, hin⟩) htab

/-- The path of `Release` for a handle on `e`, `Unref`'s answer left open: `last` says that
the handle held the last reference. -/
theorem Inv.releaseEntry (hinv : s.Inv hs []) (he : e ∈ hs) (forceErase last : Bool)
    (hlast : last = true ↔ (s.handle e).refs = 1) :
    (let s₁ := s.modify e fun h => { h with refs := h.refs - 1 }
      let s₂ := if last then { s₁ with usage := s₁.usage - (s₁.handle e).charge } else s₁
      let r := if (s₂.handle e).refs = 1 ∧ (s₂.handle e).inCache then
          if s₂.capacity < s₂.usage ∨ forceErase then (s₂.dropFromCache e, true)
          else (s₂.lruInsert e, last)
        else (s₂, last)
      if r.2 then r.1.free e else r.1).Inv (hs.erase e) [] := by
  obtain ⟨h, hc⟩ := hinv.cells_of_mem_handles he
  obtain ⟨hrefs, hpos, hlru, -⟩ := (hinv.entry e).of_cells hc List.not_mem_nil
  have hheld : 0 < hs.count e := List.count_pos_iff.mpr he
  have hcount : (hs.erase e).count e = hs.count e - 1 := List.count_erase_self
  have hpred := refs_toNat_sub_one hpos
  have hmem : e ∈ [e] := List.mem_cons_self
  -- the caller's handle goes, and with it the entry's reference
  have hi₀ : s.InvBut (hs.erase e) [] [e] := (hinv.toInvBut [e]).handles fun x hx =>
    List.count_erase_of_ne (List.ne_of_not_mem_cons hx)
  have hi₁ := hi₀.unref hmem
  have hc₁ : (s.modify e fun h => { h with refs := h.refs - 1 }).heap.cells e =
      some { h with refs := h.refs - 1 } := by simp [hc]
  rw [handle_eq_of_cells hc] at hlast
  cases last with
  | true =>
    -- the handle held the last reference, so the entry had left the cache
    have h1 : h.refs = 1 := hlast.mp rfl
    have h1' : h.refs.toNat = 1 := refs_eq_one_iff.mp h1
    have hout : h.inCache = false := by
      cases hb : h.inCache with
      | false => rfl
      | true => simp only [hb, if_true] at hrefs; omega
    have htab : ∀ k, s.table.lookup k ≠ some e := fun k hk => by
      simpa [hout] using ((hinv.lookup_eq_some_iff hc List.not_mem_nil k).mp hk).1
    simp only [↓reduceIte]
    refine Inv.releaseLast ((hi₁.retire hmem List.not_mem_nil).closePending (by simp [hc])
      List.mem_cons_self (by simp [hlru, hout]) (List.count_eq_zero.mp (by omega))
      (by simpa using htab)) (by simp [LRUCacheShard.handle, hc, h1]) forceErase
  | false =>
    have h1 : h.refs.toNat ≠ 1 := fun h1 => Bool.false_ne_true (hlast.mpr (refs_eq_one_iff.mpr h1))
    simp only [Bool.false_eq_true, if_false]
    refine hi₁.releaseTail hc₁ (by simp [hlru, h1]) ?_ (by simp only [hpred]; omega) (fun k => ?_)
      forceErase
    · rw [hcount, hpred]
      cases hb : h.inCache <;> simp only [hb, Bool.false_eq_true, ↓reduceIte] at hrefs ⊢ <;> omega
    · rw [table_modify, hinv.lookup_eq_some_iff hc List.not_mem_nil]


/-- **`Release`** of a handle the caller holds: the handle goes, and an entry that only the
cache holds then goes on the list or out of the cache. -/
theorem Inv.release (hinv : s.Inv hs []) (he : e ∈ hs) (forceErase : Bool) :
    (s.release (some e) forceErase).1.Inv (hs.erase e) [] := by
  obtain ⟨h, hc⟩ := hinv.cells_of_mem_handles he
  obtain ⟨-, hpos, -, -⟩ := (hinv.entry e).of_cells hc List.not_mem_nil
  exact hinv.releaseEntry he forceErase _
    (by
      rw [handle_modify_of_cells _ hc, handle_eq_of_cells hc]
      simp [refs_eq_zero_iff, refs_eq_one_iff, refs_toNat_sub_one hpos]
      omega)


/-! ### `Insert` -/

/-- The heap's next address is no entry's: off the list, held by no caller, not pending, and
under no key of the table. -/
theorem Inv.fresh (hinv : s.Inv hs pend) : s.heap.next ∉ s.lru ∧ s.heap.next ∉ hs ∧
    s.heap.next ∉ pend ∧ ∀ k, s.table.lookup k ≠ some s.heap.next := by
  have hnone := hinv.heap_wf.fresh _ le_rfl
  obtain ⟨hh, hp⟩ := (hinv.entry _).of_none hnone
  refine ⟨fun hl => by simpa [hnone] using hinv.live _ hl, hh, hp, fun k hk => ?_⟩
  obtain ⟨h, hc, -⟩ := hinv.table_live k _ hk
  simp [hnone] at hc

/-- A record put at the next address is a new entry, exempt, whose charge `usage_` counts. -/
theorem Inv.alloc (hinv : s.Inv hs pend) (h : LRUHandle) :
    ({ s with heap := (s.heap.alloc h).1, usage := s.usage + h.charge } : LRUCacheShard).InvBut
      hs pend [s.heap.next] := by
  obtain ⟨hlru, -, hpend, -⟩ := hinv.fresh
  -- every entry but the new one keeps its cell
  have hcells : ∀ x, x ≠ s.heap.next → (s.heap.alloc h).1.cells x = s.heap.cells x :=
    fun x hx => by simp [hx]
  have hcharge : ∀ x ∈ pend, ({ s with heap := (s.heap.alloc h).1 } : LRUCacheShard).chargeOf x =
      s.chargeOf x := fun x hx => by
    simp only [chargeOf, handle, hcells x (ne_of_mem_of_not_mem hx hpend)]
  refine ⟨hinv.congr_cells rfl rfl rfl rfl fun x hx => hcells x (ne_of_mem_of_not_mem hx hlru),
    fun k x hx hk => ?_, fun x hx => (hinv.entry x).frame ?_ rfl Iff.rfl Iff.rfl fun _ => Iff.rfl,
    hinv.pending_nodup, ?_, hinv.heap_wf.alloc h⟩
  · show ∃ h', (s.heap.alloc h).1.cells x = some h' ∧ _
    rw [hcells x (List.ne_of_not_mem_cons hx)]
    exact hinv.table_live k x hk
  · show ((s.heap.alloc h).1.cells x).map _ = _
    rw [hcells x (List.ne_of_not_mem_cons hx)]
  · show s.usage + h.charge + (pend.map (chargeOf { s with heap := (s.heap.alloc h).1 })).sum =
      (s.heap.alloc h).1.total LRUHandle.charge
    rw [List.map_congr_left hcharge, Heap.total_alloc, ← hinv.usage_eq]
    abel

/-- A record put at the next address and let go at once is pending: `Insert` without a handle
when nothing fits. -/
theorem Inv.allocPending (hinv : s.Inv hs pend) (h : LRUHandle) :
    ({ s with heap := (s.heap.alloc h).1 } : LRUCacheShard).Inv hs (pend ++ [s.heap.next]) := by
  obtain ⟨hlru, hh, hpend, htab⟩ := hinv.fresh
  have hi := ((hinv.alloc h).retire List.mem_cons_self hpend).settlePending (by simp) (by simp)
    hlru hh htab
  refine hi.toInv.congr rfl rfl rfl rfl rfl ?_ rfl
  simp [chargeOf, handle]


/-- The new entry `n` takes the key in the table; the entry it takes it from stays exempt. -/
theorem InvBut.insertKey (hi : s.InvBut hs pend T) {key : List UInt8} {n : Nat} (hn : n ∈ T)
    (hold : ∀ x, s.table.lookup key = some x → x ∈ T) :
    ({ s with table := s.table.insert key n } : LRUCacheShard).InvBut hs pend T :=
  hi.setTable _ fun k x hx => by
    by_cases hk : k = key
    · subst hk
      rw [AList.lookup_insert, Option.some.injEq]
      exact ⟨fun h => absurd (h ▸ hn) hx, fun h => absurd (hold x h) hx⟩
    · rw [AList.lookup_insert_ne hk]

/-- The path of `replaceOld` for the entry `o` that lost its key, `Unref`'s answer left open:
`o` leaves the cache, and is pending when that was the last reference. Nothing else changes
for the other entries. -/
theorem InvBut.replaceOldEntry {o : Nat} (hi : s.InvBut hs pend (o :: T)) {h : LRUHandle}
    (hc : s.heap.cells o = some h) (hp : o ∉ pend) (hrefs : h.refs.toNat = 1 + hs.count o)
    (hlru : o ∈ s.lru ↔ h.refs.toNat = 1) (htab : ∀ k, s.table.lookup k ≠ some o)
    (last : Bool) (hlast : last = true ↔ hs.count o = 0) :
    (let s₂ := (s.setInCache o false).modify o fun h => { h with refs := h.refs - 1 }
      let r := if last then
          (({ s₂ with usage := s₂.usage - (s₂.handle o).charge }).lruRemove o, pend ++ [o])
        else (s₂, pend)
      r.1.InvBut hs r.2 T ∧ r.1.table = s.table ∧ ∀ x, x ≠ o →
        r.1.heap.cells x = s.heap.cells x ∧ (x ∈ r.1.lru ↔ x ∈ s.lru) ∧ (x ∈ r.2 ↔ x ∈ pend)) := by
  have hmem : o ∈ o :: T := List.mem_cons_self
  have hpred := refs_toNat_sub_one (show 0 < h.refs.toNat by omega)
  -- `o` leaves the cache, and loses the cache's reference
  have hi₂ := (hi.setInCache hmem false).unref hmem
  cases last with
  | true =>
    have hcount := hlast.mp rfl
    have hon : o ∈ s.lru := hlru.mpr (by omega)
    have hi₃ := (hi₂.retire hmem hp).lruRemove hmem hon
    simp only [↓reduceIte]
    refine ⟨hi₃.settlePending (by simp [hc]) (by simp) (by simpa using hi.nodup.not_mem_erase)
      (List.count_eq_zero.mp hcount) (by simpa using htab), by simp, fun x hx => ?_⟩
    simp [hx, List.mem_erase_of_ne hx]
  | false =>
    have hcount : hs.count o ≠ 0 := fun h0 => Bool.false_ne_true (hlast.mpr h0)
    have hoff : o ∉ s.lru := fun hon => by have := hlru.mp hon; omega
    simp only [Bool.false_eq_true, ↓reduceIte]
    refine ⟨hi₂.settleLive (h := { h with inCache := false, refs := h.refs - 1 }) (by simp [hc]) hp
      (by simp [hpred]; omega) (by simp [hpred]; omega) (by simpa using hoff) (by simpa using htab),
      by simp,
      fun x hx => ?_⟩
    simp [hx]

/-- `replaceOld` on the entry, if any, that lost its key to the new one. -/
theorem InvBut.replaceOld {old : Option Nat} (hi : s.InvBut hs pend (old.toList ++ T))
    (hold : ∀ o ∈ old, ∃ h, s.heap.cells o = some h ∧ o ∉ pend ∧ h.refs.toNat = 1 + hs.count o ∧
      (o ∈ s.lru ↔ h.refs.toNat = 1) ∧ ∀ k, s.table.lookup k ≠ some o) :
    (s.replaceOld old pend).1.InvBut hs (s.replaceOld old pend).2 T ∧
      (s.replaceOld old pend).1.table = s.table ∧ ∀ x, x ∉ old →
        (s.replaceOld old pend).1.heap.cells x = s.heap.cells x ∧
        (x ∈ (s.replaceOld old pend).1.lru ↔ x ∈ s.lru) ∧
        (x ∈ (s.replaceOld old pend).2 ↔ x ∈ pend) := by
  cases old with
  | none => exact ⟨hi, rfl, fun _ _ => ⟨rfl, Iff.rfl, Iff.rfl⟩⟩
  | some o =>
    obtain ⟨h, hc, hp, hrefs, hlru, htab⟩ := hold o rfl
    have hc₁ : (s.setInCache o false).heap.cells o = some { h with inCache := false } := by
      simp [hc]
    obtain ⟨hi', htable, hframe⟩ := hi.replaceOldEntry hc hp hrefs hlru htab
      ((((s.setInCache o false).modify o fun h => { h with refs := h.refs - 1 }).handle o).refs == 0)
      (by
        rw [handle_modify_of_cells _ hc₁]
        simp [refs_eq_zero_iff, refs_toNat_sub_one (show 0 < h.refs.toNat by omega)]
        omega)
    exact ⟨hi', htable, fun x hx => hframe x fun hxo => hx (hxo ▸ rfl)⟩


/-- The middle of `Insert`'s path that keeps the entry, from the state `t` after
`EvictFromLRU` with the evicted entries `del` pending: the new entry takes the key and the
one it replaces leaves the cache. The new entry is the one exempt entry, live, off the list,
not pending, and under its key alone. -/
theorem Inv.insertReplaced {t : LRUCacheShard} {del : List Nat} (hinv : t.Inv hs del)
    (key : List UInt8) (h : LRUHandle) (withHandle : Bool) :
    (let s₁ : LRUCacheShard := { t with
          heap := (t.heap.alloc h).1
          table := t.table.insert key t.heap.next
          usage := t.usage + h.charge }
      let r := s₁.replaceOld (t.table.lookup key) del
      r.1.InvBut ((if withHandle then some t.heap.next else none).toList ++ hs) r.2
          [t.heap.next] ∧
        r.1.heap.cells t.heap.next = some h ∧ t.heap.next ∉ r.1.lru ∧ t.heap.next ∉ r.2 ∧
        ∀ k, r.1.table.lookup k = some t.heap.next ↔ k = key) := by
  dsimp only
  set s₁ : LRUCacheShard := { t with
    heap := (t.heap.alloc h).1
    table := t.table.insert key t.heap.next
    usage := t.usage + h.charge }
  set r := s₁.replaceOld (t.table.lookup key) del
  obtain ⟨hlru, hh, hpend, htab⟩ := hinv.fresh
  -- the handles after the call: the new entry's, if the caller asked for one
  have hcount : ∀ x, x ≠ t.heap.next →
      ((if withHandle then some t.heap.next else none).toList ++ hs).count x = hs.count x := by
    intro x hx
    cases withHandle <;> simp [Ne.symm hx]
  -- the new entry and the one it replaces are exempt until they are right again
  have hi₀ : s₁.InvBut ((if withHandle then some t.heap.next else none).toList ++ hs) del
      ((t.table.lookup key).toList ++ [t.heap.next]) :=
    (((hinv.alloc h).mono (by simp)).handles fun x hx => hcount x (by simp_all)).insertKey
      (n := t.heap.next) (by simp) fun x hx => by simp [hx]
  -- the entry that had the key is live and in the cache, and now under no key
  obtain ⟨hi₁, htable₁, hframe⟩ := hi₀.replaceOld fun o ho => by
    obtain ⟨ho, hc, hokey, hoin, hop⟩ := hinv.of_lookup ho
    obtain ⟨horefs, -, holru, -⟩ := (hinv.entry o).of_cells hc hop
    have hne : o ≠ t.heap.next := fun hon => htab key (hon ▸ ‹_›)
    refine ⟨ho, by simpa [s₁, hne] using hc, hop, ?_, by simpa [s₁, hoin] using holru,
      fun k hk => ?_⟩
    · rw [hcount o hne]
      simpa [hoin] using horefs
    · have hk' : (t.table.insert key t.heap.next).lookup k = some o := hk
      by_cases hkk : k = key
      · rw [hkk, AList.lookup_insert, Option.some.injEq] at hk'
        exact hne hk'.symm
      · rw [AList.lookup_insert_ne hkk] at hk'
        obtain ⟨h', hc', hk'', -⟩ := hinv.of_lookup hk'
        rw [hc] at hc'
        cases hc'
        exact hkk (hk''.symm.trans hokey)
  -- the new entry, untouched by `replaceOld`
  obtain ⟨hcn, hln, hpn⟩ := hframe t.heap.next fun hm => htab key hm
  have hcn' : r.1.heap.cells t.heap.next = some h := by
    rw [hcn]
    simp [s₁]
  have htabn : ∀ k, r.1.table.lookup k = some t.heap.next ↔ k = key := by
    intro k
    rw [htable₁]
    show (t.table.insert key t.heap.next).lookup k = some t.heap.next ↔ k = key
    by_cases hkk : k = key
    · rw [hkk, AList.lookup_insert]
      simp
    · rw [AList.lookup_insert_ne hkk]
      simp only [hkk, iff_false]
      exact htab k
  exact ⟨hi₁, hcn', hln.not.mpr hlru, fun hm => hpend (hpn.mp hm), htabn⟩

/-- The path of `Insert` that keeps the entry, from the state `t` after `EvictFromLRU` with the
evicted entries `del` pending: the new entry takes the key, the one it replaces leaves the
cache, and without a handle the new entry goes on the list. -/
theorem Inv.insertAccepted {t : LRUCacheShard} {del : List Nat} (hinv : t.Inv hs del)
    (key : List UInt8) (h : LRUHandle) (hkey : h.key = key) (hin : h.inCache = true)
    (withHandle : Bool) (hrefs : h.refs = if withHandle then 2 else 1) :
    (let s₁ : LRUCacheShard := { t with
          heap := (t.heap.alloc h).1
          table := t.table.insert key t.heap.next
          usage := t.usage + h.charge }
      let r := s₁.replaceOld (t.table.lookup key) del
      (if withHandle then r.1 else r.1.lruInsert t.heap.next).freeAll r.2).Inv
      ((if withHandle then some t.heap.next else none).toList ++ hs) [] := by
  dsimp only
  have hh := hinv.fresh.2.1
  obtain ⟨hi₁, hcn', hoff, hpn, htabn⟩ := hinv.insertReplaced key h withHandle
  cases withHandle with
  | true =>
    -- the caller holds the second reference: the entry stays off the list
    refine (hi₁.closeLive hcn' hpn ?_ (by simp [hrefs]) (iff_of_false hoff (by simp [hrefs]))
      fun k => (htabn k).trans (by simp [hin, hkey])).freeAll
    simp [hin, hrefs, List.count_eq_zero.mpr hh]
  | false =>
    -- the cache holds the one reference: the entry goes on the list
    exact (hi₁.lruInsertLive hcn' hpn hoff hin (refs_eq_one_iff.mp (by simpa using hrefs))
      (by simp [List.count_eq_zero.mpr hh]) fun k => (htabn k).trans (by rw [hkey])).freeAll


/-- **`Insert`**: after `EvictFromLRU`, an entry that does not fit is freed at once (without a
handle) or refused (with one); otherwise it takes its key, and its handle, if asked for, goes
to the caller. -/
theorem Inv.insert (hinv : s.Inv hs []) (key : List UInt8) (charge : UInt64) (withHandle : Bool)
    (priority : Cache.Priority) :
    (s.insert key charge withHandle priority).1.Inv
      ((s.insert key charge withHandle priority).2.2.toList ++ hs) [] := by
  have hev : (s.evictFromLRU charge).1.Inv hs (s.evictFromLRU charge).2 := hinv.evictLoop _ _
  unfold LRUCacheShard.insert
  generalize s.evictFromLRU charge = p at hev ⊢
  obtain ⟨t, del⟩ := p
  dsimp only
  by_cases hfull : t.capacity < t.usage - t.lruUsage + charge ∧
      (t.strictCapacityLimit = true ∨ withHandle = false)
  · rw [if_pos hfull]
    cases withHandle with
    | false => exact (hev.allocPending _).freeAll
    | true => exact hev.freeAll
  · rw [if_neg hfull]
    exact hev.insertAccepted key
      { key, charge
        refs := if withHandle then 2 else 1
        inCache := true
        isHighPri := priority == .high
        inHighPriPool := false } rfl rfl withHandle rfl


/-- The new shard: nothing on the list, in the table or on the heap. -/
theorem inv_create : create.Inv [] [] := by
  refine ⟨⟨⟨List.nodup_nil, fun _ h => absurd h List.not_mem_nil,
    ⟨[], [], rfl, rfl, fun _ h => absurd h List.not_mem_nil, rfl⟩⟩, rfl⟩,
    fun k e hk => ?_, fun e => ?_, List.nodup_nil, ?_, Heap.wf_empty⟩
  · simp [create] at hk
  · simp [EntryOk, create]
  · simp [create, Heap.total]

/-- A `Lookup` that hits an entry someone besides the cache holds leaves the list alone and
only counts the new reference. -/
theorem lookup_of_refs_ne_one {key : List UInt8} {h : LRUHandle}
    (hk : s.table.lookup key = some e) (hc : s.heap.cells e = some h) (h1 : h.refs ≠ 1) :
    s.lookup key = (s.modify e fun h => { h with refs := h.refs + 1 }, some e) := by
  simp [lookup, hk, handle, hc, h1]

end LRUCacheShard

namespace ShardState

open LRUCacheShard

/-- **A call keeps the invariant**, for the handles the callers hold after it. -/
theorem inv_apply {w : ShardState} (hw : w.shard.Inv w.handles []) {op : ShardOp}
    (hv : w.Valid op) (hfit : w.RefsFit op) : (w.apply op).shard.Inv (w.apply op).handles [] := by
  cases op with
  | insert key charge withHandle priority => exact hw.insert key charge withHandle priority
  | lookup key => exact hw.lookup key hfit
  | ref e => exact hw.ref hv hfit
  | release e forceErase => exact hw.release hv forceErase
  | erase key => exact hw.erase key
  | setCapacity capacity => exact hw.setCapacity capacity
  | setHighPriorityPoolRatio ratio => exact hw.setHighPriorityPoolRatio ratio
  | setStrictCapacityLimit b => exact hw.setStrictCapacityLimit b
  | eraseUnRefEntries => exact hw.eraseUnRefEntries

/-- Every state reached by calls whose handles fit `refs` has the invariant, by induction on
the calls. -/
theorem FitReachable.inv {w : ShardState} (hw : w.FitReachable) : w.shard.Inv w.handles [] := by
  induction hw with
  | create => exact inv_create
  | step _ hv hfit ih => exact inv_apply ih hv hfit

/-- The bookkeeping of a shard whose callers hold `handles`, said of the shard's own fields. -/
structure Bookkeeping (w : ShardState) : Prop where
  /-- The table holds exactly the entries in the cache, each under its own key. -/
  table_iff : ∀ k e, w.shard.table.lookup k = some e ↔
    ∃ h, w.shard.heap.cells e = some h ∧ h.inCache = true ∧ h.key = k
  /-- The list holds exactly the entries in the cache that only the cache holds. -/
  lru_iff : ∀ e, e ∈ w.shard.lru ↔
    ∃ h, w.shard.heap.cells e = some h ∧ h.inCache = true ∧ h.refs.toNat = 1
  /-- `refs` is the cache's reference plus the handles. -/
  refs_eq : ∀ e h, w.shard.heap.cells e = some h →
    h.refs.toNat = (if h.inCache then 1 else 0) + w.handles.count e
  /-- A live entry is in the cache or held; a held one is live. -/
  live_iff : ∀ e, (w.shard.heap.cells e).isSome ↔
    (∃ h, w.shard.heap.cells e = some h ∧ h.inCache = true) ∨ e ∈ w.handles
  /-- `usage_` is the charge of the live entries. -/
  usage_eq : w.shard.usage = w.shard.heap.total LRUHandle.charge
  /-- `lru_usage_` is the charge of the list. -/
  lruUsage_eq : w.shard.lruUsage = (w.shard.lru.map w.shard.chargeOf).sum
  /-- The list splits at `lru_low_pri_`: the entries after it are the flagged ones, and
  `high_pri_pool_usage_` is their charge. -/
  pool_split : ∃ low high, w.shard.lru = low ++ high ∧ low.getLast? = w.shard.lruLowPri ∧
    (∀ e ∈ w.shard.lru, (w.shard.handle e).inHighPriPool = true ↔ e ∈ high) ∧
    w.shard.highPriPoolUsage = (high.map w.shard.chargeOf).sum
  /-- No entry is freed twice, and the freed entries are the allocated ones that are gone. -/
  freed_nodup : w.shard.heap.freed.Nodup
  mem_freed : ∀ e, e ∈ w.shard.heap.freed ↔ e < w.shard.heap.next ∧ w.shard.heap.cells e = none

/-- The bookkeeping is what `Inv` says with nothing pending. -/
theorem bookkeeping_of_inv {w : ShardState} (hinv : w.shard.Inv w.handles []) : w.Bookkeeping := by
  obtain ⟨low, high, hsplit⟩ := hinv.split
  refine ⟨fun k e => ⟨fun hk => ?_, ?_⟩, fun e => ⟨fun he => ?_, ?_⟩, fun e h hc => ?_,
    fun e => ⟨fun hl => ?_, ?_⟩, by simpa using hinv.usage_eq, hinv.lruUsage_eq,
    ⟨low, high, hsplit.lru_eq, hsplit.getLast?_low, hsplit.inHighPriPool_iff,
      hsplit.highPriPoolUsage_eq⟩, hinv.heap_wf.freed_nodup, hinv.heap_wf.mem_freed⟩
  · obtain ⟨h, hc, hkey, hin⟩ := hinv.table_live k e hk
    exact ⟨h, hc, hin, hkey⟩
  · rintro ⟨h, hc, hin, rfl⟩
    exact ((hinv.entry e).of_cells hc List.not_mem_nil).2.2.2 hin
  · obtain ⟨h, hc, hin, h1, -⟩ := hinv.of_mem_lru he
    exact ⟨h, hc, hin, h1⟩
  · rintro ⟨h, hc, hin, h1⟩
    exact ((hinv.entry e).of_cells hc List.not_mem_nil).2.2.1.mpr ⟨hin, h1⟩
  · exact ((hinv.entry e).of_cells hc List.not_mem_nil).1
  · -- an entry out of the cache is held, since it is referenced
    obtain ⟨h, hc⟩ := Option.isSome_iff_exists.mp hl
    obtain ⟨hrefs, hpos, -, -⟩ := (hinv.entry e).of_cells hc List.not_mem_nil
    cases hin : h.inCache with
    | true => exact Or.inl ⟨h, hc, hin⟩
    | false =>
      simp only [hin, Bool.false_eq_true, if_false, zero_add] at hrefs
      exact Or.inr (List.count_pos_iff.mp (hrefs ▸ hpos))
  · rintro (⟨h, hc, -⟩ | he)
    · simp [hc]
    · obtain ⟨h, hc⟩ := hinv.cells_of_mem_handles he
      simp [hc]

/-- **The bookkeeping invariant of the LRU cache shard**: in every state a new shard reaches
under valid calls, the table, the list, the reference counts, the three usage counters and
the heap agree. -/
theorem lruCacheShard_invariant {w : ShardState} (hw : w.FitReachable) : w.Bookkeeping :=
  bookkeeping_of_inv hw.inv

/-- An `Insert` with a handle, then its `Release`. -/
theorem lruCacheShard_invariant_sample :
    (((⟨create, []⟩ : ShardState).apply (.insert [1] 1 true .low)).apply
      (.release 0 false)).Bookkeeping :=
  lruCacheShard_invariant (.step (.step .create trivial trivial) (by simp only [Valid]; decide)
    trivial)

/-- A run of `n` `Lookup`s of one key. -/
theorem Reachable.lookups {w : ShardState} (hw : w.Reachable) (key : List UInt8) (n : Nat) :
    ((fun w : ShardState => w.apply (.lookup key))^[n] w).Reachable := by
  induction n with
  | zero => exact hw
  | succ n ih =>
    rw [Function.iterate_succ_apply']
    exact ih.step trivial

/-- `n` `Lookup`s of a key whose entry someone besides the cache holds: each hands out one
more handle, and `refs` counts them modulo `2^32`, while it has not yet come round to `1`. -/
theorem lookups_refs {w : ShardState} {key : List UInt8} {e : Nat} {h : LRUHandle}
    (hk : w.shard.table.lookup key = some e) (hc : w.shard.heap.cells e = some h)
    (h2 : 2 ≤ h.refs.toNat) (n : Nat) (hn : h.refs.toNat + n ≤ 2 ^ 32) :
    let w' := (fun w : ShardState => w.apply (.lookup key))^[n] w
    w'.shard.table = w.shard.table ∧
      (∃ r : UInt32, w'.shard.heap.cells e = some { h with refs := r } ∧
        r.toNat = (h.refs.toNat + n) % 2 ^ 32) ∧
      w'.handles = List.replicate n e ++ w.handles := by
  induction n with
  | zero => exact ⟨rfl, ⟨h.refs, by simpa using hc, (Nat.mod_eq_of_lt h.refs.toNat_lt).symm⟩, rfl⟩
  | succ n ih =>
    obtain ⟨htable, ⟨r, hr, hrn⟩, hhandles⟩ := ih (by omega)
    -- `refs` is still `2 + n` or more, short of the wrap, so the hit does not touch the list
    have hrn' : r.toNat = h.refs.toNat + n := by
      rw [hrn, Nat.mod_eq_of_lt (by omega)]
    have h1 : r ≠ 1 := fun h1 => by
      rw [refs_eq_one_iff] at h1
      omega
    simp only [Function.iterate_succ_apply']
    set w' := (fun w : ShardState => w.apply (.lookup key))^[n] w
    rw [← htable] at hk
    have hstep : w'.apply (.lookup key) =
        ⟨w'.shard.modify e fun h => { h with refs := h.refs + 1 }, e :: w'.handles⟩ := by
      simp only [apply, lookup_of_refs_ne_one hk hr h1]
      rfl
    refine ⟨?_, ⟨r + 1, ?_, ?_⟩, ?_⟩
    · rw [hstep, ← htable]
      rfl
    · simp [hstep, LRUCacheShard.modify, hr]
    · rw [UInt32.toNat_add, UInt32.toNat_one, hrn', Nat.add_assoc]
    · rw [hstep, hhandles, List.replicate_succ, List.cons_append]

/-- The bookkeeping fails once an entry has `2^32 - 1` handles: an `Insert` with a handle and
`2^32 - 2` `Lookup`s of its key take its `refs` round to `0`. -/
theorem lruCacheShard_invariant_counterexample :
    ∃ w : ShardState, w.Reachable ∧ w.handles.count 0 = 2 ^ 32 - 1 ∧ ¬w.Bookkeeping := by
  let w₀ : ShardState := (⟨create, []⟩ : ShardState).apply (.insert [1] 1 true .low)
  have hw₀ : w₀.Reachable := .step .create trivial
  have hk : w₀.shard.table.lookup [1] = some 0 := by decide
  have hc : w₀.shard.heap.cells 0 = some ⟨[1], 1, 2, true, false, false⟩ := rfl
  obtain ⟨-, ⟨r, hr, hrn⟩, hhandles⟩ := lookups_refs hk hc (by decide) (2 ^ 32 - 2) (by decide)
  have hcount : ((fun w : ShardState => w.apply (.lookup [1]))^[2 ^ 32 - 2] w₀).handles.count 0 =
      2 ^ 32 - 1 := by
    rw [hhandles, show w₀.handles = [0] from rfl, List.count_append, List.count_replicate_self,
      List.count_singleton_self]
    norm_num
  refine ⟨_, hw₀.lookups [1] (2 ^ 32 - 2), hcount, fun hb => ?_⟩
  -- the cache's reference and the handles come to `2^32`, which `refs` holds as `0`
  have hrefs := hb.refs_eq 0 _ hr
  rw [hcount] at hrefs
  have hr0 : r.toNat = 0 := by
    rw [hrn]
    rfl
  simp only [hr0] at hrefs
  omega

end ShardState

end RocksDB
