import RocksDB.Cache.LRUCache

/-!
# The LRU list and its two pools

What `LRU_Remove`, `LRU_Insert` and `MaintainPoolSize` keep of the list: it has no
repeats, its entries are live, `lru_usage_` is their charge, and `lru_low_pri_` splits it
as `low ++ high` where `high` holds exactly the entries flagged `InHighPriPool`, whose
charge is `high_pri_pool_usage_` (`PoolSplit`). The three operations change nothing else
but those bits of the entries (`ListFrame`).
-/

namespace RocksDB

namespace LRUHandle

/-- The entry without its `inHighPriPool` bit. -/
def sansPool (h : LRUHandle) : LRUHandle := { h with inHighPriPool := false }

@[simp] theorem key_sansPool (h : LRUHandle) : h.sansPool.key = h.key := rfl
@[simp] theorem charge_sansPool (h : LRUHandle) : h.sansPool.charge = h.charge := rfl
@[simp] theorem refs_sansPool (h : LRUHandle) : h.sansPool.refs = h.refs := rfl
@[simp] theorem inCache_sansPool (h : LRUHandle) : h.sansPool.inCache = h.inCache := rfl

/-- Entries equal but for the pool bit agree on what the bookkeeping reads. -/
theorem fields_eq_of_sansPool_eq {h h' : LRUHandle} (hh : h'.sansPool = h.sansPool) :
    h'.key = h.key ∧ h'.charge = h.charge ∧ h'.refs = h.refs ∧ h'.inCache = h.inCache := by
  refine ⟨?_, ?_, ?_, ?_⟩
  · simpa using congrArg key hh
  · simpa using congrArg charge hh
  · simpa using congrArg refs hh
  · simpa using congrArg inCache hh

/-- A cell equal but for the pool bit to a live one is live. -/
theorem exists_of_map_sansPool {c c' : Option LRUHandle} {h : LRUHandle}
    (hcells : c'.map sansPool = c.map sansPool) (hc : c = some h) :
    ∃ h', c' = some h' ∧ h'.sansPool = h.sansPool := by
  subst hc
  cases c' with
  | none => simp at hcells
  | some h' => exact ⟨h', rfl, by simpa using hcells⟩

end LRUHandle

namespace LRUCacheShard

variable {s s' : LRUCacheShard} {e x : Nat}

/-- The charge of the entry at `e`. -/
def chargeOf (s : LRUCacheShard) (e : Nat) : UInt64 := (s.handle e).charge

theorem handle_eq_of_cells {h : LRUHandle} (hc : s.heap.cells e = some h) : s.handle e = h := by
  simp [handle, hc]

@[simp] theorem heap_modify (f : LRUHandle → LRUHandle) : (s.modify e f).heap = s.heap.modify e f :=
  rfl
@[simp] theorem lru_modify (f : LRUHandle → LRUHandle) : (s.modify e f).lru = s.lru := rfl
@[simp] theorem lruLowPri_modify (f : LRUHandle → LRUHandle) :
    (s.modify e f).lruLowPri = s.lruLowPri := rfl
@[simp] theorem lruUsage_modify (f : LRUHandle → LRUHandle) :
    (s.modify e f).lruUsage = s.lruUsage := rfl
@[simp] theorem highPriPoolUsage_modify (f : LRUHandle → LRUHandle) :
    (s.modify e f).highPriPoolUsage = s.highPriPoolUsage := rfl
@[simp] theorem table_modify (f : LRUHandle → LRUHandle) : (s.modify e f).table = s.table := rfl
@[simp] theorem usage_modify (f : LRUHandle → LRUHandle) : (s.modify e f).usage = s.usage := rfl
@[simp] theorem capacity_modify (f : LRUHandle → LRUHandle) :
    (s.modify e f).capacity = s.capacity := rfl
@[simp] theorem strictCapacityLimit_modify (f : LRUHandle → LRUHandle) :
    (s.modify e f).strictCapacityLimit = s.strictCapacityLimit := rfl
@[simp] theorem highPriPoolRatio_modify (f : LRUHandle → LRUHandle) :
    (s.modify e f).highPriPoolRatio = s.highPriPoolRatio := rfl
@[simp] theorem highPriPoolCapacity_modify (f : LRUHandle → LRUHandle) :
    (s.modify e f).highPriPoolCapacity = s.highPriPoolCapacity := rfl
@[simp] theorem setInCache_eq (b : Bool) :
    s.setInCache e b = s.modify e fun h => { h with inCache := b } := rfl
@[simp] theorem unref_fst : (s.unref e).1 = s.modify e fun h => { h with refs := h.refs - 1 } := rfl

theorem handle_modify_of_ne (f : LRUHandle → LRUHandle) (hx : x ≠ e) :
    (s.modify e f).handle x = s.handle x := by
  simp [handle, hx]

theorem handle_modify_of_cells (f : LRUHandle → LRUHandle) {h : LRUHandle}
    (hc : s.heap.cells e = some h) : (s.modify e f).handle e = f h := by
  simp [handle, hc]

/-! ### Field lemmas of `LRU_Remove` -/

@[simp] theorem lru_lruRemove : (s.lruRemove e).lru = s.lru.erase e := by
  unfold lruRemove; dsimp only; split <;> rfl
@[simp] theorem lruLowPri_lruRemove : (s.lruRemove e).lruLowPri =
    if s.lruLowPri = some e then s.lru.prevOf e else s.lruLowPri := by
  unfold lruRemove; dsimp only; split <;> rfl
@[simp] theorem lruUsage_lruRemove : (s.lruRemove e).lruUsage = s.lruUsage - s.chargeOf e := by
  unfold lruRemove; dsimp only; split <;> rfl
@[simp] theorem highPriPoolUsage_lruRemove : (s.lruRemove e).highPriPoolUsage =
    if (s.handle e).inHighPriPool then s.highPriPoolUsage - s.chargeOf e
    else s.highPriPoolUsage := by
  unfold lruRemove; dsimp only; split <;> rfl
@[simp] theorem heap_lruRemove : (s.lruRemove e).heap = s.heap := by
  unfold lruRemove; dsimp only; split <;> rfl
@[simp] theorem table_lruRemove : (s.lruRemove e).table = s.table := by
  unfold lruRemove; dsimp only; split <;> rfl
@[simp] theorem usage_lruRemove : (s.lruRemove e).usage = s.usage := by
  unfold lruRemove; dsimp only; split <;> rfl
@[simp] theorem capacity_lruRemove : (s.lruRemove e).capacity = s.capacity := by
  unfold lruRemove; dsimp only; split <;> rfl

@[simp] theorem handle_lruRemove : (s.lruRemove e).handle = s.handle := by
  funext x; simp [handle]

@[simp] theorem chargeOf_lruRemove : (s.lruRemove e).chargeOf = s.chargeOf := by
  funext x; simp [chargeOf]

/-! ### The invariant of the list -/

/-- The split of the list at `lru_low_pri_`: `high`, after the pointer, holds exactly the
entries flagged `InHighPriPool`, and `high_pri_pool_usage_` is their charge. -/
structure PoolSplit (s : LRUCacheShard) (low high : List Nat) : Prop where
  lru_eq : s.lru = low ++ high
  getLast?_low : low.getLast? = s.lruLowPri
  inHighPriPool_iff : ∀ e ∈ s.lru, (s.handle e).inHighPriPool = true ↔ e ∈ high
  highPriPoolUsage_eq : s.highPriPoolUsage = (high.map s.chargeOf).sum

/-- The list has no repeats, its entries are live, and it has a pool split. -/
structure PoolOk (s : LRUCacheShard) : Prop where
  nodup : s.lru.Nodup
  live : ∀ e ∈ s.lru, (s.heap.cells e).isSome
  split : ∃ low high, s.PoolSplit low high

/-- `PoolOk`, and `lru_usage_` is the charge of the list. -/
structure LruOk (s : LRUCacheShard) : Prop extends s.PoolOk where
  lruUsage_eq : s.lruUsage = (s.lru.map s.chargeOf).sum

/-- The flagged entries of the list are the `high` side of the split. -/
theorem PoolSplit.filter_eq {low high : List Nat} (hs : s.PoolSplit low high)
    (hnd : s.lru.Nodup) : s.lru.filter (fun e => (s.handle e).inHighPriPool) = high := by
  have hdisj := (List.nodup_append.mp (hs.lru_eq ▸ hnd)).2.2
  rw [hs.lru_eq, List.filter_append, List.filter_eq_nil_iff.mpr, List.filter_eq_self.mpr,
    List.nil_append]
  · intro x hx
    exact (hs.inHighPriPool_iff x (by simp [hs.lru_eq, hx])).mpr hx
  · intro x hx hflag
    exact hdisj x hx x ((hs.inHighPriPool_iff x (by simp [hs.lru_eq, hx])).mp (by simpa using hflag))
      rfl

/-- What the list operations leave alone: the table, the usage, the heap's bookkeeping, and
every entry but its `inHighPriPool` bit. -/
structure ListFrame (s s' : LRUCacheShard) : Prop where
  table : s'.table = s.table
  usage : s'.usage = s.usage
  next : s'.heap.next = s.heap.next
  freed : s'.heap.freed = s.heap.freed
  cells : ∀ e, (s'.heap.cells e).map LRUHandle.sansPool = (s.heap.cells e).map LRUHandle.sansPool

theorem ListFrame.refl (s : LRUCacheShard) : ListFrame s s := ⟨rfl, rfl, rfl, rfl, fun _ => rfl⟩

theorem ListFrame.trans {s'' : LRUCacheShard} (h₁ : ListFrame s s') (h₂ : ListFrame s' s'') :
    ListFrame s s'' :=
  ⟨h₂.table.trans h₁.table, h₂.usage.trans h₁.usage, h₂.next.trans h₁.next,
    h₂.freed.trans h₁.freed, fun e => (h₂.cells e).trans (h₁.cells e)⟩

theorem ListFrame.charge (hf : ListFrame s s') (e : Nat) :
    ((s'.heap.cells e).map LRUHandle.charge) = (s.heap.cells e).map LRUHandle.charge := by
  have := congrArg (Option.map LRUHandle.charge) (hf.cells e)
  simpa [Option.map_map, Function.comp_def] using this

theorem ListFrame.chargeOf (hf : ListFrame s s') (e : Nat) : s'.chargeOf e = s.chargeOf e := by
  have := hf.charge e
  cases h : s.heap.cells e <;> cases h' : s'.heap.cells e <;>
    simp_all [LRUCacheShard.chargeOf, handle]

theorem ListFrame.isSome (hf : ListFrame s s') (e : Nat) :
    (s'.heap.cells e).isSome = (s.heap.cells e).isSome := by
  have := congrArg Option.isSome (hf.cells e)
  simpa using this

/-- A live entry stays live through a list operation, changed in its pool bit only. -/
theorem ListFrame.exists_cells (hf : ListFrame s s') {h : LRUHandle}
    (hc : s.heap.cells e = some h) : ∃ h', s'.heap.cells e = some h' ∧ h'.sansPool = h.sansPool :=
  LRUHandle.exists_of_map_sansPool (hf.cells e) hc

/-- Setting the pool bit is a list operation's kind of change. -/
theorem listFrame_modify_inHighPriPool (b : Bool) :
    ListFrame s (s.modify e fun h => { h with inHighPriPool := b }) := by
  refine ⟨rfl, rfl, rfl, rfl, fun x => ?_⟩
  by_cases hx : x = e
  · subst hx; cases hc : s.heap.cells x <;> simp [hc, LRUHandle.sansPool]
  · simp [hx]

/-- A write to an entry that keeps its charge and pool bit keeps `LruOk`. -/
theorem LruOk.modify (hl : s.LruOk) (f : LRUHandle → LRUHandle)
    (hf : ∀ h, (f h).charge = h.charge ∧ (f h).inHighPriPool = h.inHighPriPool) :
    (s.modify e f).LruOk := by
  have hhandle : ∀ x ∈ s.lru, (s.modify e f).handle x = s.handle x ∨ x = e := by
    intro x _
    by_cases hx : x = e
    · exact .inr hx
    · exact .inl (handle_modify_of_ne f hx)
  have hcharge : ∀ x ∈ s.lru, (s.modify e f).chargeOf x = s.chargeOf x := by
    intro x hx
    obtain ⟨h, hc⟩ := Option.isSome_iff_exists.mp (hl.live x hx)
    rcases hhandle x hx with h' | rfl
    · simp [chargeOf, h']
    · simp [chargeOf, handle_modify_of_cells f hc, handle_eq_of_cells hc, (hf h).1]
  have hflag : ∀ x ∈ s.lru, ((s.modify e f).handle x).inHighPriPool = (s.handle x).inHighPriPool := by
    intro x hx
    obtain ⟨h, hc⟩ := Option.isSome_iff_exists.mp (hl.live x hx)
    rcases hhandle x hx with h' | rfl
    · simp [h']
    · simp [handle_modify_of_cells f hc, handle_eq_of_cells hc, (hf h).2]
  obtain ⟨low, high, hs⟩ := hl.split
  have hlow : ∀ x ∈ high, x ∈ s.lru := fun x hx => by simp [hs.lru_eq, hx]
  refine ⟨⟨hl.nodup, fun x hx => ?_, low, high, ⟨hs.lru_eq, hs.getLast?_low, fun x hx => ?_, ?_⟩⟩,
    ?_⟩
  · by_cases hxe : x = e
    · subst hxe; simpa using hl.live x hx
    · simpa [hxe] using hl.live x hx
  · rw [hflag x hx]; exact hs.inHighPriPool_iff x hx
  · simp only [highPriPoolUsage_modify, hs.highPriPoolUsage_eq]
    exact congrArg List.sum (List.map_congr_left fun x hx => (hcharge x (hlow x hx)).symm)
  · simp only [lruUsage_modify, lru_modify, hl.lruUsage_eq]
    exact congrArg List.sum (List.map_congr_left fun x hx => (hcharge x hx).symm)

/-- `LruOk` reads the list, its counters, and the cells of the list's entries. -/
theorem LruOk.congr_cells (hl : s.LruOk) (hlru : s'.lru = s.lru)
    (hlowPri : s'.lruLowPri = s.lruLowPri) (hlu : s'.lruUsage = s.lruUsage)
    (hhp : s'.highPriPoolUsage = s.highPriPoolUsage)
    (hcells : ∀ x ∈ s.lru, s'.heap.cells x = s.heap.cells x) : s'.LruOk := by
  obtain ⟨low, high, hs⟩ := hl.split
  have hsame : ∀ x ∈ s.lru, s'.handle x = s.handle x := fun x hx => by simp [handle, hcells x hx]
  have hcharge : ∀ x ∈ s.lru, s'.chargeOf x = s.chargeOf x :=
    fun x hx => by simp [LRUCacheShard.chargeOf, hsame x hx]
  have hlow : ∀ x ∈ high, x ∈ s.lru := fun x hx => by simp [hs.lru_eq, hx]
  refine ⟨⟨hlru ▸ hl.nodup, fun x hx => ?_, low, high, ⟨hlru ▸ hs.lru_eq, hlowPri ▸ hs.getLast?_low,
    fun x hx => ?_, ?_⟩⟩, ?_⟩
  · rw [hlru] at hx; rw [hcells x hx]; exact hl.live x hx
  · rw [hlru] at hx; rw [hsame x hx]; exact hs.inHighPriPool_iff x hx
  · rw [hhp, hs.highPriPoolUsage_eq]
    exact congrArg List.sum (List.map_congr_left fun x hx => (hcharge x (hlow x hx)).symm)
  · rw [hlu, hl.lruUsage_eq, hlru]
    exact congrArg List.sum (List.map_congr_left fun x hx => (hcharge x hx).symm)

/-- A write to an entry off the list keeps `LruOk`. -/
theorem LruOk.modify_of_not_mem (hl : s.LruOk) (f : LRUHandle → LRUHandle) (he : e ∉ s.lru) :
    (s.modify e f).LruOk :=
  hl.congr_cells rfl rfl rfl rfl fun x hx => by
    simp [show x ≠ e from fun h => he (h ▸ hx)]

/-- A write that keeps the charge keeps every entry's charge. -/
theorem chargeOf_modify (f : LRUHandle → LRUHandle) (hf : ∀ h, (f h).charge = h.charge) :
    (s.modify e f).chargeOf = s.chargeOf := by
  funext x
  by_cases hx : x = e
  · subst hx
    cases hc : s.heap.cells x with
    | none => simp [LRUCacheShard.chargeOf, handle, hc]
    | some h => simp [LRUCacheShard.chargeOf, handle_modify_of_cells f hc, handle_eq_of_cells hc, hf]
  · simp [LRUCacheShard.chargeOf, handle_modify_of_ne f hx]

/-! ### `MaintainPoolSize` -/

@[simp] theorem lru_overflowHighPri : (s.overflowHighPri e).lru = s.lru := rfl
@[simp] theorem lruLowPri_overflowHighPri : (s.overflowHighPri e).lruLowPri = some e := rfl
@[simp] theorem heap_overflowHighPri : (s.overflowHighPri e).heap =
    s.heap.modify e (fun h => { h with inHighPriPool := false }) := rfl

theorem listFrame_overflowHighPri (s : LRUCacheShard) (e : Nat) :
    ListFrame s (s.overflowHighPri e) :=
  ⟨rfl, rfl, rfl, rfl, (listFrame_modify_inHighPriPool (s := s) (e := e) false).cells⟩

/-- What every round of `MaintainPoolSize` keeps, the loop keeps. -/
theorem maintainPoolSizeLoop_induction (P : LRUCacheShard → Prop)
    (hstep : ∀ s e, s.lru.nextOf s.lruLowPri = some e → P s → P (s.overflowHighPri e))
    (fuel : Nat) (s : LRUCacheShard) (h : P s) : P (maintainPoolSizeLoop fuel s) := by
  induction fuel generalizing s with
  | zero => exact h
  | succ fuel ih =>
    unfold maintainPoolSizeLoop
    split_ifs
    · split
      · exact h
      · rename_i e he
        exact ih _ (hstep s e he h)
    · exact h

theorem maintainPoolSizeLoop_frame (fuel : Nat) (s : LRUCacheShard) :
    (maintainPoolSizeLoop fuel s).lru = s.lru ∧
      (maintainPoolSizeLoop fuel s).lruUsage = s.lruUsage ∧
      ListFrame s (maintainPoolSizeLoop fuel s) :=
  maintainPoolSizeLoop_induction (fun t => t.lru = s.lru ∧ t.lruUsage = s.lruUsage ∧ ListFrame s t)
    (fun t e _ ⟨hlru, husage, hframe⟩ => ⟨hlru, husage, hframe.trans (listFrame_overflowHighPri t e)⟩)
    fuel s ⟨rfl, rfl, ListFrame.refl s⟩

/-- The successor of `lru_low_pri_` is the oldest entry of the high-priority pool. -/
theorem PoolSplit.nextOf_lruLowPri {low high : List Nat} (hs : s.PoolSplit low high)
    (hnd : s.lru.Nodup) : s.lru.nextOf s.lruLowPri = high.head? := by
  rw [hs.lru_eq, ← hs.getLast?_low]
  exact List.nextOf_getLast? (hs.lru_eq ▸ hnd)

/-- One round of `MaintainPoolSize` moves the oldest entry of the high-priority pool to the
low-priority one: the split's cursor steps over it. -/
theorem PoolSplit.overflowHighPri (hp : s.PoolOk) {low high : List Nat} {x : Nat}
    (hs : s.PoolSplit low (x :: high)) : (s.overflowHighPri x).PoolSplit (low ++ [x]) high := by
  have hnd : (low ++ x :: high).Nodup := hs.lru_eq ▸ hp.nodup
  have hxhigh : x ∉ high := (List.nodup_cons.mp (List.nodup_append.mp hnd).2.1).1
  have hcharge : (s.overflowHighPri x).chargeOf = s.chargeOf :=
    chargeOf_modify (e := x) _ fun _ => rfl
  refine ⟨by simp [hs.lru_eq], by simp, fun y hy => ?_, ?_⟩
  · obtain ⟨h, hc⟩ := Option.isSome_iff_exists.mp (hp.live y hy)
    by_cases hyx : y = x
    · subst hyx
      change ((s.modify y _).handle y).inHighPriPool = true ↔ y ∈ high
      simp [handle_modify_of_cells _ hc, hxhigh]
    · change ((s.modify x _).handle y).inHighPriPool = true ↔ y ∈ high
      rw [handle_modify_of_ne _ hyx, hs.inHighPriPool_iff y hy]
      simp [hyx]
  · rw [hcharge]
    change s.highPriPoolUsage - (s.handle x).charge = _
    rw [hs.highPriPoolUsage_eq]
    simp [LRUCacheShard.chargeOf]

theorem PoolOk.overflowHighPri (hp : s.PoolOk) {low high : List Nat} {x : Nat}
    (hs : s.PoolSplit low (x :: high)) : (s.overflowHighPri x).PoolOk := by
  refine ⟨hp.nodup, fun y hy => ?_, low ++ [x], high, hs.overflowHighPri hp⟩
  by_cases hyx : y = x
  · subst hyx; simpa using hp.live y hy
  · simpa [hyx] using hp.live y hy

theorem PoolOk.maintainPoolSizeLoop (fuel : Nat) (hp : s.PoolOk) :
    (maintainPoolSizeLoop fuel s).PoolOk := by
  refine maintainPoolSizeLoop_induction PoolOk (fun t x hx ht => ?_) fuel s hp
  -- the entry overflowed is the oldest of the high-priority pool
  obtain ⟨low, high, hs⟩ := ht.split
  rw [hs.nextOf_lruLowPri ht.nodup] at hx
  cases high with
  | nil => cases hx
  | cons y high =>
    obtain rfl : y = x := Option.some.inj hx
    exact ht.overflowHighPri hs

theorem maintainPoolSize_frame (s : LRUCacheShard) :
    (maintainPoolSize s).lru = s.lru ∧ (maintainPoolSize s).lruUsage = s.lruUsage ∧
      ListFrame s (maintainPoolSize s) :=
  maintainPoolSizeLoop_frame _ s

theorem PoolOk.maintainPoolSize (hp : s.PoolOk) : (maintainPoolSize s).PoolOk :=
  hp.maintainPoolSizeLoop _

/-! ### `LRU_Insert` -/

@[simp] theorem lru_linkHighPri : (s.linkHighPri e).lru = s.lru ++ [e] := rfl
@[simp] theorem lruLowPri_linkHighPri : (s.linkHighPri e).lruLowPri = s.lruLowPri := rfl
@[simp] theorem heap_linkHighPri : (s.linkHighPri e).heap =
    s.heap.modify e (fun h => { h with inHighPriPool := true }) := rfl
@[simp] theorem lruLowPri_linkLowPri : (s.linkLowPri e).lruLowPri = some e := rfl
@[simp] theorem heap_linkLowPri : (s.linkLowPri e).heap =
    s.heap.modify e (fun h => { h with inHighPriPool := false }) := rfl
@[simp] theorem lruUsage_linkHighPri : (s.linkHighPri e).lruUsage = s.lruUsage := rfl
@[simp] theorem lru_linkLowPri : (s.linkLowPri e).lru = s.lru.insertAfter s.lruLowPri e := rfl
@[simp] theorem lruUsage_linkLowPri : (s.linkLowPri e).lruUsage = s.lruUsage := rfl

theorem listFrame_linkHighPri (s : LRUCacheShard) (e : Nat) : ListFrame s (s.linkHighPri e) :=
  ⟨rfl, rfl, rfl, rfl, (listFrame_modify_inHighPriPool (s := s) (e := e) true).cells⟩

theorem listFrame_linkLowPri (s : LRUCacheShard) (e : Nat) : ListFrame s (s.linkLowPri e) :=
  ⟨rfl, rfl, rfl, rfl, (listFrame_modify_inHighPriPool (s := s) (e := e) false).cells⟩

/-- Linking in at the head of the list puts the entry at the end of the split's `high`. -/
theorem PoolOk.linkHighPri (hp : s.PoolOk) (he : e ∉ s.lru) (hlive : (s.heap.cells e).isSome) :
    (s.linkHighPri e).PoolOk := by
  obtain ⟨low, high, hs⟩ := hp.split
  obtain ⟨h, hc⟩ := Option.isSome_iff_exists.mp hlive
  have hcharge : (s.linkHighPri e).chargeOf = s.chargeOf := chargeOf_modify (e := e) _ fun _ => rfl
  have hdisj : ∀ a ∈ s.lru, ∀ b ∈ [e], a ≠ b := by
    intro a ha b hb
    rw [List.mem_singleton.mp hb]
    exact fun hae => he (hae ▸ ha)
  refine ⟨List.nodup_append.mpr ⟨hp.nodup, List.nodup_singleton e, hdisj⟩,
    fun y hy => ?_, low, high ++ [e],
    ⟨by simp [hs.lru_eq], hs.getLast?_low, fun y hy => ?_, ?_⟩⟩
  · by_cases hye : y = e
    · subst hye; simp [hc]
    · simp only [lru_linkHighPri, List.mem_append, List.mem_singleton, hye, or_false] at hy
      simpa [hye] using hp.live y hy
  · by_cases hye : y = e
    · subst hye
      change ((s.modify y _).handle y).inHighPriPool = true ↔ y ∈ high ++ [y]
      simp [handle_modify_of_cells _ hc]
    · simp only [lru_linkHighPri, List.mem_append, List.mem_singleton, hye, or_false] at hy
      change ((s.modify e _).handle y).inHighPriPool = true ↔ y ∈ high ++ [e]
      rw [handle_modify_of_ne _ hye, hs.inHighPriPool_iff y hy]
      simp [hye]
  · rw [hcharge]
    change s.highPriPoolUsage + (s.handle e).charge = _
    simp [hs.highPriPoolUsage_eq, LRUCacheShard.chargeOf]

/-- Linking in after `lru_low_pri_` puts the entry at the end of the split's `low`, where the
pointer then points. -/
theorem PoolOk.linkLowPri (hp : s.PoolOk) (he : e ∉ s.lru) (hlive : (s.heap.cells e).isSome) :
    (s.linkLowPri e).PoolOk ∧ ∃ low high, s.lru = low ++ high ∧
      (s.linkLowPri e).lru = low ++ e :: high := by
  obtain ⟨low, high, hs⟩ := hp.split
  obtain ⟨h, hc⟩ := Option.isSome_iff_exists.mp hlive
  have hnd : (low ++ high).Nodup := hs.lru_eq ▸ hp.nodup
  have hins : s.lru.insertAfter s.lruLowPri e = low ++ e :: high := by
    rw [hs.lru_eq, ← hs.getLast?_low]
    exact List.insertAfter_getLast? e hnd
  have hmem : ∀ y, y ∈ low ++ e :: high ↔ y = e ∨ y ∈ s.lru := by
    intro y; simp [hs.lru_eq, or_left_comm]
  have hcharge : (s.linkLowPri e).chargeOf = s.chargeOf := chargeOf_modify (e := e) _ fun _ => rfl
  refine ⟨⟨?_, fun y hy => ?_, low ++ [e], high, ⟨?_, by simp, fun y hy => ?_, ?_⟩⟩,
    low, high, hs.lru_eq, hins⟩
  · rw [lru_linkLowPri, hins]
    exact List.nodup_middle.mpr (List.nodup_cons.mpr ⟨hs.lru_eq ▸ he, hnd⟩)
  · rw [lru_linkLowPri, hins, hmem] at hy
    rcases hy with rfl | hy
    · simp [hc]
    · have hye : y ≠ e := fun h => he (h ▸ hy)
      simpa [hye] using hp.live y hy
  · simp [hins]
  · rw [lru_linkLowPri, hins, hmem] at hy
    rcases hy with rfl | hy
    · change ((s.modify y _).handle y).inHighPriPool = true ↔ y ∈ high
      simp only [handle_modify_of_cells _ hc, Bool.false_eq_true, false_iff]
      exact fun h => he (by simp [hs.lru_eq, h])
    · have hye : y ≠ e := fun h => he (h ▸ hy)
      change ((s.modify e _).handle y).inHighPriPool = true ↔ y ∈ high
      rw [handle_modify_of_ne _ hye]
      exact hs.inHighPriPool_iff y hy
  · rw [hcharge]
    exact hs.highPriPoolUsage_eq

/-- `lru_usage_` is no part of `PoolOk`. -/
theorem PoolOk.setLruUsage (hp : s.PoolOk) (u : UInt64) :
    ({ s with lruUsage := u } : LRUCacheShard).PoolOk := by
  obtain ⟨low, high, hs⟩ := hp.split
  exact ⟨hp.nodup, hp.live, low, high,
    ⟨hs.lru_eq, hs.getLast?_low, hs.inHighPriPool_iff, hs.highPriPoolUsage_eq⟩⟩

/-- The list operations' frame for `LRU_Insert`. -/
theorem listFrame_lruInsert (s : LRUCacheShard) (e : Nat) : ListFrame s (s.lruInsert e) := by
  unfold lruInsert
  split_ifs
  · have h := (listFrame_linkHighPri s e).trans (maintainPoolSize_frame (s.linkHighPri e)).2.2
    exact ⟨h.table, h.usage, h.next, h.freed, h.cells⟩
  · have h := listFrame_linkLowPri s e
    exact ⟨h.table, h.usage, h.next, h.freed, h.cells⟩

@[simp] theorem lruUsage_lruInsert :
    (s.lruInsert e).lruUsage = s.lruUsage + (s.handle e).charge := by
  unfold lruInsert
  split_ifs <;> simp [(maintainPoolSize_frame _).2.1]

theorem lru_lruInsert : (s.lruInsert e).lru =
    if 0 < s.highPriPoolRatio.val ∧ (s.handle e).isHighPri then s.lru ++ [e]
    else s.lru.insertAfter s.lruLowPri e := by
  unfold lruInsert
  split_ifs <;> simp [(maintainPoolSize_frame _).1]

theorem PoolOk.lruInsert (hp : s.PoolOk) (he : e ∉ s.lru) (hlive : (s.heap.cells e).isSome) :
    (s.lruInsert e).PoolOk := by
  unfold LRUCacheShard.lruInsert
  split_ifs
  · exact (hp.linkHighPri he hlive).maintainPoolSize.setLruUsage _
  · exact (hp.linkLowPri he hlive).1.setLruUsage _

/-- `LRU_Insert` of a live entry off the list keeps the list's invariant and adds the entry. -/
theorem LruOk.lruInsert (hl : s.LruOk) (he : e ∉ s.lru) (hlive : (s.heap.cells e).isSome) :
    (s.lruInsert e).LruOk ∧ ∀ x, x ∈ (s.lruInsert e).lru ↔ x = e ∨ x ∈ s.lru := by
  have hcharge : (s.lruInsert e).chargeOf = s.chargeOf :=
    funext fun x => (listFrame_lruInsert s e).chargeOf x
  -- either way the new list is the old one with `e` linked in somewhere
  have hperm : ((s.lruInsert e).lru).Perm (e :: s.lru) := by
    rw [lru_lruInsert]
    split_ifs
    · exact List.perm_append_singleton e s.lru
    · obtain ⟨-, low, high, hlru, hlink⟩ := hl.linkLowPri he hlive
      rw [← lru_linkLowPri, hlink, hlru]
      exact List.perm_middle
  refine ⟨⟨hl.toPoolOk.lruInsert he hlive, ?_⟩, fun x => by rw [hperm.mem_iff, List.mem_cons]⟩
  rw [lruUsage_lruInsert, hcharge, (hperm.map s.chargeOf).sum_eq, hl.lruUsage_eq]
  simp [LRUCacheShard.chargeOf, add_comm]

/-! ### `LRU_Remove` -/

/-- `LRU_Remove` keeps the list's invariant: the entry leaves its side of the split. -/
theorem LruOk.lruRemove (hl : s.LruOk) (he : e ∈ s.lru) : (s.lruRemove e).LruOk := by
  obtain ⟨low, high, hs⟩ := hl.split
  have hnd : (low ++ high).Nodup := hs.lru_eq ▸ hl.nodup
  obtain ⟨herase, hlast⟩ := List.erase_split hnd (hs.lru_eq ▸ he)
  have hmem : ∀ x, x ∈ s.lru.erase e ↔ x ≠ e ∧ x ∈ s.lru := fun x => hl.nodup.mem_erase_iff
  refine ⟨⟨by simpa using hl.nodup.erase e, fun x hx => ?_, low.erase e, high.erase e,
    ⟨?_, ?_, fun x hx => ?_, ?_⟩⟩, ?_⟩
  · simp only [lru_lruRemove, hmem] at hx
    simpa using hl.live x hx.2
  · simp [hs.lru_eq, herase]
  · simp [hlast, hs.getLast?_low, hs.lru_eq]
  · simp only [lru_lruRemove, hmem] at hx
    rw [handle_lruRemove, hs.inHighPriPool_iff x hx.2]
    exact (List.mem_erase_of_ne hx.1).symm
  · have hndh : high.Nodup := (List.nodup_append.mp hnd).2.1
    simp only [highPriPoolUsage_lruRemove, chargeOf_lruRemove]
    by_cases hflag : (s.handle e).inHighPriPool = true
    · have hhigh : e ∈ high := (hs.inHighPriPool_iff e he).mp hflag
      rw [if_pos hflag, hs.highPriPoolUsage_eq, ← List.sum_map_erase s.chargeOf hhigh]
      simp
    · have hhigh : e ∉ high := fun h => hflag ((hs.inHighPriPool_iff e he).mpr h)
      rw [if_neg hflag, hs.highPriPoolUsage_eq, List.erase_of_not_mem hhigh]
  · simp only [lruUsage_lruRemove, lru_lruRemove, chargeOf_lruRemove, hl.lruUsage_eq,
      ← List.sum_map_erase s.chargeOf he]
    simp

end LRUCacheShard

end RocksDB
