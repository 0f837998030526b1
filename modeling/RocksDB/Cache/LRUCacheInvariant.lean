import RocksDB.Cache.LRUList

/-!
# The bookkeeping invariant of the LRU cache shard

`Inv s handles pending` says what the shard's structures say about its entries while
`handles` are held by callers and the entries of `pending` (an operation's
`last_reference_list`) wait to be freed:

* the list's invariant `LruOk`;
* the table points only at live entries in the cache, under their own key;
* for each entry `EntryOk`: a pending entry is reachable from nothing, and any other live
  one has `refs` equal to the cache's reference plus its handles, is referenced at all, is
  on the list exactly when the cache alone holds it, and is in the table when in the cache;
* `usage_` plus the charge of the pending entries is the charge of the live ones, and the
  heap's log of frees is right.

Every operation keeps `Inv _ _ []`, which is `lruCacheShard_invariant`.
-/

namespace RocksDB

namespace LRUCacheShard

variable {s s' : LRUCacheShard} {hs hs' pend pend' : List Nat} {e x : Nat}

/-- What the shard and its callers say of the entry at `e`. -/
def EntryOk (s : LRUCacheShard) (handles pending : List Nat) (e : Nat) : Prop :=
  match s.heap.cells e with
  | none => e ∉ handles ∧ e ∉ pending
  | some h =>
    if e ∈ pending then e ∉ s.lru ∧ e ∉ handles ∧ s.table.lookup h.key ≠ some e
    else h.refs.toNat = (if h.inCache then 1 else 0) + handles.count e ∧ 0 < h.refs.toNat ∧
      (e ∈ s.lru ↔ h.inCache ∧ h.refs.toNat = 1) ∧ (h.inCache → s.table.lookup h.key = some e)

/-- The invariant of the table, the entries, the usage and the heap. -/
structure CacheOk (s : LRUCacheShard) (handles pending : List Nat) : Prop where
  table_live : ∀ k e, s.table.lookup k = some e →
    ∃ h, s.heap.cells e = some h ∧ h.key = k ∧ h.inCache = true
  entry : ∀ e, s.EntryOk handles pending e
  pending_nodup : pending.Nodup
  usage_eq : s.usage + (pending.map s.chargeOf).sum = s.heap.total LRUHandle.charge
  heap_wf : s.heap.WF

/-- The whole invariant. -/
structure Inv (s : LRUCacheShard) (handles pending : List Nat) : Prop
    extends s.LruOk, s.CacheOk handles pending

theorem EntryOk.of_cells {h : LRUHandle} (hok : s.EntryOk hs pend e) (hc : s.heap.cells e = some h)
    (hpend : e ∉ pend) :
    h.refs.toNat = (if h.inCache then 1 else 0) + hs.count e ∧ 0 < h.refs.toNat ∧
      (e ∈ s.lru ↔ h.inCache ∧ h.refs.toNat = 1) ∧ (h.inCache → s.table.lookup h.key = some e) := by
  simpa only [EntryOk, hc, if_neg hpend] using hok

theorem EntryOk.of_pending {h : LRUHandle} (hok : s.EntryOk hs pend e)
    (hc : s.heap.cells e = some h) (hpend : e ∈ pend) :
    e ∉ s.lru ∧ e ∉ hs ∧ s.table.lookup h.key ≠ some e := by
  simpa only [EntryOk, hc, if_pos hpend] using hok

theorem EntryOk.of_none (hok : s.EntryOk hs pend e) (hc : s.heap.cells e = none) :
    e ∉ hs ∧ e ∉ pend := by
  simpa only [EntryOk, hc] using hok

/-- A pending entry is not on the list. -/
theorem CacheOk.not_mem_lru_of_pending (hc : s.CacheOk hs pend) (he : e ∈ pend) : e ∉ s.lru := by
  cases hcell : s.heap.cells e with
  | none => exact absurd he ((hc.entry e).of_none hcell).2
  | some h => exact ((hc.entry e).of_pending hcell he).1

/-- An entry on the list is in the cache, held by the cache alone, and in the table. -/
theorem Inv.of_mem_lru (hinv : s.Inv hs pend) (he : e ∈ s.lru) :
    ∃ h, s.heap.cells e = some h ∧ h.inCache = true ∧ h.refs.toNat = 1 ∧ e ∉ hs ∧ e ∉ pend ∧
      s.table.lookup h.key = some e := by
  obtain ⟨h, hc⟩ := Option.isSome_iff_exists.mp (hinv.live e he)
  have hpend : e ∉ pend := fun hp => hinv.toCacheOk.not_mem_lru_of_pending hp he
  obtain ⟨hrefs, -, hlru, htable⟩ := (hinv.entry e).of_cells hc hpend
  obtain ⟨hin, h1⟩ := hlru.mp he
  have hcount : hs.count e = 0 := by simp [hin, h1] at hrefs; omega
  exact ⟨h, hc, hin, h1, List.count_eq_zero.mp hcount, hpend, htable hin⟩

/-- An entry the table points at is live, in the cache, and not pending. -/
theorem Inv.of_lookup (hinv : s.Inv hs pend) {k : List UInt8} (hk : s.table.lookup k = some e) :
    ∃ h, s.heap.cells e = some h ∧ h.key = k ∧ h.inCache = true ∧ e ∉ pend := by
  obtain ⟨h, hc, hkey, hin⟩ := hinv.table_live k e hk
  refine ⟨h, hc, hkey, hin, fun hp => ?_⟩
  exact ((hinv.entry e).of_pending hc hp).2.2 (hkey ▸ hk)

/-- The keys of the table that point at a live entry: its own, when it is in the cache. -/
theorem Inv.lookup_eq_some_iff {h : LRUHandle} (hinv : s.Inv hs pend) (hc : s.heap.cells e = some h)
    (hp : e ∉ pend) (k : List UInt8) : s.table.lookup k = some e ↔ h.inCache ∧ k = h.key := by
  constructor
  · intro hk
    obtain ⟨h', hc', hkey, hin⟩ := hinv.table_live k e hk
    rw [hc] at hc'; cases hc'
    exact ⟨hin, hkey.symm⟩
  · rintro ⟨hin, rfl⟩
    exact ((hinv.entry e).of_cells hc hp).2.2.2 hin

/-- `EntryOk` reads an entry's cell up to its pool bit, its handles, whether it is pending or
on the list, and which keys of the table point at it: an entry for which these stay is
still right. -/
theorem EntryOk.frame (hok : s.EntryOk hs pend x)
    (hcells : (s'.heap.cells x).map LRUHandle.sansPool = (s.heap.cells x).map LRUHandle.sansPool)
    (hcount : hs'.count x = hs.count x) (hpend : x ∈ pend' ↔ x ∈ pend)
    (hlru : x ∈ s'.lru ↔ x ∈ s.lru)
    (htable : ∀ k, s'.table.lookup k = some x ↔ s.table.lookup k = some x) :
    s'.EntryOk hs' pend' x := by
  have hmem : x ∈ hs' ↔ x ∈ hs := by
    rw [← List.count_pos_iff, ← List.count_pos_iff, hcount]
  cases hc : s.heap.cells x with
  | none =>
    have hc' : s'.heap.cells x = none := by simpa [hc] using hcells
    obtain ⟨hh, hp⟩ := hok.of_none hc
    simp only [EntryOk, hc']
    exact ⟨mt hmem.mp hh, mt hpend.mp hp⟩
  | some h =>
    obtain ⟨h', hc', hh'⟩ := LRUHandle.exists_of_map_sansPool hcells hc
    obtain ⟨hkey, -, hrefs, hin⟩ := LRUHandle.fields_eq_of_sansPool_eq hh'
    by_cases hp : x ∈ pend
    · obtain ⟨hl, hh, ht⟩ := hok.of_pending hc hp
      rw [← hkey] at ht
      simp only [EntryOk, hc', if_pos (hpend.mpr hp)]
      exact ⟨mt hlru.mp hl, mt hmem.mp hh, mt (htable _).mp ht⟩
    · obtain ⟨hr, hpos, hl, ht⟩ := hok.of_cells hc hp
      rw [← hkey] at ht
      simp only [EntryOk, hc', if_neg (mt hpend.mp hp), hrefs, hin, hcount, hlru, htable]
      exact ⟨hr, hpos, hl, ht⟩

/-- `Inv` reads only the list, its counters, the table, the usage and the heap. -/
theorem Inv.congr (hinv : s.Inv hs pend) (hlru : s'.lru = s.lru)
    (hlow : s'.lruLowPri = s.lruLowPri) (hlu : s'.lruUsage = s.lruUsage)
    (hhp : s'.highPriPoolUsage = s.highPriPoolUsage) (htable : s'.table = s.table)
    (husage : s'.usage = s.usage) (hheap : s'.heap = s.heap) : s'.Inv hs pend := by
  have hcharge : s'.chargeOf = s.chargeOf := by funext x; simp [chargeOf, handle, hheap]
  refine ⟨hinv.congr_cells hlru hlow hlu hhp fun x _ => by rw [hheap],
    fun k x hk => ?_, fun x => ?_, hinv.pending_nodup, ?_, hheap ▸ hinv.heap_wf⟩
  · rw [hheap]; exact hinv.table_live k x (htable ▸ hk)
  · exact (hinv.entry x).frame (by rw [hheap]) rfl Iff.rfl (by rw [hlru]) (by simp [htable])
  · rw [husage, hcharge, hheap]; exact hinv.usage_eq

/-- A write that keeps charges keeps the total charge. -/
theorem total_modify_charge (H : Heap LRUHandle) {f : LRUHandle → LRUHandle}
    (hf : ∀ h, (f h).charge = h.charge) :
    (H.modify e f).total LRUHandle.charge = H.total LRUHandle.charge :=
  Heap.total_modify H e f _ fun h _ => hf h

/-! ### Operations in progress

`InvBut s hs pend T` is `Inv` with the entries of `T` exempt: the state in the middle of an
operation on them. Each step of an operation keeps it, `InvBut.settle` takes an entry out of
`T` once it is right again, and `InvBut.toInv` gives `Inv` back when none is left. -/

/-- `Inv` but for the entries of `T`. -/
structure InvBut (s : LRUCacheShard) (handles pending T : List Nat) : Prop extends s.LruOk where
  table_live : ∀ k x, x ∉ T → s.table.lookup k = some x →
    ∃ h, s.heap.cells x = some h ∧ h.key = k ∧ h.inCache = true
  entry : ∀ x, x ∉ T → s.EntryOk handles pending x
  pending_nodup : pending.Nodup
  usage_eq : s.usage + (pending.map s.chargeOf).sum = s.heap.total LRUHandle.charge
  heap_wf : s.heap.WF

variable {T : List Nat}

theorem Inv.toInvBut (hinv : s.Inv hs pend) (T : List Nat) : s.InvBut hs pend T :=
  ⟨hinv.toLruOk, fun k x _ => hinv.table_live k x, fun x _ => hinv.entry x, hinv.pending_nodup,
    hinv.usage_eq, hinv.heap_wf⟩

theorem InvBut.toInv (hi : s.InvBut hs pend []) : s.Inv hs pend :=
  ⟨hi.toLruOk, fun k x => hi.table_live k x List.not_mem_nil,
    fun x => hi.entry x List.not_mem_nil, hi.pending_nodup, hi.usage_eq, hi.heap_wf⟩

/-- More entries exempt. -/
theorem InvBut.mono {T' : List Nat} (hi : s.InvBut hs pend T) (hT : ∀ x ∈ T, x ∈ T') :
    s.InvBut hs pend T' :=
  { hi with
    table_live := fun k x hx => hi.table_live k x (mt (hT x) hx)
    entry := fun x hx => hi.entry x (mt (hT x) hx) }

/-- An exempt entry that is right again leaves `T`. -/
theorem InvBut.settle (hi : s.InvBut hs pend (e :: T)) (hok : s.EntryOk hs pend e)
    (htab : ∀ k, s.table.lookup k = some e →
      ∃ h, s.heap.cells e = some h ∧ h.key = k ∧ h.inCache = true) : s.InvBut hs pend T := by
  refine { hi with table_live := fun k x hx hk => ?_, entry := fun x hx => ?_ }
  · by_cases hxe : x = e
    · subst hxe; exact htab k hk
    · exact hi.table_live k x (by simp [hxe, hx]) hk
  · by_cases hxe : x = e
    · subst hxe; exact hok
    · exact hi.entry x (by simp [hxe, hx])

/-- Settle a live entry that is not pending: its `refs`, list membership and table keys are
right. -/
theorem InvBut.settleLive {h : LRUHandle} (hi : s.InvBut hs pend (e :: T))
    (hc : s.heap.cells e = some h) (hp : e ∉ pend)
    (hrefs : h.refs.toNat = (if h.inCache then 1 else 0) + hs.count e)
    (hpos : 0 < h.refs.toNat) (hlru : e ∈ s.lru ↔ h.inCache ∧ h.refs.toNat = 1)
    (htab : ∀ k, s.table.lookup k = some e ↔ h.inCache ∧ k = h.key) : s.InvBut hs pend T := by
  refine hi.settle ?_ fun k hk => ?_
  · simp only [EntryOk, hc, if_neg hp]
    exact ⟨hrefs, hpos, hlru, fun hin => (htab h.key).mpr ⟨hin, rfl⟩⟩
  · obtain ⟨hin, rfl⟩ := (htab k).mp hk
    exact ⟨h, hc, rfl, hin⟩

/-- Settle an entry an operation has let go: it is pending, off the list, held by no caller,
and no key of the table points at it. -/
theorem InvBut.settlePending (hi : s.InvBut hs pend (e :: T)) (hlive : (s.heap.cells e).isSome)
    (hp : e ∈ pend) (hlru : e ∉ s.lru) (hh : e ∉ hs) (htab : ∀ k, s.table.lookup k ≠ some e) :
    s.InvBut hs pend T := by
  obtain ⟨h, hc⟩ := Option.isSome_iff_exists.mp hlive
  refine hi.settle ?_ fun k hk => absurd hk (htab k)
  simp only [EntryOk, hc, if_pos hp]
  exact ⟨hlru, hh, htab h.key⟩

/-- Close on a live entry that is not pending: its `refs`, list membership and table keys are
right. -/
theorem InvBut.closeLive {h : LRUHandle} (hi : s.InvBut hs pend [e]) (hc : s.heap.cells e = some h)
    (hp : e ∉ pend) (hrefs : h.refs.toNat = (if h.inCache then 1 else 0) + hs.count e)
    (hpos : 0 < h.refs.toNat) (hlru : e ∈ s.lru ↔ h.inCache ∧ h.refs.toNat = 1)
    (htab : ∀ k, s.table.lookup k = some e ↔ h.inCache ∧ k = h.key) : s.Inv hs pend :=
  (hi.settleLive hc hp hrefs hpos hlru htab).toInv

/-- Close on an entry an operation has let go: it is pending, off the list, held by no
caller, and no key of the table points at it. -/
theorem InvBut.closePending (hi : s.InvBut hs pend [e]) (hlive : (s.heap.cells e).isSome)
    (hp : e ∈ pend) (hlru : e ∉ s.lru) (hh : e ∉ hs) (htab : ∀ k, s.table.lookup k ≠ some e) :
    s.Inv hs pend :=
  (hi.settlePending hlive hp hlru hh htab).toInv

/-- A change of the callers' handles on the entries of `T` only. -/
theorem InvBut.handles (hi : s.InvBut hs pend T)
    (hcount : ∀ x, x ∉ T → hs'.count x = hs.count x) : s.InvBut hs' pend T :=
  { hi with
    entry := fun x hx => (hi.entry x hx).frame rfl (hcount x hx) Iff.rfl Iff.rfl (fun _ => Iff.rfl) }

/-- A write to an exempt entry that keeps its key and charge. -/
theorem InvBut.modify (hi : s.InvBut hs pend T) (he : e ∈ T) {g : LRUHandle → LRUHandle}
    (hg : ∀ h, (g h).key = h.key ∧ (g h).charge = h.charge) (hl : (s.modify e g).LruOk) :
    (s.modify e g).InvBut hs pend T := by
  have hcells : ∀ x, x ∉ T → (s.modify e g).heap.cells x = s.heap.cells x := by
    intro x hx
    have hxe : x ≠ e := fun h => hx (h ▸ he)
    simp [hxe]
  refine ⟨hl, fun k x hx hk => ?_, fun x hx => (hi.entry x hx).frame (by rw [hcells x hx]) rfl
    Iff.rfl Iff.rfl fun _ => Iff.rfl, hi.pending_nodup, ?_, hi.heap_wf.modify _ _⟩
  · rw [hcells x hx]; exact hi.table_live k x hx hk
  · rw [chargeOf_modify g fun h => (hg h).2, usage_modify, heap_modify,
      total_modify_charge _ (f := g) fun h => (hg h).2]
    exact hi.usage_eq

/-- `Unref` of an exempt entry. -/
theorem InvBut.unref (hi : s.InvBut hs pend T) (he : e ∈ T) :
    (s.modify e fun h => { h with refs := h.refs - 1 }).InvBut hs pend T :=
  hi.modify he (fun _ => ⟨rfl, rfl⟩) (hi.toLruOk.modify _ fun _ => ⟨rfl, rfl⟩)

/-- `SetInCache` of an exempt entry. -/
theorem InvBut.setInCache (hi : s.InvBut hs pend T) (he : e ∈ T) (b : Bool) :
    (s.setInCache e b).InvBut hs pend T :=
  hi.modify he (fun _ => ⟨rfl, rfl⟩) (hi.toLruOk.modify _ fun _ => ⟨rfl, rfl⟩)

/-- `LRU_Remove` of an exempt entry. -/
theorem InvBut.lruRemove (hi : s.InvBut hs pend T) (he : e ∈ T) (hl : e ∈ s.lru) :
    (s.lruRemove e).InvBut hs pend T := by
  refine ⟨hi.toLruOk.lruRemove hl, fun k x hx hk => ?_, fun x hx => (hi.entry x hx).frame
    (by simp) rfl Iff.rfl ?_ (fun _ => by simp), hi.pending_nodup, ?_, by simpa using hi.heap_wf⟩
  · simpa using hi.table_live k x hx (by simpa using hk)
  · simp [List.mem_erase_of_ne (fun h : x = e => hx (h ▸ he))]
  · simpa using hi.usage_eq

/-- A list operation that keeps the list membership of the entries outside `T`. -/
theorem InvBut.listFrame (hi : s.InvBut hs pend T) (hf : ListFrame s s') (hl : s'.LruOk)
    (hmem : ∀ x, x ∉ T → (x ∈ s'.lru ↔ x ∈ s.lru)) : s'.InvBut hs pend T := by
  have hcharge : s'.chargeOf = s.chargeOf := funext hf.chargeOf
  refine ⟨hl, fun k x hx hk => ?_, fun x hx => (hi.entry x hx).frame (hf.cells x) rfl Iff.rfl
    (hmem x hx) (by simp [hf.table]), hi.pending_nodup, ?_, ?_⟩
  · obtain ⟨h, hcell, hkey, hin⟩ := hi.table_live k x hx (hf.table ▸ hk)
    obtain ⟨h', hc', hh'⟩ := hf.exists_cells hcell
    obtain ⟨hkey', -, -, hin'⟩ := LRUHandle.fields_eq_of_sansPool_eq hh'
    exact ⟨h', hc', hkey'.trans hkey, hin'.trans hin⟩
  · have htotal : s'.heap.total LRUHandle.charge = s.heap.total LRUHandle.charge := by
      unfold Heap.total
      rw [hf.next]
      exact Finset.sum_congr rfl fun i _ => by rw [hf.charge i]
    rw [hf.usage, hcharge, htotal]
    exact hi.usage_eq
  · refine ⟨fun i hi' => ?_, hf.freed ▸ hi.heap_wf.freed_nodup, fun i => ?_⟩
    · have := hf.isSome i
      rw [hi.heap_wf.fresh i (hf.next ▸ hi')] at this
      simpa using this
    · rw [hf.freed, hf.next, hi.heap_wf.mem_freed i]
      have := hf.isSome i
      constructor <;> rintro ⟨hlt, hnone⟩ <;> refine ⟨hlt, ?_⟩
      · rw [hnone] at this; simpa using this
      · rw [hnone] at this; simpa using this

/-- `LRU_Insert` of an exempt entry. -/
theorem InvBut.lruInsert (hi : s.InvBut hs pend T) (he : e ∈ T) (hnot : e ∉ s.lru)
    (hlive : (s.heap.cells e).isSome) : (s.lruInsert e).InvBut hs pend T := by
  obtain ⟨hl, hmem⟩ := hi.toLruOk.lruInsert hnot hlive
  refine hi.listFrame (listFrame_lruInsert s e) hl fun x hx => ?_
  rw [hmem]
  exact ⟨fun h => h.resolve_left fun hxe => hx (hxe ▸ he), Or.inr⟩

/-- A new table that keeps every key's entry outside `T`. -/
theorem InvBut.setTable (hi : s.InvBut hs pend T) (t : AList fun _ : List UInt8 => Nat)
    (ht : ∀ k x, x ∉ T → (t.lookup k = some x ↔ s.table.lookup k = some x)) :
    ({ s with table := t } : LRUCacheShard).InvBut hs pend T :=
  ⟨hi.toLruOk.congr_cells rfl rfl rfl rfl fun _ _ => rfl,
    fun k x hx hk => hi.table_live k x hx ((ht k x hx).mp hk),
    fun x hx => (hi.entry x hx).frame rfl rfl Iff.rfl Iff.rfl (fun k => ht k x hx),
    hi.pending_nodup, hi.usage_eq, hi.heap_wf⟩

/-- Taking an exempt entry's charge off `usage_` makes it pending. -/
theorem InvBut.retire (hi : s.InvBut hs pend T) (he : e ∈ T) (hep : e ∉ pend) :
    ({ s with usage := s.usage - s.chargeOf e } : LRUCacheShard).InvBut hs (pend ++ [e]) T := by
  refine ⟨hi.toLruOk.congr_cells rfl rfl rfl rfl fun _ _ => rfl, hi.table_live,
    fun x hx => (hi.entry x hx).frame rfl rfl ?_ Iff.rfl fun _ => Iff.rfl,
    hi.pending_nodup.append (List.nodup_singleton e) (by simpa using hep), ?_, hi.heap_wf⟩
  · have hxe : x ≠ e := fun h => hx (h ▸ he)
    simp [hxe]
  · change s.usage - s.chargeOf e + ((pend ++ [e]).map s.chargeOf).sum = _
    rw [← hi.usage_eq, List.map_append, List.sum_append]
    simp only [List.map_cons, List.map_nil, List.sum_cons, List.sum_nil, add_zero]
    abel

/-- The table without a key that pointed at an exempt entry: the keys of the others stay. -/
theorem InvBut.eraseKey (hi : s.InvBut hs pend T) (he : e ∈ T) {key : List UInt8}
    (hk : s.table.lookup key = some e) :
    ({ s with table := s.table.erase key } : LRUCacheShard).InvBut hs pend T :=
  hi.setTable _ fun k x hx => by
    by_cases hkk : k = key
    · subst hkk
      rw [AList.lookup_erase, hk]
      simp only [reduceCtorEq, false_iff, Option.some.injEq]
      exact fun h => hx (h ▸ he)
    · rw [AList.lookup_erase_ne hkk]

/-- Erasing the one key that points at `e` leaves no key pointing at it. -/
theorem lookup_erase_ne_of_keys {t : AList fun _ : List UInt8 => Nat} {key : List UInt8}
    (ht : ∀ k, t.lookup k = some e → k = key) (k : List UInt8) :
    (t.erase key).lookup k ≠ some e := by
  by_cases hkk : k = key
  · rw [hkk, AList.lookup_erase]
    simp
  · rw [AList.lookup_erase_ne hkk]
    exact fun hk => hkk (ht k hk)

@[simp] theorem heap_dropFromCache : (s.dropFromCache e).heap =
    (s.heap.modify e fun h => { h with inCache := false }).modify e
      fun h => { h with refs := h.refs - 1 } := rfl
@[simp] theorem lru_dropFromCache : (s.dropFromCache e).lru = s.lru := rfl
@[simp] theorem table_dropFromCache :
    (s.dropFromCache e).table = s.table.erase (s.handle e).key := rfl

/-- The block `dropFromCache`, on an exempt entry that the table holds under its key: it leaves
the table and the cache, and is pending. -/
theorem InvBut.dropFromCache (hi : s.InvBut hs pend T) (he : e ∈ T) (hep : e ∉ pend)
    (htab : s.table.lookup (s.handle e).key = some e) :
    (s.dropFromCache e).InvBut hs (pend ++ [e]) T := by
  have h₁ := (hi.eraseKey he htab).setInCache he false
  exact (h₁.unref he).retire he hep

/-! ### The eviction loop -/

/-- A round of eviction of the list's oldest entry makes it pending. -/
theorem Inv.evictOldest (hinv : s.Inv hs pend) {rest : List Nat} (hlru : s.lru = e :: rest) :
    (s.evictOldest e).Inv hs (pend ++ [e]) := by
  have he : e ∈ s.lru := by simp [hlru]
  obtain ⟨h, hc, hin, h1, hhs, hpend, htab⟩ := hinv.of_mem_lru he
  have hkey : (s.handle e).key = h.key := by rw [handle_eq_of_cells hc]
  have hi := ((hinv.toInvBut [e]).lruRemove List.mem_cons_self he).dropFromCache
    List.mem_cons_self hpend (by rw [handle_lruRemove, hkey]; simpa using htab)
  refine hi.closePending (by simp [hc]) (by simp) (by simpa using hinv.nodup.not_mem_erase) hhs ?_
  -- only `e`'s own key pointed at it, and that key is gone
  rw [table_dropFromCache, table_lruRemove, handle_lruRemove, hkey]
  exact lookup_erase_ne_of_keys fun k hk => ((hinv.lookup_eq_some_iff hc hpend k).mp hk).2

/-- What every round of eviction keeps, of the shard and the entries evicted so far, the
eviction loop keeps. -/
theorem evictLoop_induction (P : LRUCacheShard → List Nat → Prop)
    (hstep : ∀ s del old rest, s.lru = old :: rest → P s del →
      P (s.evictOldest old) (del ++ [old]))
    (cond : LRUCacheShard → Bool) (fuel : Nat) (s : LRUCacheShard) (del : List Nat)
    (h : P s del) : P (evictLoop cond fuel s del).1 (evictLoop cond fuel s del).2 := by
  induction fuel generalizing s del with
  | zero => exact h
  | succ fuel ih =>
    unfold LRUCacheShard.evictLoop
    split
    · exact h
    · rename_i old rest hlru
      split_ifs
      · exact ih _ _ (hstep s del old rest hlru h)
      · exact h

theorem Inv.evictLoop (cond : LRUCacheShard → Bool) (fuel : Nat) (hinv : s.Inv hs pend) :
    (evictLoop cond fuel s pend).1.Inv hs (evictLoop cond fuel s pend).2 :=
  evictLoop_induction (fun t del => t.Inv hs del) (fun _ _ _ _ hlru ht => ht.evictOldest hlru)
    cond fuel s pend hinv

/-! ### Freeing the pending entries -/

@[simp] theorem heap_free : (s.free e).heap = s.heap.free e := rfl

/-- `Free` of the first pending entry. -/
theorem Inv.free {rest : List Nat} (hinv : s.Inv hs (e :: rest)) : (s.free e).Inv hs rest := by
  have hpend : e ∈ e :: rest := List.mem_cons_self
  obtain ⟨h, hc⟩ : ∃ h, s.heap.cells e = some h := by
    cases hce : s.heap.cells e with
    | none => exact absurd hpend ((hinv.entry e).of_none hce).2
    | some h => exact ⟨h, rfl⟩
  obtain ⟨hlru, hhs, htab⟩ := (hinv.entry e).of_pending hc hpend
  have hrest : e ∉ rest := (List.nodup_cons.mp hinv.pending_nodup).1
  have hcells : ∀ x, x ≠ e → (s.free e).heap.cells x = s.heap.cells x := by
    intro x hx; simp [hx]
  refine ⟨hinv.congr_cells rfl rfl rfl rfl fun x hx => hcells x (fun h => hlru (h ▸ hx)),
    fun k x hk => ?_, fun x => ?_, (List.nodup_cons.mp hinv.pending_nodup).2, ?_, ?_⟩
  · obtain ⟨hx, hcx, hkx, hinx⟩ := hinv.table_live k x hk
    have hxe : x ≠ e := by
      rintro rfl
      rw [hc] at hcx
      cases hcx
      exact htab (hkx ▸ hk)
    exact ⟨hx, by rw [hcells x hxe, hcx], hkx, hinx⟩
  · by_cases hxe : x = e
    · subst hxe
      simp only [EntryOk, heap_free, Heap.cells_free, if_true]
      exact ⟨hhs, hrest⟩
    · exact (hinv.entry x).frame (by rw [hcells x hxe]) rfl (by simp [hxe]) Iff.rfl (fun _ => Iff.rfl)
  · have hsum : (rest.map (s.free e).chargeOf).sum = (rest.map s.chargeOf).sum := by
      refine congrArg List.sum (List.map_congr_left fun x hx => ?_)
      have hxe : x ≠ e := fun h => hrest (h ▸ hx)
      simp [chargeOf, handle, hxe]
    have hce : s.chargeOf e = h.charge := by simp [chargeOf, handle_eq_of_cells hc]
    -- freeing takes the entry's charge off the total, as it leaves the pending list
    have htotal := Heap.total_free (f := LRUHandle.charge) e (hinv.heap_wf.lt_next hc)
    simp only [hc, Option.map_some, Option.getD_some] at htotal
    have husage := hinv.usage_eq
    rw [List.map_cons, List.sum_cons, hce] at husage
    rw [hsum]
    apply add_right_cancel (b := h.charge)
    rw [heap_free, htotal, ← husage]
    change s.usage + _ + _ = _
    abel
  · exact hinv.heap_wf.free hc

theorem Inv.freeAll (hinv : s.Inv hs pend) : (s.freeAll pend).Inv hs [] := by
  induction pend generalizing s with
  | nil => exact hinv.congr rfl rfl rfl rfl rfl rfl (by simp [freeAll])
  | cons e rest ih => exact ih hinv.free

/-! ### The operations on entries -/

/-- A handle points at a live entry. -/
theorem Inv.cells_of_mem_handles (hinv : s.Inv hs pend) (he : e ∈ hs) :
    ∃ h, s.heap.cells e = some h := by
  cases hce : s.heap.cells e with
  | none => exact absurd he ((hinv.entry e).of_none hce).1
  | some h => exact ⟨h, rfl⟩

/-- `if c then LRU_Remove(e)`, where `c` says that `e` is on the list. -/
theorem InvBut.dropFromList (hi : s.InvBut hs pend T) (he : e ∈ T) (c : Prop) [Decidable c]
    (hcond : c ↔ e ∈ s.lru) : (if c then s.lruRemove e else s).InvBut hs pend T ∧
      (if c then s.lruRemove e else s).heap = s.heap ∧
      (if c then s.lruRemove e else s).table = s.table ∧
      e ∉ (if c then s.lruRemove e else s).lru := by
  by_cases hc : c
  · simp only [if_pos hc, heap_lruRemove, table_lruRemove, lru_lruRemove, true_and]
    exact ⟨hi.lruRemove he (hcond.mp hc), hi.nodup.not_mem_erase⟩
  · simp only [if_neg hc, true_and]
    exact ⟨hi, fun h => hc (hcond.mpr h)⟩

/-- The common part of `Lookup` and `Ref`: `e` leaves the list if the cache held it alone,
and the caller gets a reference. `refs` counts it without wrapping while the handles on `e`
stay below `2^32 - 2`. -/
theorem Inv.acquire (hinv : s.Inv hs []) {h : LRUHandle} (hc : s.heap.cells e = some h)
    (hfit : hs.count e + 2 < 2 ^ 32) (c : Prop) [Decidable c] (hcond : c ↔ e ∈ s.lru) :
    ((if c then s.lruRemove e else s).modify e fun h => { h with refs := h.refs + 1 }).Inv
      (e :: hs) [] := by
  obtain ⟨hrefs, hpos, -, -⟩ := (hinv.entry e).of_cells hc List.not_mem_nil
  have hle : h.refs.toNat ≤ 1 + hs.count e := by
    split at hrefs <;> omega
  have hsucc : (h.refs + 1).toNat = h.refs.toNat + 1 := refs_toNat_add_one (by omega)
  have he : e ∈ [e] := List.mem_cons_self
  have hown : s.InvBut (e :: hs) [] [e] := (hinv.toInvBut [e]).handles fun x hx =>
    List.count_cons_of_ne (Ne.symm (List.ne_of_not_mem_cons hx))
  obtain ⟨hi, hheap, htable, hnot⟩ := hown.dropFromList he c hcond
  refine (hi.modify he (g := fun h => { h with refs := h.refs + 1 }) (fun _ => ⟨rfl, rfl⟩)
    (hi.toLruOk.modify_of_not_mem _ hnot)).closeLive (h := { h with refs := h.refs + 1 })
    (by simp [hheap, hc]) List.not_mem_nil
    ?_ (by simp only [hsucc]; omega) ?_ fun k => ?_
  · simp only [List.count_cons_self, hsucc]; omega
  · simp only [lru_modify, hnot, false_iff, hsucc]; omega
  · rw [table_modify, htable, hinv.lookup_eq_some_iff hc List.not_mem_nil]

/-- `Lookup`, on a key whose entry has fewer than `2^32 - 2` handles. -/
theorem Inv.lookup (hinv : s.Inv hs []) (key : List UInt8)
    (hfit : ∀ e, s.table.lookup key = some e → hs.count e + 2 < 2 ^ 32) :
    (s.lookup key).1.Inv ((s.lookup key).2.toList ++ hs) [] := by
  cases hk : s.table.lookup key with
  | none => simpa [LRUCacheShard.lookup, hk] using hinv
  | some e =>
    obtain ⟨h, hc, -, hin, -⟩ := hinv.of_lookup hk
    obtain ⟨-, -, hlru, -⟩ := (hinv.entry e).of_cells hc List.not_mem_nil
    simp only [LRUCacheShard.lookup, hk, Option.toList_some, List.singleton_append]
    exact hinv.acquire hc (hfit e hk) _
      (by rw [handle_eq_of_cells hc, hlru, hin, refs_eq_one_iff]; simp)

/-- `Ref` on a handle the caller holds, one of fewer than `2^32 - 2`. -/
theorem Inv.ref (hinv : s.Inv hs []) (he : e ∈ hs) (hfit : hs.count e + 2 < 2 ^ 32) :
    (s.ref e).1.Inv (e :: hs) [] := by
  obtain ⟨h, hc⟩ := hinv.cells_of_mem_handles he
  obtain ⟨-, -, hlru, -⟩ := (hinv.entry e).of_cells hc List.not_mem_nil
  exact hinv.acquire hc hfit _ (by rw [handle_eq_of_cells hc, hlru, refs_eq_one_iff])

end LRUCacheShard

end RocksDB
