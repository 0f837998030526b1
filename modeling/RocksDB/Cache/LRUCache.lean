import Mathlib
import RocksDB.Db.DbFormat
import RocksDB.Lib.Heap
import RocksDB.Lib.CursorList
import RocksDB.Lib.BinaryFloat

/-!
# The LRU cache shard

`LRUCacheShard` of `cache/lru_cache.cc`. An entry is an `LRUHandle` on the heap, named by
its address. The shard points at entries from three places: the hash table (by key), the
circular LRU list with its sentinel `lru_` (oldest first, `lru_.next` to `lru_.prev`), and
the pointer `lru_low_pri_` into that list (`none` is the sentinel). Entries after
`lru_low_pri_` form the high-priority pool. Callers hold handles, which are entry
addresses too.

`LRUHandle::Free` (the deleter call and the `delete[]`) is `Heap.free`: it empties the cell
and logs the address, so the log records every deleter call in order.

`high_pri_pool_ratio_` and `high_pri_pool_capacity_` are `double`s, values of `binary64`:
`capacity_ * high_pri_pool_ratio_` converts the capacity and rounds the product, and
`MaintainPoolSize` compares `high_pri_pool_usage_` converted to `double`.
-/

namespace RocksDB

open BinaryFloat (Value)

/-- C++'s `double`. -/
abbrev Double := Value BinaryFloat.binary64

namespace Cache

/-- `Cache::Priority`. -/
inductive Priority where
  | high
  | low
  deriving DecidableEq, Repr

end Cache

/-- `LRUHandle`, with the fields the shard reads; the three bits of `flags` are `inCache`,
`isHighPri` and `inHighPriPool`. `refs` is a `uint32_t`. -/
structure LRUHandle where
  key : List UInt8
  charge : UInt64
  refs : UInt32
  inCache : Bool
  isHighPri : Bool
  inHighPriPool : Bool
  deriving DecidableEq, Repr

instance : Inhabited LRUHandle := ⟨⟨[], 0, 0, false, false, false⟩⟩

/-! `Ref` and `Unref` count `refs` up and down by one; read as a number, it moves by one
while it stays off `0` going down and below `2^32` going up. -/

theorem refs_toNat_add_one {x : UInt32} (h : x.toNat + 1 < 2 ^ 32) : (x + 1).toNat = x.toNat + 1 := by
  rw [UInt32.toNat_add, UInt32.toNat_one, Nat.mod_eq_of_lt h]

theorem refs_toNat_sub_one {x : UInt32} (h : 0 < x.toNat) : (x - 1).toNat = x.toNat - 1 := by
  rw [UInt32.toNat_sub_of_le]
  · rfl
  · rw [UInt32.le_iff_toNat_le]
    exact h

theorem refs_eq_one_iff {x : UInt32} : x = 1 ↔ x.toNat = 1 := by
  rw [← UInt32.toNat_inj]
  rfl

theorem refs_eq_zero_iff {x : UInt32} : x = 0 ↔ x.toNat = 0 := by
  rw [← UInt32.toNat_inj]
  rfl

/-- The state of an `LRUCacheShard`, with the heap its entries live on. -/
structure LRUCacheShard where
  capacity : UInt64
  highPriPoolUsage : UInt64
  strictCapacityLimit : Bool
  highPriPoolRatio : Double
  highPriPoolCapacity : Double
  lru : List Nat
  lruLowPri : Option Nat
  table : AList (fun _ : List UInt8 => Nat)
  usage : UInt64
  lruUsage : UInt64
  heap : Heap LRUHandle

namespace LRUCacheShard

/-- The constructor: capacity 0, an empty list whose low-priority pointer is the sentinel. -/
def create : LRUCacheShard where
  capacity := 0
  highPriPoolUsage := 0
  strictCapacityLimit := false
  highPriPoolRatio := 0
  highPriPoolCapacity := 0
  lru := []
  lruLowPri := none
  table := ∅
  usage := 0
  lruUsage := 0
  heap := Heap.empty

/-- The entry at address `e`. -/
def handle (s : LRUCacheShard) (e : Nat) : LRUHandle := (s.heap.cells e).getD default

/-- Write to the entry at `e`. -/
def modify (s : LRUCacheShard) (e : Nat) (f : LRUHandle → LRUHandle) : LRUCacheShard :=
  { s with heap := s.heap.modify e f }

/-- `LRUHandle::SetInCache`. -/
def setInCache (s : LRUCacheShard) (e : Nat) (inCache : Bool) : LRUCacheShard :=
  s.modify e fun h => { h with inCache }

/-- `LRUHandle::Free`, for an entry the shard no longer points to. -/
def free (s : LRUCacheShard) (e : Nat) : LRUCacheShard := { s with heap := s.heap.free e }

/-- Free the entries of `last_reference_list`, first to last. -/
def freeAll (s : LRUCacheShard) (es : List Nat) : LRUCacheShard :=
  { s with heap := s.heap.freeAll es }

/-- `Unref`: drop one reference, and say whether it was the last. -/
def unref (s : LRUCacheShard) (e : Nat) : LRUCacheShard × Bool :=
  let s := s.modify e fun h => { h with refs := h.refs - 1 }
  (s, (s.handle e).refs == 0)

/-- `LRU_Remove`: unlink `e`, stepping `lru_low_pri_` back when it pointed at `e`. -/
def lruRemove (s : LRUCacheShard) (e : Nat) : LRUCacheShard :=
  let h := s.handle e
  let s := { s with
    lruLowPri := if s.lruLowPri = some e then s.lru.prevOf e else s.lruLowPri
    lru := s.lru.erase e
    lruUsage := s.lruUsage - h.charge }
  if h.inHighPriPool then { s with highPriPoolUsage := s.highPriPoolUsage - h.charge } else s

/-- One round of `MaintainPoolSize`: overflow the oldest entry of the high-priority pool,
the one after `lru_low_pri_`, to the low-priority pool. -/
def overflowHighPri (s : LRUCacheShard) (e : Nat) : LRUCacheShard :=
  { s.modify e (fun h => { h with inHighPriPool := false }) with
    lruLowPri := some e
    highPriPoolUsage := s.highPriPoolUsage - (s.handle e).charge }

/-- The loop of `MaintainPoolSize`: overflow while the high-priority pool is over its
capacity. The pool loses an entry each round, so the list's length is fuel enough; reaching
the sentinel is the source's `assert(lru_low_pri_ != &lru_)`. -/
def maintainPoolSizeLoop : Nat → LRUCacheShard → LRUCacheShard
  | 0, s => s
  | fuel + 1, s =>
    if s.highPriPoolCapacity.val < (Value.ofNat s.highPriPoolUsage.toNat : Double).val then
      match s.lru.nextOf s.lruLowPri with
      | none => s
      | some e => maintainPoolSizeLoop fuel (s.overflowHighPri e)
    else s

/-- `MaintainPoolSize`. -/
def maintainPoolSize (s : LRUCacheShard) : LRUCacheShard := maintainPoolSizeLoop s.lru.length s

/-- The high-priority branch of `LRU_Insert`: link `e` in at the head of the list, into the
high-priority pool. -/
def linkHighPri (s : LRUCacheShard) (e : Nat) : LRUCacheShard :=
  { s.modify e (fun h => { h with inHighPriPool := true }) with
    lru := s.lru ++ [e]
    highPriPoolUsage := s.highPriPoolUsage + (s.handle e).charge }

/-- The other branch of `LRU_Insert`: link `e` in at the head of the low-priority pool, just
after `lru_low_pri_`, and point `lru_low_pri_` at it. -/
def linkLowPri (s : LRUCacheShard) (e : Nat) : LRUCacheShard :=
  { s.modify e (fun h => { h with inHighPriPool := false }) with
    lru := s.lru.insertAfter s.lruLowPri e
    lruLowPri := some e }

/-- `LRU_Insert`. A high-priority entry may push the pool over its capacity, so
`MaintainPoolSize` follows it. -/
def lruInsert (s : LRUCacheShard) (e : Nat) : LRUCacheShard :=
  let s' :=
    if 0 < s.highPriPoolRatio.val ∧ (s.handle e).isHighPri then maintainPoolSize (s.linkHighPri e)
    else s.linkLowPri e
  { s' with lruUsage := s'.lruUsage + (s.handle e).charge }

/-- The block `EvictFromLRU`, `EraseUnRefEntries` and `Release` share: take the entry out of
the table and the cache, and drop the cache's reference to it. -/
def dropFromCache (s : LRUCacheShard) (e : Nat) : LRUCacheShard :=
  let s := { s with table := s.table.erase (s.handle e).key }
  let s := s.setInCache e false
  let s := (s.unref e).1
  { s with usage := s.usage - (s.handle e).charge }

/-- One round of the loops of `EvictFromLRU` and `EraseUnRefEntries`: take the oldest entry
off the list, then out of the cache. -/
def evictOldest (s : LRUCacheShard) (old : Nat) : LRUCacheShard :=
  (s.lruRemove old).dropFromCache old

/-- The loop of `EvictFromLRU` and `EraseUnRefEntries`: evict the oldest entry while the list
is not empty and `cond` holds, collecting the evicted entries. Each round shortens the list,
so its length is fuel enough. -/
def evictLoop (cond : LRUCacheShard → Bool) :
    Nat → LRUCacheShard → List Nat → LRUCacheShard × List Nat
  | 0, s, deleted => (s, deleted)
  | fuel + 1, s, deleted =>
    match s.lru with
    | [] => (s, deleted)
    | old :: _ =>
      if cond s then evictLoop cond fuel (s.evictOldest old) (deleted ++ [old]) else (s, deleted)

/-- `EvictFromLRU`: evict until `charge` more fits in the capacity, or the list is empty. -/
def evictFromLRU (s : LRUCacheShard) (charge : UInt64) : LRUCacheShard × List Nat :=
  evictLoop (fun s => s.capacity < s.usage + charge) s.lru.length s []

/-- `EraseUnRefEntries`: evict every entry of the list, then free them. -/
def eraseUnRefEntries (s : LRUCacheShard) : LRUCacheShard :=
  let (s, lastReferenceList) := evictLoop (fun _ => true) s.lru.length s []
  s.freeAll lastReferenceList

/-- `SetCapacity`. -/
def setCapacity (s : LRUCacheShard) (capacity : UInt64) : LRUCacheShard :=
  let s := { s with
    capacity
    highPriPoolCapacity := Value.ofNat capacity.toNat * s.highPriPoolRatio }
  let (s, lastReferenceList) := s.evictFromLRU 0
  s.freeAll lastReferenceList

/-- `SetStrictCapacityLimit`. -/
def setStrictCapacityLimit (s : LRUCacheShard) (strictCapacityLimit : Bool) : LRUCacheShard :=
  { s with strictCapacityLimit }

/-- `SetHighPriorityPoolRatio`. -/
def setHighPriorityPoolRatio (s : LRUCacheShard) (highPriPoolRatio : Double) : LRUCacheShard :=
  maintainPoolSize { s with
    highPriPoolRatio
    highPriPoolCapacity := Value.ofNat s.capacity.toNat * highPriPoolRatio }

/-- `Lookup`: a hit takes the entry off the list if only the cache held it, and hands out a
reference. -/
def lookup (s : LRUCacheShard) (key : List UInt8) : LRUCacheShard × Option Nat :=
  match s.table.lookup key with
  | none => (s, none)
  | some e =>
    let s := if (s.handle e).refs = 1 then s.lruRemove e else s
    (s.modify e fun h => { h with refs := h.refs + 1 }, some e)

/-- `Ref`. -/
def ref (s : LRUCacheShard) (e : Nat) : LRUCacheShard × Bool :=
  let s := if (s.handle e).inCache ∧ (s.handle e).refs = 1 then s.lruRemove e else s
  (s.modify e fun h => { h with refs := h.refs + 1 }, true)

/-- `Release`: drop the handle's reference. An entry that only the cache still holds is
erased when the cache is over capacity or `force_erase` asks for it, and otherwise goes
on the list. Answers whether the entry was freed. -/
def release (s : LRUCacheShard) (handle : Option Nat) (forceErase : Bool) :
    LRUCacheShard × Bool :=
  match handle with
  | none => (s, false)
  | some e =>
    let (s, lastReference) := s.unref e
    let s := if lastReference then { s with usage := s.usage - (s.handle e).charge } else s
    let (s, lastReference) :=
      if (s.handle e).refs = 1 ∧ (s.handle e).inCache then
        if s.capacity < s.usage ∨ forceErase then (s.dropFromCache e, true)
        else (s.lruInsert e, lastReference)
      else (s, lastReference)
    (if lastReference then s.free e else s, lastReference)

/-- The inner part of `Insert` for the entry `old` that the new one replaced in the table:
it leaves the cache, and is freed when that was its last reference. -/
def replaceOld (s : LRUCacheShard) (old : Option Nat) (lastReferenceList : List Nat) :
    LRUCacheShard × List Nat :=
  match old with
  | none => (s, lastReferenceList)
  | some old =>
    let s := s.setInCache old false
    let (s, lastReference) := s.unref old
    if lastReference then
      (({ s with usage := s.usage - (s.handle old).charge }).lruRemove old,
        lastReferenceList ++ [old])
    else (s, lastReferenceList)

/-- `Insert`. Without a handle the cache holds the one reference, and the entry goes on the
list; with one, the caller holds the second. When the entries that cannot be evicted leave no
room, the entry is dropped: freed at once without a handle, or refused with `Incomplete` under
a strict limit. The answer is the status and the handle. -/
def insert (s : LRUCacheShard) (key : List UInt8) (charge : UInt64) (withHandle : Bool)
    (priority : Cache.Priority) : LRUCacheShard × Status × Option Nat :=
  let e : LRUHandle :=
    { key, charge
      refs := if withHandle then 2 else 1
      inCache := true
      isHighPri := priority == .high
      inHighPriPool := false }
  let (s, lastReferenceList) := s.evictFromLRU charge
  if s.capacity < s.usage - s.lruUsage + charge ∧
      (s.strictCapacityLimit = true ∨ withHandle = false) then
    if withHandle = false then
      let (heap, id) := s.heap.alloc e
      ({ s with heap }.freeAll (lastReferenceList ++ [id]), .ok, none)
    else
      (s.freeAll lastReferenceList, .incomplete "Insert failed due to LRU cache being full.",
        none)
  else
    let (heap, id) := s.heap.alloc e
    let old := s.table.lookup key
    let s := { s with heap, table := s.table.insert key id, usage := s.usage + charge }
    let (s, lastReferenceList) := s.replaceOld old lastReferenceList
    let s := if withHandle then s else s.lruInsert id
    (s.freeAll lastReferenceList, .ok, if withHandle then some id else none)

/-- `Erase`: take the key's entry out of the table; it is freed if the cache held the last
reference. -/
def erase (s : LRUCacheShard) (key : List UInt8) : LRUCacheShard :=
  match s.table.lookup key with
  | none => s
  | some e =>
    let s := { s with table := s.table.erase key }
    let (s, lastReference) := s.unref e
    let s := if lastReference then { s with usage := s.usage - (s.handle e).charge } else s
    let s := if lastReference ∧ (s.handle e).inCache then s.lruRemove e else s
    let s := s.setInCache e false
    if lastReference then s.free e else s

/-- `GetPinnedUsage`: the usage of the entries that are not on the list. -/
def getPinnedUsage (s : LRUCacheShard) : UInt64 := s.usage - s.lruUsage

end LRUCacheShard

/-! ## Runs of the shard

A caller's calls, and the handles it holds between them. -/

/-- The calls a caller makes on a shard. `ref` and `release` name a handle the caller
holds. -/
inductive ShardOp where
  | insert (key : List UInt8) (charge : UInt64) (withHandle : Bool) (priority : Cache.Priority)
  | lookup (key : List UInt8)
  | ref (e : Nat)
  | release (e : Nat) (forceErase : Bool)
  | erase (key : List UInt8)
  | setCapacity (capacity : UInt64)
  | setHighPriorityPoolRatio (ratio : Double)
  | setStrictCapacityLimit (strictCapacityLimit : Bool)
  | eraseUnRefEntries

/-- A shard and the handles its callers hold, one list entry per handle. -/
structure ShardState where
  shard : LRUCacheShard
  handles : List Nat

namespace ShardState

/-- The state after a call: the handles a call returns are added, a released one goes. -/
def apply (w : ShardState) : ShardOp → ShardState
  | .insert key charge withHandle priority =>
    let (shard, _, handle) := w.shard.insert key charge withHandle priority
    ⟨shard, handle.toList ++ w.handles⟩
  | .lookup key =>
    let (shard, handle) := w.shard.lookup key
    ⟨shard, handle.toList ++ w.handles⟩
  | .ref e => ⟨(w.shard.ref e).1, e :: w.handles⟩
  | .release e forceErase => ⟨(w.shard.release (some e) forceErase).1, w.handles.erase e⟩
  | .erase key => ⟨w.shard.erase key, w.handles⟩
  | .setCapacity capacity => ⟨w.shard.setCapacity capacity, w.handles⟩
  | .setHighPriorityPoolRatio ratio => ⟨w.shard.setHighPriorityPoolRatio ratio, w.handles⟩
  | .setStrictCapacityLimit b => ⟨w.shard.setStrictCapacityLimit b, w.handles⟩
  | .eraseUnRefEntries => ⟨w.shard.eraseUnRefEntries, w.handles⟩

/-- The calls a caller may make: `Ref` and `Release` on a handle it holds, and a pool ratio
in the range `NewLRUCache` accepts. -/
def Valid (w : ShardState) : ShardOp → Prop
  | .ref e => e ∈ w.handles
  | .release e _ => e ∈ w.handles
  | .setHighPriorityPoolRatio ratio => 0 ≤ ratio.val ∧ ratio.val ≤ 1
  | _ => True

/-- The states a new shard reaches under valid calls. -/
inductive Reachable : ShardState → Prop where
  | create : Reachable ⟨LRUCacheShard.create, []⟩
  | step {w : ShardState} {op : ShardOp} : Reachable w → w.Valid op → Reachable (w.apply op)

/-- The handles a call leaves on an entry fit its `refs`, a `uint32_t` that also counts the
cache's reference: no `Lookup` or `Ref` takes an entry to `2^32 - 2` handles. -/
def RefsFit (w : ShardState) : ShardOp → Prop
  | .lookup key => ∀ e, w.shard.table.lookup key = some e → w.handles.count e + 2 < 2 ^ 32
  | .ref e => w.handles.count e + 2 < 2 ^ 32
  | _ => True

/-- The states a new shard reaches under valid calls whose handles fit `refs`. -/
inductive FitReachable : ShardState → Prop where
  | create : FitReachable ⟨LRUCacheShard.create, []⟩
  | step {w : ShardState} {op : ShardOp} : FitReachable w → w.Valid op → w.RefsFit op →
      FitReachable (w.apply op)

end ShardState

end RocksDB
