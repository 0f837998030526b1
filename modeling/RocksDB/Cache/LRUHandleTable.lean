import Mathlib
import RocksDB.Lib.Chains
import RocksDB.Lib.Fuel

/-!
# The hash table of the LRU cache

`LRUHandleTable` of `cache/lru_cache.cc`: an array `list_` of `length_` buckets, each the
head of a chain of handles linked through `next_hash`, and the count `elems_`. A chain is
a list here, and a pointer into a chain (`FindPointer`'s `LRUHandle**`) is a bucket and a
place in its chain. Handles are of any type: the table reads only their key and hash.

The table stands for a map from (key, hash) to the handle last inserted under it
(`Entries`). `Inv` says that it does, and that each handle sits in the chain of
`hash & (length_ - 1)` with `length_` a power of two from 16 to `2^31`; every operation
keeps it while the map holds at most `2^31` entries.

`Resize` doubles a `uint32_t` from 16 while it is below `elems_ * 1.5`. Past `2^31`
entries the doubling wraps to 0, which stays below, and the loop never ends.

## Main results

* `Refines.insert_replace`, `Refines.insert_append`, `Refines.unlink` and
  `Refines.resize`: what each change of the chains does to the map the table stands for.
* `Inv.insert` and `Inv.remove`: each operation keeps the invariant and answers what the
  map answers; `Inv.run`: so does every run whose map never holds more than `2^31`
  entries.
* `resizeLoop_eq_none` and `Inv.insert_eq_none`: from `2^31 + 1` elements `Resize` never
  returns.
-/

namespace RocksDB

/-- `LRUHandleTable`: the chains of the `length_` buckets of `list_`, and `elems_`. -/
structure LRUHandleTable (H : Type) where
  list : List (List H)
  length : UInt32
  elems : UInt32

namespace LRUHandleTable

variable {H : Type} (key : H → List UInt8) (hash : H → UInt32)

/-- The bucket `hash & (length - 1)`. -/
def bucket (length h : UInt32) : Nat := (h &&& (length - 1)).toNat

/-- The chain of bucket `i`. -/
def chain (t : LRUHandleTable H) (i : Nat) : List H := t.list.getD i []

/-- The test of `FindPointer`'s loop: the handle has hash `h` and key `k`. -/
def sameKey (k : List UInt8) (h : UInt32) (x : H) : Bool := hash x == h && key x == k

/-- `FindPointer(key, hash)`: the bucket of `hash`, and the place in its chain of the first
handle with this hash and key, or the place past the chain's end. -/
def findPointer (t : LRUHandleTable H) (k : List UInt8) (h : UInt32) : Nat × Nat :=
  let i := bucket t.length h
  (i, (t.chain i).findIdx (sameKey key hash k h))

/-- `Lookup(key, hash)`: the handle at the place `FindPointer` finds. -/
def lookup (t : LRUHandleTable H) (k : List UInt8) (h : UInt32) : Option H :=
  let (i, j) := findPointer key hash t k h
  (t.chain i)[j]?

/-- The loop of `Resize`: `new_length` doubles while it is below `elems_ * 1.5`. Both sides
are exact as `double`s, so the test is `2 * new_length < 3 * elems_`; `none` when the fuel
runs out. -/
def resizeLoop (elems : UInt32) : Nat → UInt32 → Option UInt32
  | 0, _ => none
  | fuel + 1, newLength =>
    if 2 * newLength.toNat < 3 * elems.toNat then resizeLoop elems fuel (newLength * 2)
    else some newLength

/-- The walk of `Resize` over the old buckets: each handle of each chain, in turn, pushed on
the front of its chain in the new array of `newLength` empty buckets. -/
def rehash (list : List (List H)) (newLength : UInt32) : List (List H) :=
  list.foldl (fun newList c =>
      c.foldl (fun newList x => newList.modify (bucket newLength (hash x)) (x :: ·)) newList)
    (List.replicate newLength.toNat [])

/-- `Resize`. The loop ends within 29 passes if it ends at all (16 doubled 28 times
is `2^32`, which wraps to 0), so 32 passes of fuel lose nothing. -/
def resize (t : LRUHandleTable H) : Option (LRUHandleTable H) :=
  (resizeLoop t.elems 32 16).map fun newLength =>
    { t with list := rehash hash t.list newLength, length := newLength }

/-- The constructor: no buckets, then `Resize`. -/
def create : Option (LRUHandleTable H) := resize hash ⟨[], 0, 0⟩

/-- `Insert(h)`: `x` takes the place `FindPointer` finds, with the successor of the handle
there (`old`), or at the chain's end; a new entry counts one more element and resizes the
table when the elements outnumber the buckets. The handle replaced is the answer; `none`
when `Resize` does not return. -/
def insert (t : LRUHandleTable H) (x : H) : Option (LRUHandleTable H × Option H) :=
  let (i, j) := findPointer key hash t (key x) (hash x)
  let ch := t.chain i
  let old := ch[j]?
  let t := { t with list := t.list.set i (ch.take j ++ [x] ++ ch.drop (j + 1)) }
  match old with
  | some _ => some (t, old)
  | none =>
    let t := { t with elems := t.elems + 1 }
    if t.elems > t.length then (resize hash t).map (·, none) else some (t, none)

/-- `Remove(key, hash)`: unlink the handle `FindPointer` finds, if any, and count one
element less. The handle unlinked is the answer. -/
def remove (t : LRUHandleTable H) (k : List UInt8) (h : UInt32) :
    LRUHandleTable H × Option H :=
  let (i, j) := findPointer key hash t k h
  let ch := t.chain i
  match ch[j]? with
  | none => (t, none)
  | some r => ({ t with list := t.list.set i (ch.eraseIdx j), elems := t.elems - 1 }, some r)

/-- The operations on the table. -/
inductive Op (H : Type) where
  | insert (x : H)
  | remove (k : List UInt8) (h : UInt32)

/-- One operation, with the handle it answers. -/
def step (t : LRUHandleTable H) : Op H → Option (LRUHandleTable H × Option H)
  | .insert x => insert key hash t x
  | .remove k h => some (remove key hash t k h)

/-- A run of operations, with the answer of each; `none` when one does not return. -/
def run (t : LRUHandleTable H) : List (Op H) → Option (LRUHandleTable H × List (Option H))
  | [] => some (t, [])
  | o :: os => (step key hash t o).bind fun (t, r) =>
    (run t os).map fun (t, rs) => (t, r :: rs)

/-! ### The map the table stands for -/

/-- A map from (key, hash) to a handle. -/
abbrev Entries (H : Type) := AList fun _ : List UInt8 × UInt32 => H

/-- An operation on the map, with the entry it answers: the one replaced or removed. -/
def Op.apply (m : Entries H) : Op H → Entries H × Option H
  | .insert x => (m.insert (key x, hash x) x, m.lookup (key x, hash x))
  | .remove k h => (m.erase (k, h), m.lookup (k, h))

/-- A run of operations on the map, with the answer of each. -/
def applyAll (m : Entries H) : List (Op H) → Entries H × List (Option H)
  | [] => (m, [])
  | o :: os =>
    let (m, r) := o.apply key hash m
    let (m, rs) := applyAll m os
    (m, r :: rs)

/-! ### Searching a chain -/

variable {key hash}

theorem sameKey_eq_true {k : List UInt8} {h : UInt32} {x : H} :
    sameKey key hash k h x = true ↔ (key x, hash x) = (k, h) := by
  simp [sameKey, and_comm]

/-- A handle that matches one (key, hash) fails every other. -/
theorem sameKey_eq_false_of_ne {k k' : List UInt8} {h h' : UInt32} {x : H}
    (hne : (k, h) ≠ (k', h')) (hx : sameKey key hash k' h' x = true) :
    sameKey key hash k h x = false := by
  rw [sameKey_eq_true] at hx
  cases hkh : sameKey key hash k h x
  · rfl
  · exact absurd ((sameKey_eq_true.mp hkh).symm.trans hx) hne

/-- A handle of another bucket fails every search of this one. -/
theorem sameKey_eq_false_of_bucket_ne {n : UInt32} {k : List UInt8} {h : UInt32} {x : H}
    (hb : bucket n (hash x) ≠ bucket n h) : sameKey key hash k h x = false := by
  cases hkh : sameKey key hash k h x
  · rfl
  · rw [sameKey_eq_true, Prod.mk.injEq] at hkh
    exact absurd (congrArg (bucket n) hkh.2) hb

theorem bucket_lt {n : UInt32} (hn : 0 < n.toNat) (h : UInt32) : bucket n h < n.toNat := by
  have h1 : (1 : UInt32) ≤ n := UInt32.le_iff_toNat_le.mpr (by simp only [UInt32.reduceToNat]; omega)
  have hle : h.toNat &&& (n - 1).toNat ≤ (n - 1).toNat := Nat.and_le_right
  rw [bucket, UInt32.toNat_and]
  rw [UInt32.toNat_sub_of_le _ _ h1] at hle ⊢
  simp only [UInt32.reduceToNat] at hle ⊢
  omega

/-- `Lookup` is the search of the chain of the hash's bucket. -/
theorem lookup_eq (t : LRUHandleTable H) (k : List UInt8) (h : UInt32) :
    lookup key hash t k h = (t.chain (bucket t.length h)).find? (sameKey key hash k h) := by
  simp [lookup, findPointer, List.find?_eq_getElem?_findIdx]

/-! ### The loop of `Resize` -/

/-- From a power of two from 16 to `2^31`, while `elems_ * 1.5` is at most `2^32`, the loop
ends with a power of two from 16 to `2^31` at least `elems_ * 1.5`. The induction is on
the fuel, the exponent going up by one a pass. -/
theorem resizeLoop_spec {elems : UInt32} (he : 3 * elems.toNat ≤ 2 ^ 32) :
    ∀ fuel (n : UInt32) j, n.toNat = 2 ^ j → 4 ≤ j → j ≤ 31 → 32 ≤ fuel + j →
      ∃ n', resizeLoop elems fuel n = some n' ∧
        (∃ j', 4 ≤ j' ∧ j' ≤ 31 ∧ n'.toNat = 2 ^ j') ∧ 3 * elems.toNat ≤ 2 * n'.toNat := by
  intro fuel
  induction fuel with
  | zero => intro n j _ _ hj hf; omega
  | succ fuel ih =>
    intro n j hn hj4 hj31 hf
    by_cases hlt : 2 * n.toNat < 3 * elems.toNat
    · -- `new_length` doubles; below `elems_ * 1.5`, it was at most `2^30`
      have hj : j + 1 ≤ 31 := by
        have h2 : 2 ^ (j + 1) < 2 ^ 32 := by rw [pow_succ]; omega
        have := (Nat.pow_lt_pow_iff_right (by norm_num : 1 < 2)).mp h2
        omega
      have hn2 : (n * 2).toNat = 2 ^ (j + 1) := by
        have : 2 ^ (j + 1) < 2 ^ 32 := Nat.pow_lt_pow_right (by norm_num) (by omega)
        simp only [UInt32.toNat_mul, hn, UInt32.reduceToNat, ← pow_succ]
        exact Nat.mod_eq_of_lt this
      obtain ⟨n', hrun, hn'⟩ := ih (n * 2) (j + 1) hn2 (by omega) hj (by omega)
      exact ⟨n', by rw [resizeLoop, if_pos hlt]; exact hrun, hn'⟩
    · exact ⟨n, by rw [resizeLoop, if_neg hlt], ⟨j, hj4, hj31, hn⟩, by omega⟩

/-- **`Resize` does not return past `2^31` elements.** Above `2^32`, `elems_ * 1.5` is above
every `new_length`: the powers of two up to `2^31`, and 0 once the doubling wraps. -/
theorem resizeLoop_eq_none {elems : UInt32} (he : 2 ^ 32 < 3 * elems.toNat) (fuel : Nat) :
    resizeLoop elems fuel 16 = none := by
  refine Fuel.run_eq_none_of_step (fun fuel n => resizeLoop elems fuel n)
    (fun n => ∃ j, 4 ≤ j ∧ n.toNat = 2 ^ j % 2 ^ 32) (fun _ => rfl) ?_ fuel 16 ⟨4, le_rfl, rfl⟩
  rintro n ⟨j, hj, hn⟩
  have hle : 2 * n.toNat ≤ 2 ^ 32 := by
    rw [hn]
    rcases Nat.lt_or_ge j 32 with hj32 | hj32
    · rw [Nat.mod_eq_of_lt (Nat.pow_lt_pow_right (by norm_num) hj32)]
      have := Nat.pow_le_pow_right (n := 2) (by norm_num) (show j ≤ 31 by omega)
      omega
    · rw [Nat.mod_eq_zero_of_dvd (Nat.pow_dvd_pow 2 hj32)]
      omega
  refine ⟨n * 2, ⟨j + 1, by omega, ?_⟩, fun fuel => ?_⟩
  · simp only [UInt32.toNat_mul, hn, UInt32.reduceToNat, Nat.mod_mul_mod, ← pow_succ]
  · rw [resizeLoop, if_pos (by omega)]

/-! ### The invariant -/

variable (key hash)

/-- The table stands for the map `m`: `length_` is a power of two from 16 to `2^31` with as
many buckets; each handle sits in the chain of its hash's bucket; no two handles share a
(key, hash); the search of a bucket's chain finds the map's entry; and `elems_` counts the
handles and the map's keys. -/
structure Refines (t : LRUHandleTable H) (m : Entries H) : Prop where
  length_pow : ∃ j, 4 ≤ j ∧ j ≤ 31 ∧ t.length.toNat = 2 ^ j
  length_list : t.list.length = t.length.toNat
  placed : ∀ i, ∀ x ∈ t.chain i, bucket t.length (hash x) = i
  nodup : (t.list.flatten.map fun x => (key x, hash x)).Nodup
  find : ∀ k h, (t.chain (bucket t.length h)).find? (sameKey key hash k h) = m.lookup (k, h)
  total : t.list.flatten.length = t.elems.toNat
  elems : t.elems.toNat = m.keys.length

/-- The invariant between operations: the table stands for `m`, with no more elements than
buckets. -/
structure Inv (t : LRUHandleTable H) (m : Entries H) : Prop extends Refines key hash t m where
  elems_le : t.elems.toNat ≤ t.length.toNat

variable {key hash} {t : LRUHandleTable H} {m : Entries H}

theorem Refines.length_le (hr : t.Refines key hash m) : t.length.toNat ≤ 2 ^ 31 := by
  obtain ⟨j, -, hj, hlen⟩ := hr.length_pow
  rw [hlen]
  exact Nat.pow_le_pow_right (by norm_num) hj

theorem Refines.bucket_lt (hr : t.Refines key hash m) (h : UInt32) :
    bucket t.length h < t.list.length := by
  obtain ⟨j, -, -, hlen⟩ := hr.length_pow
  rw [hr.length_list]
  exact LRUHandleTable.bucket_lt (by rw [hlen]; positivity) h

/-- `Lookup` answers the map's entry. -/
theorem Refines.lookup (hr : t.Refines key hash m) (k : List UInt8) (h : UInt32) :
    lookup key hash t k h = m.lookup (k, h) := by
  rw [lookup_eq, hr.find]

/-- Every stored handle is reachable from the bucket of its hash. -/
theorem Refines.mem_chain_bucket (hr : t.Refines key hash m) {x : H} (hx : x ∈ t.list.flatten) :
    x ∈ t.chain (bucket t.length (hash x)) := by
  obtain ⟨i, hi⟩ := List.exists_mem_getD_of_mem_flatten hx
  rwa [hr.placed i x hi]

/-- The handles of chain `i` and those of the other chains: all of them. -/
theorem perm_flatten_chain {i : Nat} (hi : i < t.list.length) :
    t.list.flatten.Perm (t.chain i ++ (t.list.set i []).flatten) :=
  List.perm_flatten_getD hi

theorem Refines.nodup_chain_append (hr : t.Refines key hash m) {i : Nat} (hi : i < t.list.length) :
    ((t.chain i ++ (t.list.set i []).flatten).map fun x => (key x, hash x)).Nodup :=
  ((perm_flatten_chain hi).map _).nodup_iff.mp hr.nodup

theorem Refines.length_chain_add (hr : t.Refines key hash m) {i : Nat} (hi : i < t.list.length) :
    (t.chain i).length + (t.list.set i []).flatten.length = t.elems.toNat := by
  rw [← List.length_append, ← hr.total]
  exact (perm_flatten_chain hi).length_eq.symm

/-- A bucket's chain holds no two handles with one (key, hash). -/
theorem Refines.nodup_chain (hr : t.Refines key hash m) (i : Nat) :
    ((t.chain i).map fun x => (key x, hash x)).Nodup := by
  by_cases hi : i < t.list.length
  · have h := hr.nodup_chain_append hi
    rw [List.map_append] at h
    exact (List.nodup_append.mp h).1
  · simp [chain, List.getElem?_eq_none (not_lt.mp hi)]

/-- `elems_ + 1` does not wrap: the elements are at most the buckets, at most `2^31`. -/
theorem Refines.toNat_elems_add_one (hr : t.Refines key hash m)
    (hle : t.elems.toNat ≤ t.length.toNat) : (t.elems + 1).toNat = t.elems.toNat + 1 := by
  have := hr.length_le
  rw [UInt32.toNat_add]
  simp only [UInt32.reduceToNat]
  omega

/-- Chain `j` after chain `i` is replaced. -/
theorem chain_set {i : Nat} (hi : i < t.list.length) (c : List H) (e : UInt32) (j : Nat) :
    ({ t with list := t.list.set i c, elems := e } : LRUHandleTable H).chain j =
      if i = j then c else t.chain j :=
  List.getD_set_of_lt hi c j

/-- **One chain replaced.** The table after the chain of bucket `i` is replaced by `c'` and
`elems_` by `e'` stands for `m'` when the new chain holds handles of bucket `i` only, the
handles stay apart, the new chain's search finds `m'`'s entries of bucket `i`, `m'` agrees
with `m` on other buckets, and `e'` counts both the handles and `m'`'s keys. -/
theorem Refines.setChain (hr : t.Refines key hash m) {i : Nat} (hi : i < t.list.length)
    {c' : List H} {m' : Entries H} {e' : UInt32}
    (hplaced : ∀ x ∈ c', bucket t.length (hash x) = i)
    (hnodup : ((c' ++ (t.list.set i []).flatten).map fun x => (key x, hash x)).Nodup)
    (hfind : ∀ k h, bucket t.length h = i →
      c'.find? (sameKey key hash k h) = m'.lookup (k, h))
    (hframe : ∀ k h, bucket t.length h ≠ i → m'.lookup (k, h) = m.lookup (k, h))
    (htotal : c'.length + (t.list.set i []).flatten.length = e'.toNat)
    (helems : e'.toNat = m'.keys.length) :
    ({ t with list := t.list.set i c', elems := e' } : LRUHandleTable H).Refines key hash m' := by
  have hperm := List.perm_flatten_set hi c'
  refine ⟨hr.length_pow, by simp [hr.length_list], ?_, ?_, ?_, ?_, helems⟩
  · intro j x hx
    rw [chain_set hi] at hx
    split_ifs at hx with hij
    · exact hij ▸ hplaced x hx
    · exact hr.placed j x hx
  · exact ((hperm.map _).nodup_iff).mpr hnodup
  · intro k h
    rw [chain_set hi]
    split_ifs with hb
    · exact hfind k h hb.symm
    · rw [hframe k h (Ne.symm hb), hr.find]
  · rw [hperm.length_eq, List.length_append, htotal]

/-! ### `Resize` -/

variable (hash) in
/-- The walk of `Resize` pushes the handles of all chains, in order. -/
theorem rehash_eq (list : List (List H)) (n : UInt32) :
    rehash hash list n =
      List.pushAll (fun x => bucket n (hash x)) (List.replicate n.toNat []) list.flatten := by
  rw [rehash, List.pushAll, List.foldl_flatten]

variable (hash) in
theorem length_rehash (list : List (List H)) (n : UInt32) :
    (rehash hash list n).length = n.toNat := by
  rw [rehash_eq, List.length_pushAll, List.length_replicate]

section Rehash

variable (hash) {list : List (List H)} {n : UInt32} (hn : 0 < n.toNat)
include hn

/-- After the walk, each new chain holds the handles of its new bucket, the last walked
first. -/
theorem rehash_getD (b : Nat) :
    (rehash hash list n).getD b [] =
      (list.flatten.filter fun x => bucket n (hash x) = b).reverse := by
  have hf : ∀ x ∈ list.flatten,
      bucket n (hash x) < (List.replicate n.toNat ([] : List H)).length := by
    intro x _
    simpa using bucket_lt hn (hash x)
  rw [rehash_eq, List.getD_pushAll _ hf]
  -- the new array starts with empty chains
  have h0 : (List.replicate n.toNat ([] : List H)).getD b [] = [] := by
    simp only [List.getD_eq_getElem?_getD, List.getElem?_replicate]
    split_ifs <;> rfl
  rw [h0, List.append_nil]

/-- The walk keeps the handles. -/
theorem perm_flatten_rehash : (rehash hash list n).flatten.Perm list.flatten := by
  have hf : ∀ x ∈ list.flatten,
      bucket n (hash x) < (List.replicate n.toNat ([] : List H)).length := by
    intro x _
    simpa using bucket_lt hn (hash x)
  rw [rehash_eq]
  refine (List.perm_flatten_pushAll _ hf).trans ?_
  rw [List.flatten_replicate_nil, List.append_nil]
  exact List.reverse_perm _

end Rehash

/-- **`Resize` keeps the map.** While `elems_ * 1.5` is at most `2^32` the loop ends, and the
walk leaves each handle in the chain of its new bucket: the table stands for the same map,
with fewer elements than buckets. -/
theorem Refines.resize (hr : t.Refines key hash m) (he : 3 * t.elems.toNat ≤ 2 ^ 32) :
    ∃ t', resize hash t = some t' ∧ t'.Inv key hash m := by
  obtain ⟨n, hloop, ⟨j, hj4, hj31, hn⟩, h3⟩ :=
    resizeLoop_spec he 32 16 4 rfl le_rfl (by norm_num) (by norm_num)
  have hpos : 0 < n.toNat := by rw [hn]; positivity
  have hperm : (rehash hash t.list n).flatten.Perm t.list.flatten := perm_flatten_rehash hash hpos
  refine ⟨⟨rehash hash t.list n, n, t.elems⟩, by rw [LRUHandleTable.resize, hloop]; rfl,
    ⟨⟨⟨j, hj4, hj31, hn⟩, length_rehash hash t.list n, ?placed, ?nodup, ?find, ?total, hr.elems⟩,
      by simp only; omega⟩⟩
  case placed =>
    intro b x hx
    simp only [chain, rehash_getD hash hpos, List.mem_reverse, List.mem_filter,
      decide_eq_true_eq] at hx
    exact hx.2
  case nodup =>
    rw [(hperm.map _).nodup_iff]
    exact hr.nodup
  case find =>
    intro k h
    have hkey : ∀ a, sameKey key hash k h a = true → (key a, hash a) = (k, h) :=
      fun a ha => sameKey_eq_true.mp ha
    have hsub := hr.nodup.sublist ((List.filter_sublist (l := t.list.flatten)
      (p := fun x => bucket n (hash x) = bucket n h)).map fun x => (key x, hash x))
    -- the filter passes every handle of hash `h`; the old chains other than `h`'s hold none
    have hpass : ∀ a, sameKey key hash k h a = true →
        decide (bucket n (hash a) = bucket n h) = true := fun a ha => by
      simp [((Prod.mk.injEq ..).mp (hkey a ha)).2]
    simp only [chain, rehash_getD hash hpos, List.find?_reverse_of_nodup hsub hkey,
      List.find?_filter_of_imp hpass]
    rw [List.find?_flatten_of_confined (i := bucket t.length h)
      fun j' hj' a ha => sameKey_eq_false_of_bucket_ne ((hr.placed j' a ha).trans_ne hj')]
    exact hr.find k h
  case total => simp [hperm.length_eq, hr.total]

/-! ### `Insert` -/

/-- Two hashes of different buckets differ, and so do the (key, hash) pairs they are in. -/
theorem ne_of_bucket_ne {n h h' : UInt32} (k k' : List UInt8) (hb : bucket n h ≠ bucket n h') :
    (k, h) ≠ (k', h') :=
  fun he => hb (by rw [((Prod.mk.injEq ..).mp he).2])

/-- Below `2^31`, a power of two is at most `2^30`: one element more, times 1.5, is at most
`2^32`. -/
theorem three_mul_succ_le {j : Nat} (h : 2 ^ j < 2 ^ 31) : 3 * (2 ^ j + 1) ≤ 2 ^ 32 := by
  have hj : j ≤ 30 := by
    have := (Nat.pow_lt_pow_iff_right (by norm_num : 1 < 2)).mp h
    omega
  have := Nat.pow_le_pow_right (n := 2) (by norm_num) hj
  omega

section Insert

/- `Insert(x)` splices at bucket `i` of `x`'s hash, whose chain is `ch`: `c'` is the chain
with `x` in the place where the search for `x`'s (key, hash) stops. -/
variable {x y : H} {i : Nat} {ch c' : List H} (hi : bucket t.length (hash x) = i)
  (hch : t.chain i = ch)
  (hc' : c' = ch.take (ch.findIdx (sameKey key hash (key x) (hash x))) ++ [x] ++
    ch.drop (ch.findIdx (sameKey key hash (key x) (hash x)) + 1))
include hi hch hc'

/-- `Insert(x)` where the chain holds `y` under `x`'s (key, hash): `x` takes its place. -/
theorem insert_of_find?_eq_some (hy : ch.find? (sameKey key hash (key x) (hash x)) = some y) :
    insert key hash t x = some ({ t with list := t.list.set i c' }, some y) := by
  subst hi hch hc'
  simp only [LRUHandleTable.insert, findPointer]
  rw [← List.find?_eq_getElem?_findIdx, hy]

/-- `Insert(x)` where the chain holds nothing under `x`'s (key, hash): one element more, and
`Resize` when the elements then outnumber the buckets. -/
theorem insert_of_find?_eq_none (hy : ch.find? (sameKey key hash (key x) (hash x)) = none) :
    insert key hash t x =
      if t.elems + 1 > t.length then
        (resize hash { t with list := t.list.set i c', elems := t.elems + 1 }).map (·, none)
      else some ({ t with list := t.list.set i c', elems := t.elems + 1 }, none) := by
  subst hi hch hc'
  simp only [LRUHandleTable.insert, findPointer]
  rw [← List.find?_eq_getElem?_findIdx, hy]

theorem Refines.placed_splice (hr : t.Refines key hash m) :
    ∀ y ∈ c', bucket t.length (hash y) = i := by
  intro y hy
  rw [hc', List.mem_append, List.mem_append, List.mem_singleton] at hy
  rcases hy with (hy | rfl) | hy
  · exact hr.placed i y (hch ▸ List.mem_of_mem_take hy)
  · exact hi
  · exact hr.placed i y (hch ▸ List.mem_of_mem_drop hy)

omit hi in
/-- The spliced chain's searches find `x` under its own (key, hash), and under every other
what the old chain finds. -/
theorem Refines.find?_splice (hr : t.Refines key hash m) (k : List UInt8) (h : UInt32)
    (hb : bucket t.length h = i) :
    c'.find? (sameKey key hash k h) = (m.insert (key x, hash x) x).lookup (k, h) := by
  rw [hc']
  by_cases hkh : (k, h) = (key x, hash x)
  · obtain ⟨rfl, rfl⟩ := Prod.mk.inj hkh
    rw [AList.lookup_insert]
    exact List.find?_splice_findIdx_self (sameKey_eq_true.mpr rfl)
  · rw [AList.lookup_insert_ne hkh, ← hr.find k h, hb, hch]
    refine List.find?_splice_findIdx (fun a _ ha => sameKey_eq_false_of_ne hkh ha) ?_
    intro a ha
    rw [List.mem_singleton.mp ha]
    exact sameKey_eq_false_of_ne hkh (sameKey_eq_true.mpr rfl)

/-- **`Insert` over the handle found.** `x` takes the place of `y`, the handle with its
(key, hash): the keys stored and their count stay. -/
theorem Refines.insert_replace (hr : t.Refines key hash m)
    (hy : ch.find? (sameKey key hash (key x) (hash x)) = some y) :
    ({ t with list := t.list.set i c' } : LRUHandleTable H).Refines key hash
      (m.insert (key x, hash x) x) := by
  set q := sameKey key hash (key x) (hash x)
  have hib : i < t.list.length := hi ▸ hr.bucket_lt _
  have hj : ch.findIdx q < ch.length :=
    List.findIdx_lt_length_of_exists ⟨y, List.mem_of_find?_eq_some hy, List.find?_some hy⟩
  have hset : c' = ch.set (ch.findIdx q) x := by
    rw [List.set_eq_take_append_cons_drop, if_pos hj, hc', List.append_assoc,
      List.singleton_append]
  have hkeys : (c'.map fun x => (key x, hash x)) = ch.map fun x => (key x, hash x) := by
    have hx : (key ch[ch.findIdx q], hash ch[ch.findIdx q]) = (key x, hash x) :=
      sameKey_eq_true.mp (List.findIdx_getElem (w := hj))
    have hj' : ch.findIdx q < (ch.map fun x => (key x, hash x)).length := by simpa using hj
    rw [hset, List.map_set, ← hx, ← List.getElem_map (fun x => (key x, hash x)) (h := hj'),
      List.set_getElem_self]
  have hmem : (key x, hash x) ∈ m :=
    AList.lookup_isSome.mp (by rw [← hr.find, hi, hch, hy]; rfl)
  refine hr.setChain hib (hr.placed_splice hi hch hc') ?_ (hr.find?_splice hch hc')
    (fun k h hb => AList.lookup_insert_ne (ne_of_bucket_ne k (key x) (by rwa [hi]))) ?_ ?_
  · rw [List.map_append, hkeys, ← List.map_append, ← hch]
    exact hr.nodup_chain_append hib
  · rw [hset, List.length_set, ← hch]
    exact hr.length_chain_add hib
  · rw [hr.elems, AList.length_keys_insert_of_mem hmem]

/-- **`Insert` past the chain's end.** No handle had `x`'s (key, hash): `x` is one handle
and one key more. -/
theorem Refines.insert_append (hr : t.Refines key hash m) (hle : t.elems.toNat ≤ t.length.toNat)
    (hy : ch.find? (sameKey key hash (key x) (hash x)) = none) :
    ({ t with list := t.list.set i c', elems := t.elems + 1 } : LRUHandleTable H).Refines
      key hash (m.insert (key x, hash x) x) := by
  have hib : i < t.list.length := hi ▸ hr.bucket_lt _
  have hnone : ∀ a ∈ ch, sameKey key hash (key x) (hash x) a = false := fun a ha => by
    simpa using List.find?_eq_none.mp hy a ha
  have happ : c' = ch ++ [x] := by
    rw [hc', List.findIdx_eq_length_of_false hnone, List.take_length,
      List.drop_of_length_le (by omega), List.append_nil]
  have hnotmem : (key x, hash x) ∉ m := fun hm => by
    rw [← AList.lookup_isSome, ← hr.find, hi, hch, hy] at hm
    cases hm
  -- no stored handle has `x`'s (key, hash): it would sit in `x`'s chain
  have hfresh : (key x, hash x) ∉
      (ch ++ (t.list.set i []).flatten).map fun x => (key x, hash x) := by
    rw [← hch, ← ((perm_flatten_chain hib).map _).mem_iff]
    intro hm
    obtain ⟨a, ha, hga⟩ := List.mem_map.mp hm
    have hach : a ∈ ch := by
      have := hr.mem_chain_bucket ha
      rwa [((Prod.mk.injEq ..).mp hga).2, hi, hch] at this
    exact absurd (sameKey_eq_true.mpr hga) (by simp [hnone a hach])
  have helems := hr.toNat_elems_add_one hle
  refine hr.setChain hib (hr.placed_splice hi hch hc') ?_ (hr.find?_splice hch hc')
    (fun k h hb => AList.lookup_insert_ne (ne_of_bucket_ne k (key x) (by rwa [hi]))) ?_ ?_
  · rw [happ, List.append_assoc, List.map_append, List.map_append, List.map_singleton,
      List.singleton_append, List.nodup_middle, ← List.map_append]
    exact List.nodup_cons.mpr ⟨hfresh, hch ▸ hr.nodup_chain_append hib⟩
  · rw [happ, List.length_append, List.length_singleton, helems, ← hr.length_chain_add hib, hch]
    omega
  · rw [helems, hr.elems, AList.length_keys_insert_of_notMem hnotmem]

end Insert

/-- **`Insert` keeps the invariant** while the map stays within `2^31` entries, and answers
the entry it replaces. When it adds an element beyond the buckets, these were at most
`2^30`, and `Resize` returns. -/
theorem Inv.insert (hinv : t.Inv key hash m) (x : H)
    (hb : (m.insert (key x, hash x) x).keys.length ≤ 2 ^ 31) :
    ∃ t', insert key hash t x = some (t', m.lookup (key x, hash x)) ∧
      t'.Inv key hash (m.insert (key x, hash x) x) := by
  obtain ⟨hr, hle⟩ := hinv
  have hold := hr.find (key x) (hash x)
  cases hlk : m.lookup (key x, hash x) with
  | some y =>
    have hy := hold.trans hlk
    exact ⟨_, insert_of_find?_eq_some rfl rfl rfl hy, hr.insert_replace rfl rfl rfl hy, hle⟩
  | none =>
    have hy := hold.trans hlk
    have hr₁ := hr.insert_append rfl rfl rfl hle hy
    have helems := hr.toNat_elems_add_one hle
    rw [insert_of_find?_eq_none rfl rfl rfl hy]
    by_cases hgt : t.elems + 1 > t.length
    · -- the elements were as many as the buckets, a power of two below `2^31`
      have h3 : 3 * (t.elems + 1).toNat ≤ 2 ^ 32 := by
        rw [gt_iff_lt, UInt32.lt_iff_toNat_lt, helems] at hgt
        have hcount : t.elems.toNat + 1 ≤ 2 ^ 31 := helems ▸ hr₁.elems ▸ hb
        obtain ⟨j, -, -, hlen⟩ := hr.length_pow
        have heq : t.elems.toNat = 2 ^ j := by omega
        rw [helems, heq]
        exact three_mul_succ_le (by omega)
      obtain ⟨t₂, hres, hinv₂⟩ := hr₁.resize h3
      exact ⟨t₂, by rw [if_pos hgt, hres]; rfl, hinv₂⟩
    · refine ⟨_, if_neg hgt, hr₁, ?_⟩
      rw [gt_iff_lt, UInt32.lt_iff_toNat_lt, not_lt] at hgt
      exact hgt

/-! ### `Remove` -/

/-- A key of another bucket than the one erased keeps its entry. -/
theorem lookup_erase_of_bucket_ne {n h h' : UInt32} (k k' : List UInt8)
    (hb : bucket n h' ≠ bucket n h) : (m.erase (k, h)).lookup (k', h') = m.lookup (k', h') :=
  AList.lookup_erase_ne (ne_of_bucket_ne k' k hb)

section Remove

/- `Remove(k, h)` unlinks at bucket `i` of `h`, whose chain is `ch`: `c'` is the chain
without the place where the search for (k, h) stops. -/
variable {k : List UInt8} {h : UInt32} {y : H} {i : Nat} {ch c' : List H}
  (hi : bucket t.length h = i) (hch : t.chain i = ch)
  (hc' : c' = ch.eraseIdx (ch.findIdx (sameKey key hash k h)))
include hi hch hc'

/-- `Remove(k, h)` where the chain holds `y` under (k, h): `y` is unlinked and counted out. -/
theorem remove_of_find?_eq_some (hy : ch.find? (sameKey key hash k h) = some y) :
    remove key hash t k h = ({ t with list := t.list.set i c', elems := t.elems - 1 }, some y) := by
  subst hi hch hc'
  simp only [LRUHandleTable.remove, findPointer]
  rw [← List.find?_eq_getElem?_findIdx, hy]

/-- **Unlinking the handle found.** The table without it stands for the map without its
(key, hash). -/
theorem Refines.unlink (hr : t.Refines key hash m) (hy : ch.find? (sameKey key hash k h) = some y) :
    ({ t with list := t.list.set i c', elems := t.elems - 1 } : LRUHandleTable H).Refines key hash
      (m.erase (k, h)) := by
  have hib : i < t.list.length := hi ▸ hr.bucket_lt _
  have hj : ch.findIdx (sameKey key hash k h) < ch.length :=
    List.findIdx_lt_length_of_exists ⟨y, List.mem_of_find?_eq_some hy, List.find?_some hy⟩
  have hmem : (k, h) ∈ m := AList.lookup_isSome.mp (by rw [← hr.find, hi, hch, hy]; rfl)
  have hlen := hr.length_chain_add hib
  rw [hch] at hlen
  have helems : (t.elems - 1).toNat = t.elems.toNat - 1 := by
    have : (1 : UInt32) ≤ t.elems := UInt32.le_iff_toNat_le.mpr (by
      simp only [UInt32.reduceToNat]
      omega)
    rw [UInt32.toNat_sub_of_le _ _ this]
    rfl
  refine hr.setChain hib (fun y hy => hr.placed i y (hch ▸ (List.eraseIdx_sublist _ _).subset
    (hc' ▸ hy))) ?_ ?_ (fun k' h' hb => lookup_erase_of_bucket_ne k k' (by rwa [hi])) ?_ ?_
  · rw [hc']
    exact (((List.eraseIdx_sublist _ _).append_right _).map _).nodup
      (hch ▸ hr.nodup_chain_append hib)
  · intro k' h' hb
    rw [hc']
    by_cases hkh : (k', h') = (k, h)
    · obtain ⟨rfl, rfl⟩ := Prod.mk.inj hkh
      rw [AList.lookup_erase]
      exact List.find?_eraseIdx_findIdx_eq_none (hch ▸ hr.nodup_chain i)
        fun a ha => sameKey_eq_true.mp ha
    · -- the handle unlinked fails the search for another (key, hash)
      rw [AList.lookup_erase_ne hkh, ← hr.find k' h', hb, hch]
      have := List.find?_splice_findIdx (c := ch) (u := []) (p := sameKey key hash k' h')
        (q := sameKey key hash k h) (fun a _ ha => sameKey_eq_false_of_ne hkh ha) (by simp)
      rwa [List.append_nil, ← List.eraseIdx_eq_take_drop_succ] at this
  · rw [hc', List.length_eraseIdx, if_pos hj, helems, ← hlen]
    omega
  · rw [helems, hr.elems, AList.length_keys_erase_of_mem hmem]

end Remove

/-- **`Remove` keeps the invariant**, and answers the entry it removes. -/
theorem Inv.remove (hinv : t.Inv key hash m) (k : List UInt8) (h : UInt32) :
    ∃ t', remove key hash t k h = (t', m.lookup (k, h)) ∧ t'.Inv key hash (m.erase (k, h)) := by
  obtain ⟨hr, hle⟩ := hinv
  have hold := hr.find k h
  cases hlk : m.lookup (k, h) with
  | none =>
    -- nothing to unlink, and nothing to erase from the map
    have hcode : LRUHandleTable.remove key hash t k h = (t, none) := by
      simp only [LRUHandleTable.remove, findPointer]
      rw [← List.find?_eq_getElem?_findIdx, hold, hlk]
    have hnotmem : (k, h) ∉ m := fun hm => by simp [← AList.lookup_isSome, hlk] at hm
    refine ⟨t, hcode, ?_⟩
    rw [AList.erase_of_notMem hnotmem]
    exact ⟨hr, hle⟩
  | some y =>
    have hy := hold.trans hlk
    have hr' := hr.unlink rfl rfl rfl hy
    refine ⟨_, remove_of_find?_eq_some rfl rfl rfl hy, hr', ?_⟩
    -- one element fewer, below the buckets still
    have hmem : (k, h) ∈ m := AList.lookup_isSome.mp (by rw [hlk]; rfl)
    have hcount : (t.elems - 1).toNat = (m.erase (k, h)).keys.length := hr'.elems
    rw [AList.length_keys_erase_of_mem hmem, ← hr.elems] at hcount
    show (t.elems - 1).toNat ≤ t.length.toNat
    omega

/-! ### Runs -/

/-- One operation keeps the invariant, and answers what the map answers, while the map stays
within `2^31` entries. -/
theorem Inv.step (hinv : t.Inv key hash m) (o : Op H)
    (hb : (o.apply key hash m).1.keys.length ≤ 2 ^ 31) :
    ∃ t', step key hash t o = some (t', (o.apply key hash m).2) ∧
      t'.Inv key hash (o.apply key hash m).1 := by
  cases o with
  | insert x => exact hinv.insert x hb
  | remove k h =>
    obtain ⟨t', hrem, hinv'⟩ := hinv.remove k h
    exact ⟨t', by rw [LRUHandleTable.step, hrem]; rfl, hinv'⟩

theorem applyAll_cons (m : Entries H) (o : Op H) (os : List (Op H)) :
    applyAll key hash m (o :: os) =
      ((applyAll key hash (o.apply key hash m).1 os).1,
        (o.apply key hash m).2 :: (applyAll key hash (o.apply key hash m).1 os).2) := rfl

/-- **A run keeps the invariant**, and answers what the map answers, while the map stays
within `2^31` entries after every operation. The induction is on the operations. -/
theorem Inv.run (hinv : t.Inv key hash m) (ops : List (Op H))
    (hb : ∀ n, (applyAll key hash m (ops.take n)).1.keys.length ≤ 2 ^ 31) :
    ∃ t', run key hash t ops = some (t', (applyAll key hash m ops).2) ∧
      t'.Inv key hash (applyAll key hash m ops).1 := by
  induction ops generalizing t m with
  | nil => exact ⟨t, rfl, hinv⟩
  | cons o os ih =>
    obtain ⟨t₁, hstep, hinv₁⟩ := hinv.step o (hb 1)
    obtain ⟨t₂, hrun, hinv₂⟩ := ih hinv₁ fun n => hb (n + 1)
    refine ⟨t₂, ?_, hinv₂⟩
    simp only [LRUHandleTable.run, hstep, Option.bind_some, hrun, Option.map_some,
      applyAll_cons]

/-- Each operation adds one entry to the map at most. -/
theorem length_keys_applyAll_le (m : Entries H) (ops : List (Op H)) :
    (applyAll key hash m ops).1.keys.length ≤ m.keys.length + ops.length := by
  induction ops generalizing m with
  | nil => simp [applyAll]
  | cons o os ih =>
    have hstep : (o.apply key hash m).1.keys.length ≤ m.keys.length + 1 := by
      cases o with
      | insert x =>
        by_cases hx : (key x, hash x) ∈ m
        · rw [Op.apply, AList.length_keys_insert_of_mem hx]
          omega
        · rw [Op.apply, AList.length_keys_insert_of_notMem hx]
      | remove k h =>
        by_cases hk : (k, h) ∈ m
        · rw [Op.apply, AList.length_keys_erase_of_mem hk]
          omega
        · simp only [Op.apply, AList.erase_of_notMem hk]
          omega
    have := ih (o.apply key hash m).1
    simp only [applyAll_cons, List.length_cons]
    omega

/-! ### The table from its constructor -/

variable (hash) in
/-- The constructor's table: 16 empty buckets. -/
theorem create_eq : create hash = some (⟨List.replicate 16 [], 16, 0⟩ : LRUHandleTable H) := rfl

variable (key hash) in
theorem inv_create : (⟨List.replicate 16 [], 16, 0⟩ : LRUHandleTable H).Inv key hash ∅ := by
  have hchain : ∀ i, (⟨List.replicate 16 [], 16, 0⟩ : LRUHandleTable H).chain i = [] := by
    intro i
    simp only [chain, List.getD_eq_getElem?_getD, List.getElem?_replicate]
    split_ifs <;> rfl
  refine ⟨⟨⟨4, le_rfl, by norm_num, rfl⟩, by simp, fun i x hx => ?_, by simp,
    fun k h => by rw [hchain]; rfl, by simp, rfl⟩, by simp⟩
  rw [hchain] at hx
  cases hx

theorem run_append (t : LRUHandleTable H) (os os' : List (Op H)) :
    run key hash t (os ++ os') = (run key hash t os).bind fun (t, rs) =>
      (run key hash t os').map fun (t, rs') => (t, rs ++ rs') := by
  induction os generalizing t with
  | nil =>
    simp only [List.nil_append, LRUHandleTable.run, Option.bind_some]
    cases run key hash t os' <;> rfl
  | cons o os ih =>
    simp only [List.cons_append, LRUHandleTable.run, ih]
    cases step key hash t o with
    | none => rfl
    | some tr =>
      simp only [Option.bind_some]
      cases run key hash tr.1 os with
      | none => rfl
      | some ts =>
        simp only [Option.bind_some, Option.map_some]
        cases run key hash ts.1 os' <;> simp

variable (key hash) in
/-- **`LRUHandleTable` is a map.** From the constructor, every run of `Insert` and `Remove`
whose map never holds more than `2^31` entries returns, and answers what the map answers:
the handle replaced or removed. After it, `Lookup` finds the map's entries, `elems_`
counts the stored handles, no two of which share a (key, hash), and `length_` is a power
of two from 16 with every handle reachable from the bucket of its hash. -/
theorem lruHandleTable_is_a_map (ops : List (Op H))
    (hbound : ∀ n, (applyAll key hash ∅ (ops.take n)).1.keys.length ≤ 2 ^ 31) :
    ∃ t, (create hash).bind (fun t => run key hash t ops) =
        some (t, (applyAll key hash ∅ ops).2) ∧
      (∀ k h, lookup key hash t k h = (applyAll key hash ∅ ops).1.lookup (k, h)) ∧
      (t.list.flatten.map fun x => (key x, hash x)).Nodup ∧
      t.elems.toNat = t.list.flatten.length ∧
      (∃ j, 4 ≤ j ∧ t.length.toNat = 2 ^ j) ∧
      ∀ x ∈ t.list.flatten, x ∈ t.chain (bucket t.length (hash x)) := by
  obtain ⟨t, hrun, hinv⟩ := (inv_create key hash).run ops hbound
  obtain ⟨j, hj, -, hlen⟩ := hinv.length_pow
  exact ⟨t, by rw [create_eq, Option.bind_some, hrun], hinv.lookup, hinv.nodup, hinv.total.symm,
    ⟨j, hj, hlen⟩, fun x hx => hinv.mem_chain_bucket hx⟩

theorem lruHandleTable_is_a_map_sample :
    let key : Nat → List UInt8 := fun _ => []
    let hash : Nat → UInt32 := UInt32.ofNat
    let ops : List (Op Nat) := [.insert 1, .insert 17, .insert 1, .remove [] 17]
    (applyAll key hash ∅ ops).2 = [none, none, some 1, some 17] ∧
    ∃ t, (create hash).bind (fun t => run key hash t ops) =
        some (t, (applyAll key hash ∅ ops).2) ∧
      (∀ k h, lookup key hash t k h = (applyAll key hash ∅ ops).1.lookup (k, h)) ∧
      (t.list.flatten.map fun x => (key x, hash x)).Nodup ∧
      t.elems.toNat = t.list.flatten.length ∧
      (∃ j, 4 ≤ j ∧ t.length.toNat = 2 ^ j) ∧
      ∀ x ∈ t.list.flatten, x ∈ t.chain (bucket t.length (hash x)) := by
  intro key hash ops
  refine ⟨by decide, lruHandleTable_is_a_map key hash ops fun n => ?_⟩
  calc _ ≤ (∅ : Entries Nat).keys.length + (ops.take n).length := length_keys_applyAll_le ..
    _ ≤ 2 ^ 31 := by simp [ops]

/-! ### Past `2^31` entries -/

/-- **`Insert` does not return at `2^31 + 1` entries.** A table of `2^31` elements has
`2^31` buckets; a new (key, hash) makes `elems_` exceed `length_`, and `Resize` starts from
`2^31 + 1` elements. -/
theorem Inv.insert_eq_none (hinv : t.Inv key hash m) {x : H} (hx : (key x, hash x) ∉ m)
    (hm : m.keys.length = 2 ^ 31) : LRUHandleTable.insert key hash t x = none := by
  have hy : (t.chain (bucket t.length (hash x))).find? (sameKey key hash (key x) (hash x)) =
      none := by
    rw [hinv.find]
    simpa [← AList.lookup_isSome] using hx
  have helems : t.elems.toNat = 2 ^ 31 := hinv.elems.trans hm
  have hlen : t.length.toNat = 2 ^ 31 := le_antisymm hinv.length_le (helems ▸ hinv.elems_le)
  have hsucc : (t.elems + 1).toNat = 2 ^ 31 + 1 := by
    rw [hinv.toNat_elems_add_one hinv.elems_le, helems]
  have hgt : t.elems + 1 > t.length := by
    rw [gt_iff_lt, UInt32.lt_iff_toNat_lt, hsucc, hlen]
    omega
  rw [insert_of_find?_eq_none rfl rfl rfl hy, if_pos hgt, LRUHandleTable.resize,
    resizeLoop_eq_none (by rw [hsucc]; norm_num)]
  rfl

/-- The hash `UInt32.ofNat n` of a handle `n` below `2^32` is no earlier handle's. -/
theorem ofNat_not_mem_range {n : Nat} (hn : n < 2 ^ 32) :
    (([] : List UInt8), UInt32.ofNat n) ∉
      (List.range n).map fun i => (([] : List UInt8), UInt32.ofNat i) := by
  simp only [List.mem_map, List.mem_range, Prod.mk.injEq, true_and, not_exists, not_and]
  intro i hi heq
  have := congrArg UInt32.toNat heq
  rw [UInt32.toNat_ofNat', UInt32.toNat_ofNat', Nat.mod_eq_of_lt (by omega),
    Nat.mod_eq_of_lt hn] at this
  omega

theorem applyAll_append_fst (m : Entries H) (os os' : List (Op H)) :
    (applyAll key hash m (os ++ os')).1 = (applyAll key hash (applyAll key hash m os).1 os').1 := by
  induction os generalizing m with
  | nil => rfl
  | cons o os ih => exact ih _

/-- Inserting the handles `0, …, n-1`, hashed to themselves, fills the map with their keys,
the last first. -/
theorem keys_applyAll_range {n : Nat} (hn : n ≤ 2 ^ 32) :
    (applyAll (fun _ : Nat => []) UInt32.ofNat ∅ ((List.range n).map .insert)).1.keys =
      ((List.range n).map fun i => (([] : List UInt8), UInt32.ofNat i)).reverse := by
  induction n with
  | zero => rfl
  | succ n ih =>
    rw [List.range_succ, List.map_append, applyAll_append_fst]
    simp only [List.map_cons, List.map_nil, applyAll, Op.apply, AList.keys_insert, ih (by omega),
      @List.erase_of_not_mem _ instBEqOfDecidableEq _ _ _
        (mt List.mem_reverse.mp (ofNat_not_mem_range (n := n) (by omega))),
      List.map_append, List.reverse_append, List.map_cons, List.map_nil, List.reverse_cons,
      List.reverse_nil, List.nil_append, List.singleton_append]

/-- **Past `2^31` entries the table hangs.** The `2^31` inserts of handles with distinct
hashes run, and the next one never returns: `Resize`'s loop from `2^31 + 1` elements does
not end for any fuel. -/
theorem lruHandleTable_insert_hangs_past_two_pow_31 :
    (∀ fuel, resizeLoop (2 ^ 31 + 1) fuel 16 = none) ∧
      (create UInt32.ofNat).bind (fun t =>
        run (fun _ : Nat => []) UInt32.ofNat t ((List.range (2 ^ 31 + 1)).map .insert)) = none := by
  refine ⟨resizeLoop_eq_none (by decide), ?_⟩
  have hkeys := keys_applyAll_range (n := 2 ^ 31) (by norm_num)
  -- the first `2^31` inserts run, leaving a table for the map of their handles
  obtain ⟨t, hrun, hinv⟩ := (inv_create (fun _ : Nat => []) UInt32.ofNat).run
    ((List.range (2 ^ 31)).map .insert) fun n =>
      (length_keys_applyAll_le ..).trans (by simp)
  have hnot : (([] : List UInt8), UInt32.ofNat (2 ^ 31)) ∉
      (applyAll (fun _ : Nat => []) UInt32.ofNat ∅ ((List.range (2 ^ 31)).map .insert)).1 := by
    rw [AList.mem_keys, hkeys, List.mem_reverse]
    exact ofNat_not_mem_range (by norm_num)
  have hlast := hinv.insert_eq_none (x := 2 ^ 31) hnot (by rw [hkeys]; simp)
  rw [List.range_succ, List.map_append, create_eq, Option.bind_some, run_append, hrun,
    Option.bind_some]
  simp only [List.map_cons, List.map_nil, LRUHandleTable.run, LRUHandleTable.step, hlast,
    Option.bind_none, Option.map_none]

end LRUHandleTable

end RocksDB
