import Mathlib

/-!
# Ordered multimaps as sorted lists

The `std::multimap` and `std::map` operations the storage code uses, on a list
of entries kept in the order of their keys under a three-way comparison `cmp`.
Iterators are positions in the list; the position `m.length` is `end()`.

* `upperBound m k` is `upper_bound(k)`: the first entry whose key is above `k`.
* `emplace m k v` is `multimap::emplace`: the new entry goes after the entries
  whose key is equivalent to `k`, and its position is returned.
* `emplaceUnique m k v` is `map::emplace`: nothing is inserted when an entry
  with an equivalent key exists.
-/

namespace SortedMultimap

variable {κ ν : Type} (cmp : κ → κ → Ordering)

/-- `upper_bound(k)`. -/
def upperBound (m : List (κ × ν)) (k : κ) : Nat :=
  m.findIdx fun p => cmp k p.1 = .lt

/-- `multimap::emplace(k, v)`: the new map and the position of the new entry. -/
def emplace (m : List (κ × ν)) (k : κ) (v : ν) : List (κ × ν) × Nat :=
  let i := upperBound cmp m k
  (m.insertIdx i (k, v), i)

/-- `map::emplace(k, v)`. -/
def emplaceUnique (m : List (κ × ν)) (k : κ) (v : ν) : List (κ × ν) :=
  if m.any fun p => cmp k p.1 = .eq then m else (emplace cmp m k v).1

@[simp] theorem upperBound_nil (k : κ) : upperBound cmp ([] : List (κ × ν)) k = 0 := rfl

theorem upperBound_cons_of_lt {k k' : κ} (h : cmp k k' = .lt) (v : ν) (m : List (κ × ν)) :
    upperBound cmp ((k', v) :: m) k = 0 := by
  simp [upperBound, List.findIdx_cons, h]

theorem upperBound_cons_of_ne {k k' : κ} (h : cmp k k' ≠ .lt) (v : ν) (m : List (κ × ν)) :
    upperBound cmp ((k', v) :: m) k = upperBound cmp m k + 1 := by
  simp [upperBound, List.findIdx_cons, h]

end SortedMultimap
