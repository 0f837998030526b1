import Mathlib
import RocksDB.Lib.SkipList
import RocksDB.Lib.SortedList

/-!
# `memtable/inlineskiplist.h`: the searches of the skip list

The searches read a list whose pointers `Insert` keeps consistent, so the list
is its nodes in key order with their heights (`SkipList.next` gives the
pointers). Each search descends from the head on the highest level, moving
right while the next key is below the target and down otherwise. Two of them
remember where the level above stopped: `FindGreaterOrEqual` takes
`last_bigger` to compare above the target without calling the comparator, and
`FindLessThan` takes `last_not_after` to stop without asking `KeyIsAfterNode`.

The loops are `while (true)` in the source; here each runs on fuel, answering
`none` when it runs out, and `fuel` is enough for all of them, since every
pass moves right or down.

The model they are checked against is the list of nodes sorted by key, with
the queries of a sorted set: the first node not below a key, the last node
below it, the last node not above it.
-/

namespace RocksDB

open SkipList

/-- An `InlineSkipList` as its searches see it: the nodes in level-0 order with
their keys and heights, and `max_height_`. The remaining fields are what
`Insert` keeps of a list: keys strictly increasing under the comparator, every
node on level 0 and none above `max_height_`, which starts at 1. -/
structure InlineSkipList (α : Type) (cmp : α → α → Ordering) where
  nodes : List (α × Nat)
  maxHeight : Nat
  sorted : SortedList.Sorted cmp (nodes.map Prod.fst)
  height_pos : ∀ x ∈ nodes, 0 < x.2
  height_le : ∀ x ∈ nodes, x.2 ≤ maxHeight
  maxHeight_pos : 0 < maxHeight

namespace InlineSkipList

variable {α : Type} {cmp : α → α → Ordering} (l : InlineSkipList α cmp)

/-- `x->Next(level)`, where `x` is the head (`none`) or a node. -/
def nextOf (level : Nat) (x : Option (Node α)) : Option (Node α) :=
  next l.nodes level (posOf x)

/-- Enough passes for every search loop: each pass moves right or down. -/
def fuel : Nat := l.nodes.length + l.maxHeight

/-- The loop of `FindGreaterOrEqual` at `x` on `level`; `lastBigger` is the node
the level above stopped at, which compares above the key. -/
def findGreaterOrEqualLoop (key : α) :
    Nat → Option (Node α) → Nat → Option (Node α) → Option (Option (Node α))
  | 0, _, _, _ => none
  | fuel + 1, x, level, lastBigger =>
    -- `cmp` is 1 for a null `next`, and for `last_bigger` without a compare
    match l.nextOf level x with
    | none => if level = 0 then some none else findGreaterOrEqualLoop key fuel x (level - 1) none
    | some n =>
      match if some n.pos = lastBigger.map Node.pos then .gt else cmp n.key key with
      | .eq => some (some n)
      | .gt =>
        if level = 0 then some (some n) else findGreaterOrEqualLoop key fuel x (level - 1) (some n)
      | .lt => findGreaterOrEqualLoop key fuel (some n) level lastBigger

/-- `FindGreaterOrEqual(key)`: the node it returns, `none` for null. -/
def findGreaterOrEqual (key : α) : Option (Option (Node α)) :=
  l.findGreaterOrEqualLoop key l.fuel none (l.maxHeight - 1) none

/-- The loop of `FindLessThan(key, prev, root, top_level, bottom_level)` with a
null `prev`; `lastNotAfter` is the `next` the level above stopped at, which
`key` is not after. -/
def findLessThanLoop (key : α) (bottomLevel : Nat) :
    Nat → Option (Node α) → Nat → Option (Node α) → Option (Option (Node α))
  | 0, _, _, _ => none
  | fuel + 1, x, level, lastNotAfter =>
    match l.nextOf level x with
    | some n =>
      -- `KeyIsAfterNode(key, next)`: the next key is below `key`
      if some n.pos ≠ lastNotAfter.map Node.pos ∧ cmp n.key key = .lt then
        findLessThanLoop key bottomLevel fuel (some n) level lastNotAfter
      else if level = bottomLevel then some x
      else findLessThanLoop key bottomLevel fuel x (level - 1) (some n)
    | none =>
      if level = bottomLevel then some x
      else findLessThanLoop key bottomLevel fuel x (level - 1) none

/-- `FindLessThan(key)`: from the head on `GetMaxHeight() - 1` down to level 0;
the head is `none`. -/
def findLessThan (key : α) : Option (Option (Node α)) :=
  l.findLessThanLoop key 0 l.fuel none (l.maxHeight - 1) none

def findLastLoop : Nat → Option (Node α) → Nat → Option (Option (Node α))
  | 0, _, _ => none
  | fuel + 1, x, level =>
    match l.nextOf level x with
    | none => if level = 0 then some x else findLastLoop fuel x (level - 1)
    | some n => findLastLoop fuel (some n) level

/-- `FindLast()`: the last node, or the head (`none`) of an empty list. -/
def findLast : Option (Option (Node α)) :=
  l.findLastLoop l.fuel none (l.maxHeight - 1)

/-- `Contains(key)`: the node `FindGreaterOrEqual` finds compares equal. -/
def contains (key : α) : Option Bool := do
  let x ← l.findGreaterOrEqual key
  return match x with
    | some n => decide (cmp key n.key = .eq)
    | none => false

/-! `InlineSkipList::Iterator`: `node_` is `none` when the iterator is not valid. -/
namespace Iterator

/-- `Next()` of a valid iterator at `n`. -/
def next (n : Node α) : Option (Node α) := l.nextOf 0 (some n)

/-- `Prev()` of a valid iterator at `n`: the last node below its key, not valid
at the head. -/
def prev (n : Node α) : Option (Option (Node α)) := l.findLessThan n.key

def seek (target : α) : Option (Option (Node α)) := l.findGreaterOrEqual target

def seekToFirst : Option (Node α) := l.nextOf 0 none

/-- `SeekToLast()`: not valid at the head. -/
def seekToLast : Option (Option (Node α)) := l.findLast

/-- The loop of `SeekForPrev`: back while the target is below the key. -/
def seekForPrevLoop (target : α) : Nat → Option (Node α) → Option (Option (Node α))
  | 0, _ => none
  | _ + 1, none => some none
  | fuel + 1, some n =>
    if cmp target n.key = .lt then do
      let node ← prev l n
      seekForPrevLoop target fuel node
    else some (some n)

def seekForPrev (target : α) : Option (Option (Node α)) := do
  let node ← seek l target
  let node ← if node.isSome then pure node else seekToLast l
  seekForPrevLoop l target (l.nodes.length + 1) node

end Iterator

/-! ## The sorted-set model -/

/-- The nodes in order: the set the list holds, sorted by key. -/
def nodeList : List (Node α) := l.nodes.mapIdx fun i x => ⟨i + 1, x.1⟩

/-- A key as a node for comparing: `byKey` reads its key only. -/
def probe (key : α) : Node α := ⟨0, key⟩

/-- Where the target sits among the nodes: the number of keys below it. -/
def seekNode (key : α) : Nat :=
  SortedList.seek (SortedList.byKey cmp Node.key) l.nodeList (probe key)

/-- The head (position 0) or the node at a position. -/
def atPos : Nat → Option (Node α)
  | 0 => none
  | p + 1 => l.nodeList[p]?

theorem getElem?_nodeList (i : Nat) :
    l.nodeList[i]? = l.nodes[i]?.map fun x => ⟨i + 1, x.1⟩ := by
  simp [nodeList, List.getElem?_mapIdx]

@[simp] theorem length_nodeList : l.nodeList.length = l.nodes.length := by
  simp [nodeList]

theorem map_key_nodeList : l.nodeList.map Node.key = l.nodes.map Prod.fst := by
  apply List.ext_getElem?
  intro i
  simp only [List.getElem?_map, getElem?_nodeList, Option.map_map]
  rfl

theorem sorted_nodeList : SortedList.Sorted (SortedList.byKey cmp Node.key) l.nodeList := by
  have hs := l.sorted
  rw [← map_key_nodeList, SortedList.Sorted, List.pairwise_map] at hs
  exact hs

theorem pos_of_getElem?_nodeList {i : Nat} {n : Node α} (h : l.nodeList[i]? = some n) :
    n.pos = i + 1 := by
  rw [getElem?_nodeList] at h
  obtain ⟨x, -, rfl⟩ := Option.map_eq_some_iff.mp h
  rfl

/-- A node is at its own position. -/
theorem atPos_pos {p : Nat} {n : Node α} (h : l.atPos p = some n) : n.pos = p := by
  cases p with
  | zero => cases h
  | succ p => exact l.pos_of_getElem?_nodeList h

/-- A node is at a position of the list. -/
theorem le_length_of_atPos {p : Nat} {n : Node α} (h : l.atPos p = some n) :
    0 < p ∧ p ≤ l.nodeList.length := by
  cases p with
  | zero => cases h
  | succ p =>
    have := (List.getElem?_eq_some_iff.mp h).1
    omega

/-- A pointer leads forward, to a node of the list. -/
theorem nextOf_some {level : Nat} {x : Option (Node α)} {n : Node α}
    (h : l.nextOf level x = some n) : posOf x < n.pos ∧ l.atPos n.pos = some n := by
  obtain ⟨hlt, height, hget, -⟩ := next_some h
  refine ⟨hlt, ?_⟩
  obtain ⟨p, hp⟩ : ∃ p, n.pos = p + 1 := ⟨n.pos - 1, by omega⟩
  rw [hp, atPos, getElem?_nodeList, ← show n.pos - 1 = p by omega, hget, Option.map_some,
    show n.pos - 1 + 1 = n.pos by omega]

/-- Level 0 links every node to the next. -/
theorem nextOf_zero (x : Option (Node α)) : l.nextOf 0 x = l.atPos (posOf x + 1) := by
  rw [nextOf, next_zero l.height_pos, atPos, getElem?_nodeList]

section Search

variable (t : α)

theorem seekNode_le : l.seekNode t ≤ l.nodeList.length :=
  SortedList.seek_le_length _ _

/-- Where nothing follows `x` on level 0, every key is below the target. -/
theorem seekNode_of_zero_none {x : Option (Node α)} (hx : posOf x ≤ l.seekNode t)
    (hn : l.nextOf 0 x = none) : l.atPos (l.seekNode t + 1) = none := by
  rw [nextOf_zero, atPos, List.getElem?_eq_none_iff] at hn
  rw [atPos, List.getElem?_eq_none_iff]
  have := l.seekNode_le t
  omega

/-- The compare `last_bigger` saves gives what the comparator would. -/
theorem cached_cmp {n : Node α} {lastBigger : Option (Node α)} (hn : l.atPos n.pos = some n)
    (hlb : ∀ m, lastBigger = some m → l.atPos m.pos = some m ∧ cmp m.key t = .gt) :
    (if some n.pos = lastBigger.map Node.pos then Ordering.gt else cmp n.key t) = cmp n.key t := by
  split
  · rename_i heq
    obtain ⟨m, rfl, hpos⟩ := Option.map_eq_some_iff.mp heq.symm
    obtain ⟨hm, hgt⟩ := hlb m rfl
    -- the two nodes at one position are one node
    rw [hpos, hn] at hm
    rw [Option.some.inj hm, hgt]
  · rfl

variable [Std.TransCmp cmp]

/-- A node is below the target exactly when it is at or before `seekNode`. -/
theorem lt_iff_le_seekNode {p : Nat} {n : Node α} (hn : l.atPos p = some n) :
    cmp n.key t = .lt ↔ p ≤ l.seekNode t := by
  cases p with
  | zero => cases hn
  | succ p =>
    obtain ⟨hi, rfl⟩ := List.getElem?_eq_some_iff.mp hn
    rw [Nat.succ_le_iff]
    exact SortedList.lt_iff_lt_seek l.sorted_nodeList (probe t) hi

/-- A node equal to the target is the one after `seekNode`. -/
theorem seekNode_eq_of_eq {p : Nat} {n : Node α} (hn : l.atPos p = some n)
    (h : cmp n.key t = .eq) : l.seekNode t + 1 = p := by
  cases p with
  | zero => cases hn
  | succ p =>
    obtain ⟨hi, rfl⟩ := List.getElem?_eq_some_iff.mp hn
    rw [seekNode, SortedList.seek_eq_of_eq l.sorted_nodeList hi (x := probe t) h]

/-- Where the node after `x` on level 0 is not below the target, it is the one
after `seekNode`. -/
theorem seekNode_of_zero_some {x : Option (Node α)} {n : Node α} (hx : posOf x ≤ l.seekNode t)
    (hn : l.nextOf 0 x = some n) (hnl : cmp n.key t ≠ .lt) :
    l.atPos (l.seekNode t + 1) = some n := by
  rw [nextOf_zero] at hn
  have hle := (l.lt_iff_le_seekNode t hn).not.mp hnl
  rwa [show l.seekNode t = posOf x by omega]

theorem findGreaterOrEqualLoop_eq (fuel : Nat) (x : Option (Node α)) (level : Nat)
    (lastBigger : Option (Node α)) (hx : posOf x ≤ l.seekNode t)
    (hlb : ∀ m, lastBigger = some m → l.atPos m.pos = some m ∧ cmp m.key t = .gt)
    (hfuel : l.nodeList.length - posOf x + level < fuel) :
    l.findGreaterOrEqualLoop t fuel x level lastBigger = some (l.atPos (l.seekNode t + 1)) := by
  induction fuel generalizing x level lastBigger with
  | zero => omega
  | succ fuel ih =>
    simp only [findGreaterOrEqualLoop]
    cases hn : l.nextOf level x with
    | none =>
      dsimp only
      split_ifs with hlevel
      · subst hlevel
        rw [l.seekNode_of_zero_none t hx hn]
      · exact ih x (level - 1) none hx (by simp) (by omega)
    | some n =>
      obtain ⟨hpos, hnode⟩ := l.nextOf_some hn
      dsimp only
      rw [l.cached_cmp t hnode hlb]
      cases hcmp : cmp n.key t with
      | eq => rw [l.seekNode_eq_of_eq t hnode hcmp, hnode]
      | gt =>
        dsimp only
        split_ifs with hlevel
        · subst hlevel
          rw [l.seekNode_of_zero_some t hx hn (by simp [hcmp])]
        · exact ih x (level - 1) (some n) hx (fun m hm => by cases hm; exact ⟨hnode, hcmp⟩)
            (by omega)
      | lt =>
        have hle := (l.lt_iff_le_seekNode t hnode).mp hcmp
        have hlen := (l.le_length_of_atPos hnode).2
        exact ih (some n) level lastBigger hle hlb (by simp only [posOf_some]; omega)

/-- Where `FindLessThan` does not move right, the next node is beyond the
target's place: it is the one `last_not_after` names, or it is not below the
target. -/
theorem seekNode_lt_of_stop {n : Node α} {lastNotAfter : Option (Node α)}
    (hnode : l.atPos n.pos = some n)
    (hlna : ∀ m, lastNotAfter = some m → l.seekNode t < m.pos)
    (hstop : ¬(some n.pos ≠ lastNotAfter.map Node.pos ∧ cmp n.key t = .lt)) :
    l.seekNode t < n.pos := by
  by_cases hlt : cmp n.key t = .lt
  · have heq : some n.pos = lastNotAfter.map Node.pos := by
      by_contra hne
      exact hstop ⟨hne, hlt⟩
    obtain ⟨m, rfl, hm⟩ := Option.map_eq_some_iff.mp heq.symm
    rw [← hm]
    exact hlna m rfl
  · have := (l.lt_iff_le_seekNode t hnode).not.mp hlt
    omega

theorem findLessThanLoop_eq (fuel : Nat) (x : Option (Node α)) (level : Nat)
    (lastNotAfter : Option (Node α)) (hx : posOf x ≤ l.seekNode t) (hxn : l.atPos (posOf x) = x)
    (hlna : ∀ m, lastNotAfter = some m → l.seekNode t < m.pos)
    (hfuel : l.nodeList.length - posOf x + level < fuel) :
    l.findLessThanLoop t 0 fuel x level lastNotAfter = some (l.atPos (l.seekNode t)) := by
  induction fuel generalizing x level lastNotAfter with
  | zero => omega
  | succ fuel ih =>
    simp only [findLessThanLoop]
    cases hn : l.nextOf level x with
    | none =>
      dsimp only
      split_ifs with hlevel
      · -- nothing follows `x` on level 0: `x` is the last node, every key is below the target
        subst hlevel
        have hend := l.seekNode_of_zero_none t hx hn
        rw [nextOf_zero, atPos, List.getElem?_eq_none_iff] at hn
        rw [show l.seekNode t = posOf x by have := l.seekNode_le t; omega, hxn]
      · exact ih x (level - 1) none hx hxn (by simp) (by omega)
    | some n =>
      obtain ⟨hpos, hnode⟩ := l.nextOf_some hn
      have hlen := (l.le_length_of_atPos hnode).2
      dsimp only
      split_ifs with hafter hlevel
      · exact ih (some n) level lastNotAfter ((l.lt_iff_le_seekNode t hnode).mp hafter.2) hnode
          hlna (by simp only [posOf_some]; omega)
      · have hbeyond := l.seekNode_lt_of_stop t hnode hlna hafter
        subst hlevel
        rw [nextOf_zero] at hn
        rw [show l.seekNode t = posOf x by rw [l.atPos_pos hn] at hbeyond; omega, hxn]
      · have hbeyond := l.seekNode_lt_of_stop t hnode hlna hafter
        exact ih x (level - 1) (some n) hx hxn (fun m hm => by cases hm; exact hbeyond)
          (by omega)

end Search

theorem findLastLoop_eq (fuel : Nat) (x : Option (Node α)) (level : Nat)
    (hxn : l.atPos (posOf x) = x) (hx : posOf x ≤ l.nodeList.length)
    (hfuel : l.nodeList.length - posOf x + level < fuel) :
    l.findLastLoop fuel x level = some (l.atPos l.nodeList.length) := by
  induction fuel generalizing x level with
  | zero => omega
  | succ fuel ih =>
    simp only [findLastLoop]
    cases hn : l.nextOf level x with
    | none =>
      dsimp only
      split_ifs with hlevel
      · subst hlevel
        rw [nextOf_zero, atPos, List.getElem?_eq_none_iff] at hn
        rw [show l.nodeList.length = posOf x by omega, hxn]
      · exact ih x (level - 1) hxn hx (by omega)
    | some n =>
      obtain ⟨hpos, hnode⟩ := l.nextOf_some hn
      have hlen := (l.le_length_of_atPos hnode).2
      exact ih (some n) level hnode hlen (by simp only [posOf_some]; omega)

/-! ## The searches against the sorted-set model -/

section Model

variable (t : α)

theorem fuel_gt : l.nodeList.length + (l.maxHeight - 1) < l.fuel := by
  have := l.maxHeight_pos
  simp only [fuel, length_nodeList]
  omega

theorem findLast_eq : l.findLast = some (l.atPos l.nodeList.length) :=
  l.findLastLoop_eq l.fuel none _ rfl (Nat.zero_le _) (by simpa using l.fuel_gt)

/-- The last node, or the head of an empty list. -/
theorem atPos_length : l.atPos l.nodeList.length = l.nodeList.getLast? := by
  rw [List.getLast?_eq_getElem?]
  cases h : l.nodeList.length with
  | zero => rw [List.getElem?_eq_none (by omega)]; rfl
  | succ p => rfl

variable [Std.TransCmp cmp]

theorem findGreaterOrEqual_eq :
    l.findGreaterOrEqual t = some (l.atPos (l.seekNode t + 1)) :=
  l.findGreaterOrEqualLoop_eq t l.fuel none _ none (Nat.zero_le _) (by simp)
    (by simpa using l.fuel_gt)

theorem findLessThan_eq : l.findLessThan t = some (l.atPos (l.seekNode t)) :=
  l.findLessThanLoop_eq t l.fuel none _ none (Nat.zero_le _) rfl (by simp)
    (by simpa using l.fuel_gt)

/-- The node after the target's place is the first node not below it. -/
theorem atPos_seekNode_succ :
    l.atPos (l.seekNode t + 1) = (l.nodeList.filter fun n => cmp n.key t ≠ .lt).head? :=
  SortedList.getElem?_seek l.sorted_nodeList (probe t)

omit [Std.TransCmp cmp] in
theorem getLast?_take_seekNode :
    (l.nodeList.take (l.seekNode t)).getLast? = l.atPos (l.seekNode t) := by
  have hle := l.seekNode_le t
  rw [List.getLast?_take]
  cases h : l.seekNode t with
  | zero => rfl
  | succ p =>
    rw [h] at hle
    simp [atPos, List.getElem?_eq_getElem (show p < l.nodeList.length by omega)]

/-- The node at the target's place is the last node below it, or the head. -/
theorem atPos_seekNode :
    l.atPos (l.seekNode t) = (l.nodeList.filter fun n => cmp n.key t = .lt).getLast? := by
  rw [← l.getLast?_take_seekNode t]
  congr 1
  exact SortedList.take_seek l.sorted_nodeList (probe t)

/-- `Prev()` from a node is at the last node below its key, or not valid. -/
theorem prev_eq (n : Node α) :
    Iterator.prev l n = some (l.nodeList.filter fun m => cmp m.key n.key = .lt).getLast? := by
  rw [Iterator.prev, findLessThan_eq, atPos_seekNode]

theorem contains_eq : l.contains t = some (l.nodeList.any fun n => cmp t n.key = .eq) := by
  have hiff := SortedList.exists_eq_iff_seek l.sorted_nodeList (probe t)
  change (∃ n ∈ l.nodeList, cmp t n.key = .eq) ↔
    ∃ n, l.atPos (l.seekNode t + 1) = some n ∧ cmp t n.key = .eq at hiff
  simp only [contains, findGreaterOrEqual_eq, Option.pure_def, Option.bind_eq_bind, Option.bind_some]
  congr 1
  -- `Contains` looks at the first node not below the target only
  cases h : l.atPos (l.seekNode t + 1) with
  | none =>
    apply Bool.eq_iff_iff.mpr
    simp only [List.any_eq_true, decide_eq_true_eq, Bool.false_eq_true, false_iff]
    rw [hiff, h]
    simp
  | some m =>
    apply Bool.eq_iff_iff.mpr
    simp only [List.any_eq_true, decide_eq_true_eq]
    rw [hiff, h]
    simp

/-- From the head or a node at or before the target's place, `SeekForPrev` goes
no further back. -/
theorem seekForPrevLoop_atPos {p : Nat} (hp : p ≤ l.seekNode t) (fuel : Nat) :
    Iterator.seekForPrevLoop l t (fuel + 1) (l.atPos p) = some (l.atPos p) := by
  cases h : l.atPos p with
  | none => rfl
  | some n =>
    have hgt : cmp t n.key = .gt :=
      Std.OrientedCmp.gt_iff_lt.mpr ((l.lt_iff_le_seekNode t h).mpr hp)
    simp [Iterator.seekForPrevLoop, hgt]

theorem seekForPrev_eq :
    Iterator.seekForPrev l t = some (l.nodeList.filter fun n => cmp n.key t ≠ .gt).getLast? := by
  have hfilter := SortedList.filter_not_gt l.sorted_nodeList (probe t)
  change (l.nodeList.filter fun n => cmp n.key t ≠ .gt) = l.nodeList.take (l.seekNode t) ++
    ((l.atPos (l.seekNode t + 1)).filter fun n => cmp n.key t = .eq).toList at hfilter
  simp only [Iterator.seekForPrev, Iterator.seek, findGreaterOrEqual_eq, hfilter, Option.pure_def,
    Option.bind_eq_bind, Option.bind_some]
  cases hnext : l.atPos (l.seekNode t + 1) with
  | none =>
    -- every node is below the target: from the last one there is no step back
    have hend : l.seekNode t = l.nodeList.length := by
      rw [atPos, List.getElem?_eq_none_iff] at hnext
      have := l.seekNode_le t
      omega
    have hloop := l.seekForPrevLoop_atPos t (p := l.nodeList.length) hend.ge l.nodeList.length
    simp only [Option.isSome_none, Bool.false_eq_true, if_false, Iterator.seekToLast, findLast_eq,
      Option.bind_some, Option.filter_none, Option.toList_none, List.append_nil, hend,
      List.take_length]
    rw [← length_nodeList, hloop, atPos_length]
  | some m =>
    have hlen : l.seekNode t + 1 ≤ l.nodeList.length := (l.le_length_of_atPos hnext).2
    have hnot : cmp m.key t ≠ .lt := fun hlt => by
      have := (l.lt_iff_le_seekNode t hnext).mp hlt
      omega
    obtain ⟨k, hk⟩ : ∃ k, l.nodes.length = k + 1 := ⟨l.nodes.length - 1, by simp at hlen; omega⟩
    simp only [Option.isSome_some, if_true, hk, Iterator.seekForPrevLoop]
    by_cases hlt : cmp t m.key = .lt
    · -- the first node not below the target is above it: one step back, to the last node
      -- below it, which is the last node below the target
      have hgt : cmp m.key t = .gt := Std.OrientedCmp.gt_iff_lt.mpr hlt
      have hsame := l.seekNode_eq_of_eq m.key hnext Std.ReflCmp.compare_self
      have hprev : Iterator.prev l m = some (l.atPos (l.seekNode t)) := by
        rw [Iterator.prev, findLessThan_eq, show l.seekNode m.key = l.seekNode t by omega]
      have hloop := l.seekForPrevLoop_atPos t (le_refl (l.seekNode t)) k
      simp only [hlt, if_true, hprev, Option.bind_eq_bind, Option.bind_some, hloop,
        Option.filter_some, hgt,
        reduceCtorEq, decide_false, Bool.false_eq_true, if_false, Option.toList_none,
        List.append_nil, getLast?_take_seekNode]
    · -- it is the target itself
      have heq : cmp m.key t = .eq := by
        cases hc : cmp m.key t with
        | lt => exact absurd hc hnot
        | eq => rfl
        | gt => exact absurd (Std.OrientedCmp.gt_iff_lt.mp hc) hlt
      simp [hlt, Option.filter, heq]

end Model

theorem inlineSkipList_search_agrees [Std.TransCmp cmp] (t : α) :
    l.findGreaterOrEqual t = some (l.nodeList.filter fun n => cmp n.key t ≠ .lt).head? ∧
      l.findLessThan t = some (l.nodeList.filter fun n => cmp n.key t = .lt).getLast? ∧
      Iterator.seekForPrev l t = some (l.nodeList.filter fun n => cmp n.key t ≠ .gt).getLast? ∧
      l.contains t = some (l.nodeList.any fun n => cmp t n.key = .eq) ∧
      ∀ n : Node α, Iterator.prev l n =
        some (l.nodeList.filter fun m => cmp m.key n.key = .lt).getLast? := by
  refine ⟨?_, ?_, l.seekForPrev_eq t, l.contains_eq t, l.prev_eq⟩
  · rw [findGreaterOrEqual_eq, atPos_seekNode_succ]
  · rw [findLessThan_eq, atPos_seekNode]

/-- The keys 1, 3 and 5 on two levels, with 3 on level 0 only. -/
def sample : InlineSkipList Nat compare where
  nodes := [(1, 2), (3, 1), (5, 2)]
  maxHeight := 2
  sorted := by unfold SortedList.Sorted; decide
  height_pos := by decide
  height_le := by decide
  maxHeight_pos := by decide

theorem inlineSkipList_search_sample :
    sample.findGreaterOrEqual 4 = some (some ⟨3, 5⟩) ∧
      sample.findLessThan 4 = some (some ⟨2, 3⟩) ∧
      Iterator.seekForPrev sample 4 = some (some ⟨2, 3⟩) ∧
      sample.contains 4 = some false ∧
      Iterator.prev sample ⟨2, 3⟩ = some (some ⟨1, 1⟩) := by
  obtain ⟨hge, hlt, hle, hmem, hprev⟩ := inlineSkipList_search_agrees sample 4
  exact ⟨hge.trans (by decide), hlt.trans (by decide), hle.trans (by decide),
    hmem.trans (by decide), (hprev ⟨2, 3⟩).trans (by decide)⟩

end InlineSkipList

end RocksDB
