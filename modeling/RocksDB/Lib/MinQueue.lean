import Mathlib

/-!
# Min-priority queues by their interface

A `std::priority_queue<T, std::vector<T>, std::greater<T>>` keeps a least element
on top: `push` adds an element, `top` reads a least one and `pop` removes it.
How the container lays its elements out in the vector does not show through this
interface, so a queue is modelled by its elements in ascending order, duplicates
kept.

## Main definitions

* `MinQueue`: a list in ascending order, the order a field.
* `MinQueue.push`, `MinQueue.top`, `MinQueue.pop`, `MinQueue.isEmpty`.

## Main results

* `top_eq_some_iff`: the top is an element at or below every element.
* `mem_push`, `mem_pop_iff` and `not_mem_pop`: what each operation does to
  membership; `exists_top_of_mem`: a queue with an element has a top.
* `nodup_push` and `nodup_pop`: a queue without repeated elements keeps none.
-/

/-- A min-priority queue: its elements in ascending order. -/
structure MinQueue (α : Type) [LE α] where
  toList : List α
  sorted : toList.Pairwise (· ≤ ·)

namespace MinQueue

variable {α : Type} [LE α]

instance : Membership α (MinQueue α) := ⟨fun q a => a ∈ q.toList⟩

@[simp] theorem mem_toList {q : MinQueue α} {a : α} : a ∈ q.toList ↔ a ∈ q := Iff.rfl

instance [DecidableEq α] (a : α) (q : MinQueue α) : Decidable (a ∈ q) :=
  inferInstanceAs (Decidable (a ∈ q.toList))

/-- The queue with no element. -/
def empty : MinQueue α := ⟨[], .nil⟩

/-- `empty()`. -/
def isEmpty (q : MinQueue α) : Bool := q.toList.isEmpty

/-- `top()`, where there is an element. -/
def top (q : MinQueue α) : Option α := q.toList.head?

/-- `pop()`; the queue stays empty when it is (the container leaves that case
undefined). -/
def pop (q : MinQueue α) : MinQueue α := ⟨q.toList.tail, q.sorted.tail⟩

@[simp] theorem not_mem_empty (a : α) : a ∉ (empty : MinQueue α) := List.not_mem_nil

theorem isEmpty_iff {q : MinQueue α} : q.isEmpty = true ↔ ∀ a, a ∉ q := by
  simp [isEmpty, List.eq_nil_iff_forall_not_mem]

theorem top_eq_none_iff {q : MinQueue α} : q.top = none ↔ q.isEmpty = true := by
  simp [top, isEmpty]

/-- A queue with an element has a top. -/
theorem exists_top_of_mem {q : MinQueue α} {a : α} (h : a ∈ q) : ∃ t, q.top = some t := by
  obtain ⟨l, hl⟩ := q
  cases l with
  | nil => exact absurd h List.not_mem_nil
  | cons x xs => exact ⟨x, rfl⟩

/-- A queue that is not empty has a top. -/
theorem exists_top_of_isEmpty_eq_false {q : MinQueue α} (h : q.isEmpty = false) :
    ∃ t, q.top = some t := by
  obtain ⟨l, hl⟩ := q
  cases l with
  | nil => cases h
  | cons x xs => exact ⟨x, rfl⟩

theorem mem_of_mem_pop {q : MinQueue α} {a : α} (h : a ∈ q.pop) : a ∈ q :=
  List.mem_of_mem_tail h

/-- `pop` removes the top and keeps every other element. -/
theorem mem_pop_of_top_ne {q : MinQueue α} {a : α} (h : a ∈ q) (hne : q.top ≠ some a) :
    a ∈ q.pop := by
  obtain ⟨l, hl⟩ := q
  cases l with
  | nil => exact absurd h List.not_mem_nil
  | cons x xs =>
    rcases List.mem_cons.mp h with rfl | h
    · exact absurd rfl hne
    · exact h

/-- Apart from the top, `pop` keeps the elements. -/
theorem mem_pop_iff {q : MinQueue α} {t a : α} (ht : q.top = some t) (ha : a ≠ t) :
    a ∈ q.pop ↔ a ∈ q :=
  ⟨mem_of_mem_pop, fun h => mem_pop_of_top_ne h fun h' => ha (Option.some.inj (ht.symm.trans h')).symm⟩

/-- In a queue without repeated elements, `pop` removes every copy of the top. -/
theorem not_mem_pop {q : MinQueue α} {a : α} (hq : q.toList.Nodup) (ha : q.top = some a) :
    a ∉ q.pop := by
  obtain ⟨l, hl⟩ := q
  cases l with
  | nil => cases ha
  | cons x xs =>
    cases ha
    exact (List.nodup_cons.mp hq).1

theorem nodup_pop {q : MinQueue α} (hq : q.toList.Nodup) : q.pop.toList.Nodup :=
  hq.sublist (List.tail_sublist _)

theorem length_pop {q : MinQueue α} {a : α} (ha : q.top = some a) :
    q.pop.toList.length + 1 = q.toList.length := by
  obtain ⟨l, hl⟩ := q
  cases l with
  | nil => cases ha
  | cons x xs => rfl

section Order

variable [Std.IsLinearOrder α]

/-- **The top is a least element**, and a least element is the top: an element
below every element is the head of the ascending list. -/
theorem top_eq_some_iff {q : MinQueue α} {a : α} : q.top = some a ↔ a ∈ q ∧ ∀ b ∈ q, a ≤ b := by
  obtain ⟨l, hl⟩ := q
  cases l with
  | nil =>
    show none = some a ↔ a ∈ ([] : List α) ∧ _
    simp
  | cons x xs =>
    have hx : ∀ b ∈ x :: xs, x ≤ b := by
      intro b hb
      rcases List.mem_cons.mp hb with rfl | hb
      · exact Std.le_refl b
      · exact List.rel_of_pairwise_cons hl hb
    show some x = some a ↔ a ∈ x :: xs ∧ ∀ b ∈ x :: xs, a ≤ b
    constructor
    · rintro ⟨⟩
      exact ⟨List.mem_cons_self, hx⟩
    · rintro ⟨ha, hle⟩
      exact congrArg some (Std.le_antisymm (hx a ha) (hle x List.mem_cons_self))

theorem top_le {q : MinQueue α} {a b : α} (ha : q.top = some a) (hb : b ∈ q) : a ≤ b :=
  (top_eq_some_iff.mp ha).2 b hb

theorem mem_of_top {q : MinQueue α} {a : α} (ha : q.top = some a) : a ∈ q :=
  (top_eq_some_iff.mp ha).1

variable [DecidableLE α]

/-- `push(a)`. -/
def push (q : MinQueue α) (a : α) : MinQueue α :=
  ⟨q.toList.orderedInsert (· ≤ ·) a, q.sorted.orderedInsert a _⟩

@[simp] theorem mem_push {q : MinQueue α} {a b : α} : a ∈ q.push b ↔ a = b ∨ a ∈ q :=
  List.mem_orderedInsert _

theorem nodup_push {q : MinQueue α} {a : α} (ha : a ∉ q) (hq : q.toList.Nodup) :
    (q.push a).toList.Nodup :=
  (List.perm_orderedInsert _ a q.toList).nodup_iff.mpr (List.nodup_cons.mpr ⟨ha, hq⟩)

end Order

end MinQueue
