import Mathlib

/-!
# The levels of a skip list

A skip list whose pointers are consistent is determined by its nodes in order
and their heights: the list of level `i` links, in order, the nodes higher than
`i`. `next` is the pointer a node holds on a level, computed from the nodes;
nodes are numbered from 1 in order, and position 0 is the head, which is on
every level.
-/

namespace SkipList

variable {α : Type}

/-- A node pointer: the node's position and the key it holds. -/
structure Node (α : Type) where
  pos : Nat
  key : α
  deriving DecidableEq, Repr

/-- The position of the head (`none`) or of a node. -/
def posOf : Option (Node α) → Nat
  | none => 0
  | some n => n.pos

@[simp] theorem posOf_none : posOf (none : Option (Node α)) = 0 := rfl

@[simp] theorem posOf_some (n : Node α) : posOf (some n) = n.pos := rfl

/-- The first node of `nodes` higher than `level`, numbering them from `pos`. -/
def nextFrom (level : Nat) : List (α × Nat) → Nat → Option (Node α)
  | [], _ => none
  | (k, h) :: rest, pos => if level < h then some ⟨pos, k⟩ else nextFrom level rest (pos + 1)

/-- The pointer on `level` of the head (`p = 0`) or of the node at position `p`. -/
def next (nodes : List (α × Nat)) (level p : Nat) : Option (Node α) :=
  nextFrom level (nodes.drop p) (p + 1)

theorem nextFrom_some {level : Nat} {nodes : List (α × Nat)} {pos : Nat} {n : Node α}
    (h : nextFrom level nodes pos = some n) :
    pos ≤ n.pos ∧ ∃ height, nodes[n.pos - pos]? = some (n.key, height) ∧ level < height := by
  induction nodes generalizing pos with
  | nil => cases h
  | cons x rest ih =>
    obtain ⟨k, height⟩ := x
    simp only [nextFrom] at h
    split at h
    · cases h
      exact ⟨le_refl _, height, by simp, by assumption⟩
    · -- the node is further on: one position later in `rest`
      obtain ⟨hle, height', hget, hlt⟩ := ih h
      refine ⟨by omega, height', ?_, hlt⟩
      rw [show n.pos - pos = (n.pos - (pos + 1)) + 1 by omega]
      simpa using hget

/-- A pointer leads forward, to a node of the list with its key. -/
theorem next_some {nodes : List (α × Nat)} {level p : Nat} {n : Node α}
    (h : next nodes level p = some n) :
    p < n.pos ∧ ∃ height, nodes[n.pos - 1]? = some (n.key, height) ∧ level < height := by
  obtain ⟨hle, height, hget, hlt⟩ := nextFrom_some h
  refine ⟨by omega, height, ?_, hlt⟩
  rw [List.getElem?_drop, show p + (n.pos - (p + 1)) = n.pos - 1 by omega] at hget
  exact hget

/-- On level 0, where every node is, the pointer is to the next position. -/
theorem next_zero {nodes : List (α × Nat)} (hpos : ∀ x ∈ nodes, 0 < x.2) (p : Nat) :
    next nodes 0 p = nodes[p]?.map fun x => ⟨p + 1, x.1⟩ := by
  rw [next, ← List.head?_drop]
  cases hd : nodes.drop p with
  | nil => rfl
  | cons x rest =>
    have hx : 0 < x.2 := hpos x (List.mem_of_mem_drop (hd ▸ List.mem_cons_self))
    simp [nextFrom, hx]

end SkipList
