import Mathlib

/-!
# Circular lists with a sentinel and a cursor

A circular doubly linked list with a sentinel node is seen here as the list of its
elements, from the sentinel's successor on. A pointer into it is an `Option`: `none`
is the sentinel. `prevOf` and `succOf` follow the links, and `insertAfter` links a new
element in after a pointer.

A cursor `c` splits a list without repeats as `low ++ high` with `low.getLast? = c`:
`high` is what lies after the cursor. The lemmas below say how each operation moves
that split, which is all that code keeping such a cursor needs.
-/

namespace List

variable {α : Type} [DecidableEq α]

/-- The element linked before `a`, or the sentinel (`none`) when `a` comes first. -/
def prevOf : List α → α → Option α
  | x :: y :: t, a => if y = a then some x else prevOf (y :: t) a
  | _, _ => none

/-- The element linked after `a`, or the sentinel (`none`) when `a` comes last. -/
def succOf : List α → α → Option α
  | [], _ => none
  | x :: t, a => if x = a then t.head? else succOf t a

/-- The successor of a pointer: the sentinel's successor is the first element. -/
def nextOf (l : List α) : Option α → Option α
  | none => l.head?
  | some p => l.succOf p

/-- Link `a` in after the pointer: after the sentinel it becomes the first element. -/
def insertAfter : Option α → α → List α → List α
  | none, a, l => a :: l
  | some _, _, [] => []
  | some p, a, x :: t => if x = p then x :: a :: t else x :: insertAfter (some p) a t

theorem prevOf_eq_none_of_not_mem {a : α} : ∀ {l : List α}, a ∉ l.tail → l.prevOf a = none
  | [], _ => rfl
  | [_], _ => rfl
  | x :: y :: t, h => by
    have hy : y ≠ a := fun hy => h (by simp [hy])
    have ht : a ∉ t := fun ht => h (by simp [ht])
    simp only [prevOf, if_neg hy]
    exact prevOf_eq_none_of_not_mem (by simpa using ht)

/-- The element before `a` is the last of what stands before it. -/
theorem prevOf_append_cons {a : α} {high : List α} :
    ∀ {low : List α}, (low ++ a :: high).Nodup → (low ++ a :: high).prevOf a = low.getLast?
  | [], hnd => prevOf_eq_none_of_not_mem (by simpa using (List.nodup_cons.mp hnd).1)
  | [x], _ => by simp [prevOf]
  | x :: y :: t, hnd => by
    have hya : y ≠ a := by
      intro hya
      subst hya
      simp at hnd
    have ih : (y :: t ++ a :: high).prevOf a = (y :: t).getLast? :=
      prevOf_append_cons (List.nodup_cons.mp hnd).2
    simp only [cons_append, prevOf, if_neg hya] at ih ⊢
    rw [ih]
    simp

theorem succOf_append_of_getLast? {p : α} {high : List α} :
    ∀ {low : List α}, (low ++ high).Nodup → low.getLast? = some p →
      (low ++ high).succOf p = high.head?
  | [], _, h => by simp at h
  | [x], _, h => by
    simp only [getLast?_singleton, Option.some.injEq] at h
    simp [succOf, h]
  | x :: y :: t, hnd, h => by
    have hp : p ∈ y :: t := by
      rw [getLast?_cons_cons] at h
      exact mem_of_getLast? h
    have hxp : x ≠ p := by
      rintro rfl
      exact (List.nodup_cons.mp hnd).1 (mem_append_left _ hp)
    rw [getLast?_cons_cons] at h
    simp only [cons_append, succOf, if_neg hxp]
    exact succOf_append_of_getLast? (List.nodup_cons.mp hnd).2 h

/-- The successor of the cursor is the first element after it. -/
theorem nextOf_getLast? {low high : List α} (hnd : (low ++ high).Nodup) :
    (low ++ high).nextOf low.getLast? = high.head? := by
  cases hlast : low.getLast? with
  | none =>
    rw [getLast?_eq_none_iff] at hlast
    simp [nextOf, hlast]
  | some p => exact succOf_append_of_getLast? hnd hlast

/-- Linking in after the cursor puts the new element first after it. -/
theorem insertAfter_getLast? (a : α) {low high : List α} (hnd : (low ++ high).Nodup) :
    insertAfter low.getLast? a (low ++ high) = low ++ a :: high := by
  induction low with
  | nil => simp [insertAfter]
  | cons x t ih =>
    cases t with
    | nil => simp [insertAfter]
    | cons y t =>
      obtain ⟨p, hp⟩ : ∃ p, (y :: t).getLast? = some p := Option.isSome_iff_exists.mp (by simp)
      have hxp : x ≠ p := by
        rintro rfl
        exact (List.nodup_cons.mp hnd).1 (mem_append_left _ (mem_of_getLast? hp))
      have ih := ih (List.nodup_cons.mp hnd).2
      rw [hp] at ih
      rw [getLast?_cons_cons, hp]
      simp only [cons_append, insertAfter, if_neg hxp] at ih ⊢
      rw [ih]

theorem getLast?_erase_of_ne {e : α} {l : List α} (hnd : l.Nodup) (h : l.getLast? ≠ some e) :
    (l.erase e).getLast? = l.getLast? := by
  induction l with
  | nil => rfl
  | cons x t ih =>
    by_cases hxe : x = e
    · subst hxe
      cases t with
      | nil => simp at h
      | cons y t => simp
    · cases t with
      | nil => simp [hxe]
      | cons y t =>
        rw [getLast?_cons_cons] at h ⊢
        rw [erase_cons_tail (by simpa using hxe), getLast?_cons, ih (List.nodup_cons.mp hnd).2 h]
        simp [getLast?_cons]

/-- Unlinking `e` from a split list: `e` leaves whichever side holds it, and the cursor
steps back to `e`'s predecessor when it pointed at `e`. -/
theorem erase_split {low high : List α} {e : α} (hnd : (low ++ high).Nodup)
    (he : e ∈ low ++ high) :
    (low ++ high).erase e = low.erase e ++ high.erase e ∧
      (low.erase e).getLast? =
        if low.getLast? = some e then (low ++ high).prevOf e else low.getLast? := by
  have hdisj := (List.nodup_append.mp hnd).2.2
  rcases List.mem_append.mp he with hlow | hhigh
  · have hnhigh : e ∉ high := fun hh => hdisj e hlow e hh rfl
    refine ⟨by rw [erase_append_left _ hlow, erase_of_not_mem hnhigh], ?_⟩
    split_ifs with hlast
    · obtain ⟨ys, rfl⟩ := getLast?_eq_some_iff.mp hlast
      have hnd' : (ys ++ e :: high).Nodup := by simpa using hnd
      have hys : e ∉ ys := fun hy => (List.nodup_append.mp hnd').2.2 e hy e mem_cons_self rfl
      rw [append_assoc, singleton_append, prevOf_append_cons hnd',
        erase_append_right _ hys]
      simp
    · exact getLast?_erase_of_ne (List.nodup_append.mp hnd).1 hlast
  · have hnlow : e ∉ low := fun hl => hdisj e hl e hhigh rfl
    have hlast : low.getLast? ≠ some e := fun h => hnlow (mem_of_getLast? h)
    refine ⟨by rw [erase_append_right _ hnlow, erase_of_not_mem hnlow], ?_⟩
    rw [if_neg hlast, erase_of_not_mem hnlow]

omit [DecidableEq α] in
/-- Taking elements from the front of a split list: a prefix that reaches into `high` holds
all of `low`. -/
theorem subset_of_prefix_append {pre rest low high : List α} (h : pre ++ rest = low ++ high)
    (hdisj : ∀ a ∈ low, a ∉ high) {x : α} (hx : x ∈ pre) (hxh : x ∈ high) :
    ∀ a ∈ low, a ∈ pre := by
  rcases List.append_eq_append_iff.mp h with ⟨a', hlow, -⟩ | ⟨c', hpre, -⟩
  · exact absurd hxh (hdisj x (hlow ▸ List.mem_append_left _ hx))
  · intro a ha
    rw [hpre]
    exact List.mem_append_left _ ha

end List
