import Mathlib

/-!
# Binary heaps stored in an array

The implicit tree of an array: position `c > 0` is a child of `parent c =
(c - 1) / 2`, so the children of `p` are `2p + 1` and `2p + 2`. Under a strict
weak order `lt`, `HeapOrdered lt l` says that no parent is less than one of its
children; then no position is less than any of its descendants
(`HeapOrdered.desc`), and the root is a maximum of the array
(`HeapOrdered.root_max`).

A sift moves a hole through the array and fills it at the end. `UpOrder` and
`DownOrder` are what a sift up and a sift down keep about the pairs around the
hole: one `move` lemma per step of the hole, one `finish` lemma for filling it.
Filling the hole after moving a value into it from another position permutes
the filled array (`coe_set_swap`), so a sift keeps the multiset of its array.
-/

namespace ArrayHeap

variable {α : Type*}

/-! ## The tree of positions -/

def parent (i : Nat) : Nat := (i - 1) / 2

/-- `c` is a child of `p`. Position `0` is nobody's child. -/
def IsChild (c p : Nat) : Prop := 0 < c ∧ parent c = p

theorem isChild_iff {c p : Nat} : IsChild c p ↔ c = 2 * p + 1 ∨ c = 2 * p + 2 := by
  unfold IsChild parent
  omega

theorem IsChild.lt {c p : Nat} (h : IsChild c p) : p < c := by
  unfold IsChild parent at h
  omega

theorem IsChild.unique {c p q : Nat} (hp : IsChild c p) (hq : IsChild c q) : p = q :=
  hp.2.symm.trans hq.2

/-- Descendants: the transitive closure of `IsChild`. -/
inductive Desc : Nat → Nat → Prop
  | child {p c : Nat} : IsChild c p → Desc p c
  | step {a p c : Nat} : Desc a p → IsChild c p → Desc a c

theorem Desc.lt {a c : Nat} (h : Desc a c) : a < c := by
  induction h with
  | child hc => exact hc.lt
  | step _ hc ih => exact lt_trans ih hc.lt

/-- Every position but the root descends from the root. -/
theorem desc_zero {c : Nat} (hc : 0 < c) : Desc 0 c := by
  induction c using Nat.strong_induction_on with
  | _ c ih =>
    by_cases hp : parent c = 0
    · exact .child ⟨hc, hp⟩
    · have hlt : parent c < c := IsChild.lt (p := parent c) ⟨hc, rfl⟩
      exact .step (ih _ hlt (Nat.pos_of_ne_zero hp)) ⟨hc, rfl⟩

/-! ## Strict weak orders -/

section StrictWeakOrder

variable {lt : α → α → Bool} (hlt : IsStrictWeakOrder α (fun a b => lt a b = true))
include hlt

theorem swo_irrefl (a : α) : lt a a = false := by
  simpa using hlt.irrefl a

theorem swo_trans {a b c : α} (hab : lt a b = true) (hbc : lt b c = true) : lt a c = true :=
  hlt.trans a b c hab hbc

theorem swo_asymm {a b : α} (hab : lt a b = true) : lt b a = false := by
  cases h : lt b a
  · rfl
  · have := swo_irrefl hlt a
    rw [swo_trans hlt hab h] at this
    exact absurd this (by simp)

/-- Not being less is transitive: with `a < c` every `b` would be above `a` or
below `c`. -/
theorem swo_not_lt_trans {a b c : α} (hab : lt a b = false) (hbc : lt b c = false) :
    lt a c = false := by
  by_contra hac
  simp only [Bool.not_eq_false] at hac
  -- `b` is incomparable to `a` and to `c`, hence so are `a` and `c`
  have hba : lt b a = false := by
    cases h : lt b a
    · rfl
    · rw [swo_trans hlt h hac] at hbc; exact absurd hbc (by simp)
  have hcb : lt c b = false := by
    cases h : lt c b
    · rfl
    · rw [swo_trans hlt hac h] at hab; exact absurd hab (by simp)
  have := (hlt.incomp_trans a b c ⟨by simp [hab], by simp [hba]⟩ ⟨by simp [hbc], by simp [hcb]⟩).1
  exact this hac

end StrictWeakOrder

/-! ## The heap order -/

/-- No parent is less than one of its children. -/
def HeapOrdered (lt : α → α → Bool) (l : List α) : Prop :=
  ∀ p c (hp : p < l.length) (hc : c < l.length), IsChild c p → lt l[p] l[c] = false

/-- Every parent and child pair that does not touch the hole is in order. -/
def OrderedExcept (lt : α → α → Bool) (l : List α) (hole : Nat) : Prop :=
  ∀ p c (hp : p < l.length) (hc : c < l.length), IsChild c p → c ≠ hole → p ≠ hole →
    lt l[p] l[c] = false

/-- What a sift up keeps with `v` out of the array: the pairs off the hole are
in order, the hole's children are not above its parent, and `v` is not less
than them. -/
structure UpOrder (lt : α → α → Bool) (l : List α) (hole : Nat) (v : α) : Prop where
  except : OrderedExcept lt l hole
  grand : ∀ g c (hg : g < l.length) (hc : c < l.length), IsChild hole g → IsChild c hole →
    lt l[g] l[c] = false
  below : ∀ c (hc : c < l.length), IsChild c hole → lt v l[c] = false

/-- What a sift down keeps with `v` out of the array: the pairs off the hole are
in order, and neither `v` nor the hole's children are above the hole's parent. -/
structure DownOrder (lt : α → α → Bool) (l : List α) (hole : Nat) (v : α) : Prop where
  except : OrderedExcept lt l hole
  above : ∀ g (hg : g < l.length), IsChild hole g → lt l[g] v = false
  grand : ∀ g c (hg : g < l.length) (hc : c < l.length), IsChild hole g → IsChild c hole →
    lt l[g] l[c] = false

/-- `c` is a child of `p` and not less than any child of `p`: the child a sift
down moves up. -/
def IsMaxChild (lt : α → α → Bool) (l : List α) (p c : Nat) : Prop :=
  IsChild c p ∧ ∃ hc : c < l.length, ∀ s (hs : s < l.length), IsChild s p → lt l[c] l[s] = false

/-- Only the children are read: an array that agrees on them, and has no
children of `p` past the other's end, has the same maximal child. -/
theorem IsMaxChild.of_agree {lt : α → α → Bool} {l l' : List α} {p c : Nat}
    (h : IsMaxChild lt l p c) (hc : c < l'.length) (hlen : l'.length ≤ l.length)
    (hagree : ∀ i (hi : i < l'.length) (hi' : i < l.length), i ≠ p → l'[i] = l[i]) :
    IsMaxChild lt l' p c := by
  obtain ⟨hcp, hcl, hmax⟩ := h
  refine ⟨hcp, hc, fun s hs hsp => ?_⟩
  rw [hagree c hc hcl (Nat.ne_of_gt hcp.lt), hagree s hs (by omega) (Nat.ne_of_gt hsp.lt)]
  exact hmax s (by omega) hsp

section Order

variable {lt : α → α → Bool} {l : List α} {hole : Nat} {v : α}

theorem HeapOrdered.orderedExcept (h : HeapOrdered lt l) (hole : Nat) :
    OrderedExcept lt l hole :=
  fun p c hp hc hcp _ _ => h p c hp hc hcp

/-- Writing into the hole changes no pair off it. -/
theorem OrderedExcept.set (h : OrderedExcept lt l hole) (v : α) :
    OrderedExcept lt (l.set hole v) hole := by
  intro p c hp hc hcp hch hph
  rw [List.getElem_set_ne (Ne.symm hph), List.getElem_set_ne (Ne.symm hch)]
  exact h p c (by simpa using hp) (by simpa using hc) hcp hch hph

/-- Dropping the last position keeps the pairs among the others. -/
theorem OrderedExcept.dropLast (h : OrderedExcept lt l hole) :
    OrderedExcept lt l.dropLast hole := by
  intro p c hp hc hcp hch hph
  simp only [List.length_dropLast] at hp hc
  rw [List.getElem_dropLast, List.getElem_dropLast]
  exact h p c (by omega) (by omega) hcp hch hph

/-- A value appended to an ordered array starts a sift up from its position. -/
theorem upOrder_append (h : HeapOrdered lt l) (v : α) : UpOrder lt (l ++ [v]) l.length v := by
  refine ⟨fun p c hp hc hcp hch _ => ?_, fun g c _ hc _ hch => ?_, fun c hc hch => ?_⟩
  · simp only [List.length_append, List.length_singleton] at hp hc
    have hcl : c < l.length := by omega
    rw [List.getElem_append_left (by have := hcp.lt; omega), List.getElem_append_left hcl]
    exact h p c _ hcl hcp
  all_goals
    simp only [List.length_append, List.length_singleton] at hc
    have := hch.lt
    omega

/-- A hole at the root starts a sift down: it has no parent. -/
theorem downOrder_root (h : OrderedExcept lt l 0) (v : α) : DownOrder lt l 0 v :=
  ⟨h, fun _ _ hg => absurd hg.1 (Nat.lt_irrefl 0), fun _ _ _ _ hg => absurd hg.1 (Nat.lt_irrefl 0)⟩

variable (hlt : IsStrictWeakOrder α (fun a b => lt a b = true))
include hlt

/-- The hole moves up to its parent `p`, whose value is less than `v`. -/
theorem UpOrder.move (o : UpOrder lt l hole v) {p : Nat} (hp : IsChild hole p)
    (hpl : p < l.length) (hb : lt l[p] v = true) :
    UpOrder lt (l.set hole l[p]) p v := by
  have hph : p ≠ hole := Nat.ne_of_lt hp.lt
  refine ⟨fun q c hq hc hcq hcp hqp => ?_, fun g c hg hc hpg hcp => ?_, fun c hc hcp => ?_⟩
  · have hq' : q < l.length := by simpa using hq
    have hc' : c < l.length := by simpa using hc
    have hch : c ≠ hole := fun h => hqp (hcq.unique (h ▸ hp))
    rw [List.getElem_set_ne (Ne.symm hch)]
    by_cases hqh : q = hole
    · -- a child of the old hole, now under the parent's value
      subst hqh
      rw [List.getElem_set_self]
      exact o.grand p c hpl hc' hp hcq
    · rw [List.getElem_set_ne (Ne.symm hqh)]
      exact o.except q c hq' hc' hcq hch hqh
  · have hg' : g < l.length := by simpa using hg
    have hc' : c < l.length := by simpa using hc
    have hgh : g ≠ hole := Nat.ne_of_lt (lt_trans hpg.lt hp.lt)
    have hgp : lt l[g] l[p] = false := o.except g p hg' hpl hpg hph hgh
    rw [List.getElem_set_ne (Ne.symm hgh)]
    by_cases hch : c = hole
    · subst hch
      rw [List.getElem_set_self]
      exact hgp
    · rw [List.getElem_set_ne (Ne.symm hch)]
      exact swo_not_lt_trans hlt hgp (o.except p c hpl hc' hcp hch hph)
  · have hc' : c < l.length := by simpa using hc
    by_cases hch : c = hole
    · subst hch
      rw [List.getElem_set_self]
      exact swo_asymm hlt hb
    · rw [List.getElem_set_ne (Ne.symm hch)]
      -- `v` above `l[c]` would put `l[p]` above it too
      have hpc : lt l[p] l[c] = false := o.except p c hpl hc' hcp hch hph
      cases hvc : lt v l[c]
      · rfl
      · rw [swo_trans hlt hb hvc] at hpc
        exact absurd hpc (by simp)

omit hlt in
/-- The hole is filled with `v` where its parent, if any, is not less than `v`. -/
theorem UpOrder.finish (o : UpOrder lt l hole v)
    (hstop : ∀ g (hg : g < l.length), IsChild hole g → lt l[g] v = false) :
    HeapOrdered lt (l.set hole v) := by
  intro q c hq hc hcq
  have hq' : q < l.length := by simpa using hq
  have hc' : c < l.length := by simpa using hc
  by_cases hch : c = hole
  · subst hch
    rw [List.getElem_set_self, List.getElem_set_ne (Nat.ne_of_gt hcq.lt)]
    exact hstop q hq' hcq
  · rw [List.getElem_set_ne (Ne.symm hch)]
    by_cases hqh : q = hole
    · subst hqh
      rw [List.getElem_set_self]
      exact o.below c hc' hcq
    · rw [List.getElem_set_ne (Ne.symm hqh)]
      exact o.except q c hq' hc' hcq hch hqh

/-- The hole moves down to its child `c`, one not less than any child of the
hole, and above `v`. -/
theorem DownOrder.move (o : DownOrder lt l hole v) {c : Nat} (hc : IsChild c hole)
    (hcl : c < l.length)
    (hmax : ∀ s (hs : s < l.length), IsChild s hole → lt l[c] l[s] = false)
    (hb : lt v l[c] = true) :
    DownOrder lt (l.set hole l[c]) c v := by
  have hch : c ≠ hole := Nat.ne_of_gt hc.lt
  refine ⟨fun q d hq hd hdq hdc hqc => ?_, fun g hg hcg => ?_, fun g d hg hd hcg hdc => ?_⟩
  · have hq' : q < l.length := by simpa using hq
    have hd' : d < l.length := by simpa using hd
    by_cases hdh : d = hole
    · -- the old hole now holds `c`'s value, under the hole's parent
      subst hdh
      rw [List.getElem_set_self, List.getElem_set_ne (Nat.ne_of_gt hdq.lt)]
      exact o.grand q c hq' hcl hdq hc
    · rw [List.getElem_set_ne (Ne.symm hdh)]
      by_cases hqh : q = hole
      · subst hqh
        rw [List.getElem_set_self]
        exact hmax d hd' hdq
      · rw [List.getElem_set_ne (Ne.symm hqh)]
        exact o.except q d hq' hd' hdq hdh hqh
  · obtain rfl := hcg.unique hc
    rw [List.getElem_set_self]
    exact swo_asymm hlt hb
  · obtain rfl := hcg.unique hc
    have hd' : d < l.length := by simpa using hd
    have hdh : d ≠ g := Nat.ne_of_gt (lt_trans hcg.lt hdc.lt)
    rw [List.getElem_set_self, List.getElem_set_ne (Ne.symm hdh)]
    exact o.except c d hcl hd' hdc hdh hch

omit hlt in
/-- The hole is filled with `v` where no child is above `v`. -/
theorem DownOrder.finish (o : DownOrder lt l hole v)
    (hstop : ∀ c (hc : c < l.length), IsChild c hole → lt v l[c] = false) :
    HeapOrdered lt (l.set hole v) := by
  intro q d hq hd hdq
  have hq' : q < l.length := by simpa using hq
  have hd' : d < l.length := by simpa using hd
  by_cases hdh : d = hole
  · subst hdh
    rw [List.getElem_set_self, List.getElem_set_ne (Nat.ne_of_gt hdq.lt)]
    exact o.above q hq' hdq
  · rw [List.getElem_set_ne (Ne.symm hdh)]
    by_cases hqh : q = hole
    · subst hqh
      rw [List.getElem_set_self]
      exact hstop d hd' hdq
    · rw [List.getElem_set_ne (Ne.symm hqh)]
      exact o.except q d hq' hd' hdq hdh hqh

/-- No position is less than any of its descendants. -/
theorem HeapOrdered.desc (h : HeapOrdered lt l) {a c : Nat} (hd : Desc a c) (ha : a < l.length)
    (hc : c < l.length) : lt l[a] l[c] = false := by
  induction hd with
  | child hcp => exact h _ _ ha hc hcp
  | step hap hcp ih =>
    rename_i p c
    have hpl : p < l.length := lt_trans hcp.lt hc
    exact swo_not_lt_trans hlt (ih hpl) (h p c hpl hc hcp)

/-- The root is a maximum of the array. -/
theorem HeapOrdered.root_max (h : HeapOrdered lt l) (hl : 0 < l.length) :
    ∀ x ∈ l, lt l[0] x = false := by
  intro x hx
  obtain ⟨j, hj, rfl⟩ := List.getElem_of_mem hx
  rcases Nat.eq_zero_or_pos j with rfl | hj0
  · exact swo_irrefl hlt _
  · exact h.desc hlt (desc_zero hj0) hl hj

end Order

/-! ## Multisets of filled arrays -/

/-- Overwriting a position trades its value for the new one. -/
theorem coe_set_add (l : List α) {i : Nat} (hi : i < l.length) (a : α) :
    (↑(l.set i a) : Multiset α) + {l[i]} = ↑l + {a} := by
  conv_rhs => rw [← List.take_append_drop i l, List.drop_eq_getElem_cons hi]
  rw [List.set_eq_take_append_cons_drop, if_pos hi]
  simp only [← Multiset.coe_add, ← Multiset.cons_coe, ← Multiset.singleton_add]
  abel

/-- Moving the value at `j` into the hole `i` and then filling the new hole `j`
with `v` is a permutation of filling `i` with `v`. -/
theorem coe_set_swap (l : List α) {i j : Nat} (hi : i < l.length) (hj : j < l.length)
    (hij : i ≠ j) (v : α) :
    (↑((l.set i l[j]).set j v) : Multiset α) = ↑(l.set i v) := by
  have h1 := coe_set_add (l.set i l[j]) (by simpa using hj) v
  have h2 := coe_set_add l hi l[j]
  have h3 := coe_set_add l hi v
  rw [List.getElem_set_ne hij] at h1
  apply add_right_cancel (b := ({l[j]} + {l[i]} : Multiset α))
  calc (↑((l.set i l[j]).set j v) : Multiset α) + ({l[j]} + {l[i]})
      = ↑(l.set i l[j]) + {l[i]} + {v} := by rw [← add_assoc, h1, add_right_comm]
    _ = ↑l + {v} + {l[j]} := by rw [h2, add_right_comm]
    _ = ↑(l.set i v) + ({l[j]} + {l[i]}) := by rw [← h3, add_right_comm, add_assoc]

/-- Moving the last value to the root and dropping the last position leaves
everything but the root. -/
theorem coe_dropLast_set_zero (l : List α) (hl : 0 < l.length) :
    (↑((l.set 0 (l.getLast (List.ne_nil_of_length_pos hl))).dropLast) : Multiset α) + {l[0]} =
      ↑l := by
  obtain ⟨init, z, rfl⟩ := List.eq_nil_or_concat l |>.resolve_left (List.ne_nil_of_length_pos hl)
  simp only [List.concat_eq_append, List.getLast_append_singleton]
  rcases Nat.eq_zero_or_pos init.length with h0 | hpos
  · obtain rfl := List.eq_nil_of_length_eq_zero h0
    simp
  · -- the root is a position of `init`, and the last value moves into it
    rw [List.set_append_left 0 z hpos, List.dropLast_concat, List.getElem_append_left hpos,
      coe_set_add init hpos z, ← Multiset.coe_singleton, Multiset.coe_add]

end ArrayHeap
