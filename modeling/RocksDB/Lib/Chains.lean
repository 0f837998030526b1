import Mathlib

/-!
# Arrays of chains

The bucket array of a chained hash table is a list of chains. A search walks one chain
to its first match; an update splices that chain at the place the search stopped; a
rehash pushes every entry, in turn, onto the front of the chain its new index selects.

## Main results

* `find?_splice_findIdx` and `find?_splice_findIdx_self`: splicing a chain where a
  search for `q` stopped changes no search for a test that `q`'s matches fail.
* `find?_eraseIdx_findIdx_eq_none`: unlinking the first match of `q` leaves none when
  the matches of `q` share one key and the keys are distinct.
* `perm_flatten_set`: the entries of the array after one chain is replaced.
* `getD_pushAll` and `perm_flatten_pushAll`: what a rehash puts in each chain.
* `find?_flatten_of_confined`: a search over all entries is a search over one chain
  when only that chain can match.
* `AList.length_keys_insert_of_notMem` and its kin: how many keys the map a table stands
  for has after an insertion or an erasure.
-/

namespace List

variable {α β : Type}

/-! ### Searching and splicing one chain -/

/-- Splicing the chain where the search for `q` stopped, so that `u` stands in place of
the match (or past the end), changes no search for a test `p` that every match of `q`
fails and that `u` fails. -/
theorem find?_splice_findIdx {c u : List α} {p q : α → Bool}
    (hpq : ∀ a ∈ c, q a = true → p a = false) (hu : ∀ a ∈ u, p a = false) :
    (c.take (c.findIdx q) ++ u ++ c.drop (c.findIdx q + 1)).find? p = c.find? p := by
  induction c with
  | nil => simpa [List.find?_eq_none] using hu
  | cons a c ih =>
    have ih := ih fun b hb => hpq b (mem_cons_of_mem a hb)
    cases hq : q a with
    | true =>
      -- the match is the head: it makes way for `u`
      have hpa : p a = false := hpq a mem_cons_self hq
      have hnone : u.find? p = none := List.find?_eq_none.mpr fun b hb => by simp [hu b hb]
      simp [findIdx_cons, hq, find?_append, hnone, hpa]
    | false =>
      cases hp : p a <;> simp_all [findIdx_cons]

/-- The search for `q` finds what stands in the place where it stopped. -/
theorem find?_splice_findIdx_self {c : List α} {q : α → Bool} {x : α} (hx : q x = true) :
    (c.take (c.findIdx q) ++ [x] ++ c.drop (c.findIdx q + 1)).find? q = some x := by
  induction c with
  | nil => simp [hx]
  | cons a c ih => cases hq : q a <;> simp_all [findIdx_cons]

/-- Where every match of `q` has the key `k` and the keys of `c` are distinct, `c` has
one match at most, and unlinking the first leaves none. -/
theorem find?_eraseIdx_findIdx_eq_none {c : List α} {q : α → Bool} {g : α → β} {k : β}
    (hc : (c.map g).Nodup) (hq : ∀ a, q a = true → g a = k) :
    (c.eraseIdx (c.findIdx q)).find? q = none := by
  induction c with
  | nil => rfl
  | cons a c ih =>
    rw [map_cons, nodup_cons] at hc
    obtain ⟨ha, hc⟩ := hc
    cases hqa : q a with
    | true =>
      -- the head is the match; a second one would repeat its key
      simp only [findIdx_cons, hqa, cond_true, eraseIdx_cons_zero, List.find?_eq_none]
      intro b hb hqb
      exact ha (List.mem_map.mpr ⟨b, hb, (hq b hqb).trans (hq a hqa).symm⟩)
    | false => simp [findIdx_cons, hqa, ih hc]

/-- The search for `q` over a chain with distinct keys finds the same when the chain is
walked the other way, if the matches of `q` share one key. -/
theorem find?_reverse_of_nodup {l : List α} {q : α → Bool} {g : α → β} {k : β}
    (hl : (l.map g).Nodup) (hq : ∀ a, q a = true → g a = k) :
    l.reverse.find? q = l.find? q := by
  induction l with
  | nil => rfl
  | cons a l ih =>
    rw [map_cons, nodup_cons] at hl
    obtain ⟨ha, hl⟩ := hl
    cases hqa : q a with
    | true =>
      -- no match after the head, else its key would repeat
      have hnone : l.find? q = none := List.find?_eq_none.mpr fun b hb hqb =>
        ha (List.mem_map.mpr ⟨b, hb, (hq b hqb).trans (hq a hqa).symm⟩)
      simp [find?_append, ih hl, hnone, hqa]
    | false => simp [find?_append, ih hl, hqa]

/-- A search for `q` through a filter that passes every match of `q` finds what the search
of the whole list finds. -/
theorem find?_filter_of_imp {l : List α} {p q : α → Bool} (h : ∀ a, q a = true → p a = true) :
    (l.filter p).find? q = l.find? q := by
  induction l with
  | nil => rfl
  | cons a l ih =>
    cases hq : q a with
    | true => simp [h a hq, hq]
    | false => cases hp : p a <;> simp [hp, hq, ih]

/-! ### The array -/

/-- The entries of the array after chain `i` is replaced by `c`: `c`, then the entries
of the other chains. -/
theorem perm_flatten_set {l : List (List α)} {i : Nat} (hi : i < l.length) (c : List α) :
    (l.set i c).flatten.Perm (c ++ (l.set i []).flatten) := by
  rw [set_eq_take_append_cons_drop, if_pos hi, set_eq_take_append_cons_drop, if_pos hi]
  simp only [flatten_append, flatten_cons, nil_append]
  calc (l.take i).flatten ++ (c ++ (l.drop (i + 1)).flatten)
      = ((l.take i).flatten ++ c) ++ (l.drop (i + 1)).flatten := (append_assoc ..).symm
    _ ~ (c ++ (l.take i).flatten) ++ (l.drop (i + 1)).flatten := perm_append_comm.append_right _
    _ = c ++ ((l.take i).flatten ++ (l.drop (i + 1)).flatten) := append_assoc ..

/-- The entries of the array: those of chain `i`, then those of the others. -/
theorem perm_flatten_getD {l : List (List α)} {i : Nat} (hi : i < l.length) :
    l.flatten.Perm (l.getD i [] ++ (l.set i []).flatten) := by
  have h := perm_flatten_set hi l[i]
  rw [set_getElem_self] at h
  rwa [getD_eq_getElem _ _ hi]

/-- Chain `j` after chain `i` is replaced by `c`. -/
theorem getD_set_of_lt {l : List (List α)} {i : Nat} (hi : i < l.length) (c : List α) (j : Nat) :
    (l.set i c).getD j [] = if i = j then c else l.getD j [] := by
  simp only [getD_eq_getElem?_getD, getElem?_set, if_pos hi]
  split_ifs <;> rfl

/-- An entry of the array sits in some chain. -/
theorem exists_mem_getD_of_mem_flatten {l : List (List α)} {a : α} (h : a ∈ l.flatten) :
    ∃ i, a ∈ l.getD i [] := by
  obtain ⟨c, hc, ha⟩ := mem_flatten.mp h
  obtain ⟨i, hi, rfl⟩ := mem_iff_getElem.mp hc
  exact ⟨i, by rwa [← getElem_eq_getD]⟩

/-- A search over all entries is the search over chain `i` when no other chain holds a
match. -/
theorem find?_flatten_of_confined {l : List (List α)} {p : α → Bool} {i : Nat}
    (hp : ∀ j, j ≠ i → ∀ a ∈ l.getD j [], p a = false) :
    l.flatten.find? p = (l.getD i []).find? p := by
  induction l generalizing i with
  | nil => rfl
  | cons c l ih =>
    cases i with
    | zero =>
      -- the rest of the array holds no match
      have hnone : l.flatten.find? p = none := List.find?_eq_none.mpr fun a ha hpa => by
        obtain ⟨j, hj⟩ := exists_mem_getD_of_mem_flatten ha
        simp [hp (j + 1) (by omega) a (by simpa using hj)] at hpa
      simp [find?_append, hnone]
    | succ i =>
      have hc : c.find? p = none := List.find?_eq_none.mpr fun a ha hpa => by
        simp [hp 0 (by omega) a (by simpa using ha)] at hpa
      simp only [flatten_cons, find?_append, hc, Option.none_or, getD_cons_succ]
      exact ih fun j hj => hp (j + 1) (by omega)

/-! ### Pushing entries onto chains -/

/-- Chain `j` after `x` is pushed onto chain `i`. -/
theorem getD_modify_cons {l : List (List α)} {i j : Nat} (hi : i < l.length) (x : α) :
    (l.modify i (x :: ·)).getD j [] = if i = j then x :: l.getD j [] else l.getD j [] := by
  simp only [getD_eq_getElem?_getD, getElem?_modify]
  split_ifs with h
  · subst h
    simp [getElem?_eq_getElem hi]
  · cases l[j]? <;> simp

/-- The array after `x` is pushed onto chain `i`: `x`, then the entries before. -/
theorem perm_flatten_modify_cons {l : List (List α)} {i : Nat} (hi : i < l.length) (x : α) :
    (l.modify i (x :: ·)).flatten.Perm (x :: l.flatten) := by
  have hset : l.modify i (x :: ·) = l.set i (x :: l.getD i []) := by
    rw [modify_eq_set_getElem?, getElem?_eq_getElem hi, ← getElem_eq_getD]
    rfl
  rw [hset]
  exact (perm_flatten_set hi _).trans ((perm_flatten_getD hi).symm.cons x)

variable (f : α → Nat)

/-- Each entry of `xs`, in turn, pushed onto the chain `f` gives it. -/
def pushAll (l : List (List α)) (xs : List α) : List (List α) :=
  xs.foldl (fun l x => l.modify (f x) (x :: ·)) l

theorem length_pushAll (l : List (List α)) (xs : List α) :
    (pushAll f l xs).length = l.length := by
  induction xs generalizing l with
  | nil => rfl
  | cons x xs ih =>
    show (pushAll f (l.modify (f x) (x :: ·)) xs).length = l.length
    rw [ih, length_modify]

/-- After the pushes, chain `j` holds the entries of `xs` that `f` sends to `j`, the last
pushed first, in front of what it held. -/
theorem getD_pushAll {l : List (List α)} {xs : List α} (hf : ∀ x ∈ xs, f x < l.length)
    (j : Nat) :
    (pushAll f l xs).getD j [] = (xs.filter (f · = j)).reverse ++ l.getD j [] := by
  induction xs generalizing l with
  | nil => rfl
  | cons x xs ih =>
    have hx : f x < l.length := hf x mem_cons_self
    have ih := ih (l := l.modify (f x) (x :: ·)) fun y hy => by
      simpa using hf y (mem_cons_of_mem x hy)
    simp only [pushAll, foldl_cons] at ih ⊢
    rw [ih, getD_modify_cons hx]
    by_cases h : f x = j <;> simp [h]

/-- The pushes keep the entries, in some order. -/
theorem perm_flatten_pushAll {l : List (List α)} {xs : List α} (hf : ∀ x ∈ xs, f x < l.length) :
    (pushAll f l xs).flatten.Perm (xs.reverse ++ l.flatten) := by
  induction xs generalizing l with
  | nil => rfl
  | cons x xs ih =>
    have hx : f x < l.length := hf x mem_cons_self
    have ih := ih (l := l.modify (f x) (x :: ·)) fun y hy => by
      simpa using hf y (mem_cons_of_mem x hy)
    simp only [pushAll, foldl_cons, reverse_cons, append_assoc, singleton_append] at ih ⊢
    exact ih.trans ((perm_flatten_modify_cons hx x).append_left _)

end List

/-! ### The map a table stands for -/

namespace AList

variable {γ : Type} {δ : γ → Type} [DecidableEq γ] {s : AList δ} {a : γ}

theorem length_keys_insert_of_mem (h : a ∈ s) (b : δ a) :
    (s.insert a b).keys.length = s.keys.length := by
  have hk : a ∈ s.keys := mem_keys.mp h
  have := List.length_pos_of_mem hk
  rw [keys_insert, List.length_cons, List.length_erase_of_mem hk]
  omega

theorem length_keys_insert_of_notMem (h : a ∉ s) (b : δ a) :
    (s.insert a b).keys.length = s.keys.length + 1 := by
  rw [keys_insert, List.length_cons, List.erase_of_not_mem (mt mem_keys.mpr h)]

theorem length_keys_erase_of_mem (h : a ∈ s) : (s.erase a).keys.length = s.keys.length - 1 := by
  rw [keys_erase, List.length_erase_of_mem (mem_keys.mp h)]

theorem erase_of_notMem (h : a ∉ s) : s.erase a = s :=
  AList.ext (List.kerase_of_notMem_keys h)

end AList
