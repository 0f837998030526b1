import Mathlib

/-!
# Binary searches over an interval of indices

Two shapes of binary search.

`lowerBound p` looks in `[lo, hi)` for the first index where `p` fails: it
probes the midpoint, moves `lo` past an index that passes and `hi` down to one
that fails. When `p` passes on a prefix of `[0, n)`, everything before `lo`
passes and everything in `[hi, n)` fails (`LowerInv`), so the search ends at the
first failing index, or at `n`: on a list it is `List.findIdx`
(`lowerBound_eq_findIdx`).

`find below above` looks in `[lo, hi]` for an index that is neither too small
(`below`) nor too large (`above`), and answers the first such index it probes.
When `below` holds on a prefix and `above` on a suffix, the indices that are
neither form a block, and the search finds one of them whenever the block is not
empty (`find_isSome`).

Both run on fuel; every probe shrinks the interval, so fuel above its length is
enough.
-/

namespace BinarySearch

/-! ## The first index where a predicate fails -/

section LowerBound

variable (p : Nat → Bool)

/-- The search in `[lo, hi)`, for at most `fuel` probes. -/
def lowerBound : Nat → Nat → Nat → Nat
  | 0, _, hi => hi
  | fuel + 1, lo, hi =>
    if lo < hi then
      let mid := (lo + hi) / 2
      if p mid then lowerBound fuel (mid + 1) hi else lowerBound fuel lo mid
    else hi

/-- The interval `[lo, hi)` of the search within `[0, n)`: everything before
`lo` passes, everything from `hi` on fails. -/
def LowerInv (n lo hi : Nat) : Prop :=
  lo ≤ hi ∧ hi ≤ n ∧ (∀ i, i < lo → p i = true) ∧ (∀ i, hi ≤ i → i < n → p i = false)

/-- `p` passes on a prefix of `[0, n)`. -/
def PassesOnPrefix (n : Nat) : Prop :=
  ∀ i j, i ≤ j → j < n → p j = true → p i = true

variable {p}

theorem lowerInv_init (n : Nat) : LowerInv p n 0 n :=
  ⟨Nat.zero_le n, le_rfl, fun _ h => absurd h (Nat.not_lt_zero _), fun _ h₁ h₂ => by omega⟩

/-- A probe that passes: every index up to it passes. -/
theorem LowerInv.pass {n lo hi : Nat} (hmono : PassesOnPrefix p n) (h : LowerInv p n lo hi)
    (hlt : lo < hi) (hmid : p ((lo + hi) / 2) = true) : LowerInv p n ((lo + hi) / 2 + 1) hi := by
  obtain ⟨-, hhi, hbelow, habove⟩ := h
  refine ⟨by omega, hhi, fun i hi' => ?_, habove⟩
  exact hmono i ((lo + hi) / 2) (by omega) (by omega) hmid

/-- A probe that fails: every index from it on fails. -/
theorem LowerInv.fail {n lo hi : Nat} (hmono : PassesOnPrefix p n) (h : LowerInv p n lo hi)
    (hlt : lo < hi) (hmid : p ((lo + hi) / 2) = false) : LowerInv p n lo ((lo + hi) / 2) := by
  obtain ⟨-, hhi, hbelow, habove⟩ := h
  refine ⟨by omega, by omega, hbelow, fun i hmi hn => ?_⟩
  by_contra hpass
  have := hmono ((lo + hi) / 2) i hmi hn (by simpa using hpass)
  rw [hmid] at this
  exact Bool.false_ne_true this

/-- With fuel for the interval's length, the search ends on a point where the
invariant meets itself. -/
theorem lowerBound_inv {n : Nat} (hmono : PassesOnPrefix p n) :
    ∀ fuel lo hi, LowerInv p n lo hi → hi - lo ≤ fuel →
      LowerInv p n (lowerBound p fuel lo hi) (lowerBound p fuel lo hi) := by
  intro fuel
  induction fuel with
  | zero =>
    intro lo hi h hfuel
    obtain ⟨hle, hhi, hbelow, habove⟩ := h
    show LowerInv p n hi hi
    exact ⟨le_rfl, hhi, fun i hi' => hbelow i (by omega), habove⟩
  | succ fuel ih =>
    intro lo hi h hfuel
    unfold lowerBound
    by_cases hlt : lo < hi
    · rw [if_pos hlt]
      dsimp only
      cases hmid : p ((lo + hi) / 2)
      · exact ih _ _ (h.fail hmono hlt hmid) (by omega)
      · exact ih _ _ (h.pass hmono hlt hmid) (by omega)
    · rw [if_neg hlt]
      obtain ⟨hle, hhi, hbelow, habove⟩ := h
      exact ⟨le_rfl, hhi, fun i hi' => hbelow i (by omega), habove⟩

/-- On a list whose elements pass `q` from some point on, the search for the
first element that passes is `List.findIdx`. -/
theorem lowerBound_eq_findIdx {α : Type} {l : List α} {q : α → Bool} (d : α)
    (hmono : ∀ i j (hij : i ≤ j) (hj : j < l.length), q l[i] = true → q l[j] = true)
    {fuel : Nat} (hfuel : l.length ≤ fuel) :
    lowerBound (fun i => !q (l.getD i d)) fuel 0 l.length = l.findIdx q := by
  have hprefix : PassesOnPrefix (fun i => !q (l.getD i d)) l.length := by
    intro i j hij hj hpass
    dsimp only at hpass ⊢
    rw [List.getD_eq_getElem _ _ (by omega)] at hpass ⊢
    simp only [Bool.not_eq_eq_eq_not, Bool.not_true] at hpass ⊢
    cases hq : q l[i]
    · rfl
    · rw [hmono i j hij hj hq] at hpass
      exact absurd hpass (by decide)
  obtain ⟨-, hle, hbelow, habove⟩ :=
    lowerBound_inv hprefix fuel 0 l.length (lowerInv_init _) (by omega)
  set r := lowerBound (fun i => !q (l.getD i d)) fuel 0 l.length
  rcases Nat.lt_or_eq_of_le hle with hr | hr
  · -- the element at `r` is the first that passes
    refine ((List.findIdx_eq hr).mpr ⟨?_, fun j hj => ?_⟩).symm
    · have := habove r le_rfl hr
      dsimp only at this
      rw [List.getD_eq_getElem _ _ hr] at this
      simpa using this
    · have := hbelow j hj
      dsimp only at this
      rw [List.getD_eq_getElem _ _ (show j < l.length by omega)] at this
      simpa using this
  · -- no element passes
    rw [hr, eq_comm, List.findIdx_eq_length]
    intro x hx
    obtain ⟨j, hj, rfl⟩ := List.getElem_of_mem hx
    have := hbelow j (by omega)
    dsimp only at this
    rw [List.getD_eq_getElem _ _ hj] at this
    simpa using this

end LowerBound

/-! ## An index between two monotone predicates -/

section Find

variable (below above : Int → Prop) [DecidablePred below] [DecidablePred above]

/-- The search in `[lo, hi]`, for at most `fuel` probes. -/
def find : Nat → Int → Int → Option Int
  | 0, _, _ => none
  | fuel + 1, lo, hi =>
    if lo ≤ hi then
      let mid := (lo + hi) / 2
      if below mid then find fuel (mid + 1) hi
      else if above mid then find fuel lo (mid - 1)
      else some mid
    else none

omit [DecidablePred below] [DecidablePred above] in
/-- On `[lo, hi]`, `below` holds on a prefix and `above` on a suffix. -/
def Monotone (lo hi : Int) : Prop :=
  ∀ i j, lo ≤ i → i ≤ j → j ≤ hi → (below j → below i) ∧ (above i → above j)

variable {below above}

omit [DecidablePred below] [DecidablePred above] in
theorem Monotone.mono {lo hi lo' hi' : Int} (h : Monotone below above lo hi) (hlo : lo ≤ lo')
    (hhi : hi' ≤ hi) : Monotone below above lo' hi' := fun i j hi hij hj =>
  h i j (by omega) hij (by omega)

/-- The index found lies in the interval and is neither too small nor too
large. -/
theorem find_some {fuel : Nat} {lo hi m : Int} (h : find below above fuel lo hi = some m) :
    lo ≤ m ∧ m ≤ hi ∧ ¬below m ∧ ¬above m := by
  induction fuel generalizing lo hi with
  | zero => simp [find] at h
  | succ fuel ih =>
    simp only [find] at h
    split_ifs at h with hle hb ha
    · obtain ⟨h₁, h₂, h₃, h₄⟩ := ih h
      exact ⟨by omega, h₂, h₃, h₄⟩
    · obtain ⟨h₁, h₂, h₃, h₄⟩ := ih h
      exact ⟨h₁, by omega, h₃, h₄⟩
    · cases h
      exact ⟨by omega, by omega, hb, ha⟩

/-- With enough fuel the search finds an index whenever the interval holds one
that is neither too small nor too large. -/
theorem find_isSome {fuel : Nat} {lo hi k : Int} (hmono : Monotone below above lo hi)
    (hfuel : hi - lo < fuel) (hlo : lo ≤ k) (hhi : k ≤ hi) (hb : ¬below k) (ha : ¬above k) :
    (find below above fuel lo hi).isSome := by
  induction fuel generalizing lo hi with
  | zero => omega
  | succ fuel ih =>
    simp only [find, if_pos (le_trans hlo hhi)]
    split_ifs with hbm ham
    · -- `mid` is too small, so is every index up to it: `k` is to its right
      have hk : (lo + hi) / 2 < k := by
        by_contra hkm
        exact hb ((hmono k _ hlo (by omega) (by omega)).1 hbm)
      exact ih (hmono.mono (by omega) le_rfl) (by omega) (by omega) hhi
    · -- `mid` is too large, so is every index from it on: `k` is to its left
      have hk : k < (lo + hi) / 2 := by
        by_contra hkm
        exact ha ((hmono _ k (by omega) (by omega) hhi).2 ham)
      exact ih (hmono.mono le_rfl (by omega)) (by omega) hlo (by omega)
    · rfl

/-- With enough fuel the search finds nothing only when every index of the
interval is too small or too large. -/
theorem find_eq_none {fuel : Nat} {lo hi : Int} (hmono : Monotone below above lo hi)
    (hfuel : hi - lo < fuel) (h : find below above fuel lo hi = none) :
    ∀ k, lo ≤ k → k ≤ hi → below k ∨ above k := by
  intro k hlo hhi
  by_contra hk
  rw [not_or] at hk
  have := find_isSome hmono hfuel hlo hhi hk.1 hk.2
  rw [h] at this
  exact Bool.false_ne_true this

end Find

/-! ## The indices between a prefix and a suffix -/

section Between

variable {below above : Nat → Prop}

/-- With `below` on the indices before `i` and not at `i`, and `above` on a
suffix, an index that is neither exists exactly when `i` is one. -/
theorem exists_between_iff {n i : Nat} (hbelow : ∀ j, j < i → below j)
    (hfirst : i < n → ¬below i) (habove : ∀ j k, j ≤ k → k < n → above j → above k) :
    (∃ j, j < n ∧ ¬below j ∧ ¬above j) ↔ i < n ∧ ¬above i := by
  constructor
  · rintro ⟨j, hj, hbj, haj⟩
    have hij : i ≤ j := by
      by_contra hji
      exact hbj (hbelow j (by omega))
    exact ⟨by omega, fun hai => haj (habove i j hij hj hai)⟩
  · rintro ⟨hi, hai⟩
    exact ⟨i, hi, hfirst hi, hai⟩

/-- For a test that passes from some point of a list on, the indices before its
first pass are exactly those where it fails. -/
theorem lt_findIdx_iff {α : Type} {l : List α} {q : α → Bool}
    (hmono : ∀ i j (hij : i ≤ j) (hj : j < l.length), q l[i] = true → q l[j] = true)
    {j : Nat} (hj : j < l.length) : j < l.findIdx q ↔ q l[j] = false := by
  constructor
  · exact fun h => List.not_of_lt_findIdx h
  · intro hq
    by_contra hle
    -- the first pass is at or before `j`, so `j` passes too
    have hlt : l.findIdx q < l.length := by omega
    have hpass := hmono _ j (by omega) hj (@List.findIdx_getElem _ q l hlt)
    rw [hq] at hpass
    exact Bool.false_ne_true hpass

/-- A predicate that holds on a prefix of `[0, n)` holds exactly below some
index. -/
theorem exists_prefix_bound {P : Nat → Prop} {n : Nat}
    (hmono : ∀ i j, i ≤ j → j < n → P j → P i) :
    ∃ a, a ≤ n ∧ ∀ j, j < n → (P j ↔ j < a) := by
  induction n with
  | zero => exact ⟨0, le_rfl, fun j hj => absurd hj (Nat.not_lt_zero j)⟩
  | succ n ih =>
    obtain ⟨a, ha, hP⟩ := ih fun i j hij hj => hmono i j hij (by omega)
    by_cases hn : P n
    · -- `P` holds at the last index, so at every index
      exact ⟨n + 1, le_rfl, fun j hj => ⟨fun _ => hj, fun _ => hmono j n (by omega) (by omega) hn⟩⟩
    · refine ⟨a, by omega, fun j hj => ?_⟩
      rcases Nat.lt_or_ge j n with hjn | hjn
      · exact hP j hjn
      · obtain rfl : j = n := by omega
        exact ⟨fun h => absurd h hn, fun h => by omega⟩

/-- The elements of a list that pass `p` are its slice `[a, b)` when exactly
the elements at the indices of that slice pass. -/
theorem filter_eq_take_drop {α : Type} {p : α → Bool} {l : List α} {a b : Nat} (hab : a ≤ b)
    (hb : b ≤ l.length) (hin : ∀ i (hi : i < l.length), p l[i] = true ↔ a ≤ i ∧ i < b) :
    l.filter p = (l.drop a).take (b - a) := by
  induction l generalizing a b with
  | nil => simp
  | cons x l ih =>
    rw [List.length_cons] at hb
    -- the rest of the list passes on the slice shifted down by one
    have hrest : l.filter p = (l.drop (a - 1)).take (b - 1 - (a - 1)) := by
      refine @ih (a - 1) (b - 1) (by omega) (by omega) fun i hi => ?_
      have := hin (i + 1) (by simp; omega)
      rw [List.getElem_cons_succ] at this
      rw [this]
      omega
    have hx := hin 0 (by simp)
    rw [List.getElem_cons_zero] at hx
    by_cases hpass : a = 0 ∧ 0 < b
    · obtain ⟨rfl, hb0⟩ := hpass
      obtain ⟨b, rfl⟩ : ∃ b', b = b' + 1 := ⟨b - 1, by omega⟩
      rw [List.filter_cons_of_pos (hx.mpr ⟨le_rfl, hb0⟩), hrest]
      simp
    · have hfail : ¬p x = true := by
        intro h
        obtain ⟨ha, hb0⟩ := hx.mp h
        exact hpass ⟨by omega, hb0⟩
      rw [List.filter_cons_of_neg hfail, hrest]
      rcases Nat.eq_zero_or_pos a with rfl | ha
      · simp [show b = 0 by omega]
      · obtain ⟨a, rfl⟩ : ∃ a', a = a' + 1 := ⟨a - 1, by omega⟩
        simp only [List.drop_succ_cons, Nat.add_sub_cancel]
        congr 1
        omega

end Between

end BinarySearch
