import Mathlib
import RocksDB.Lib.MinQueue

/-!
# `WritePreparedTxnDB::PreparedHeap` (`utilities/transactions/write_prepared_txn_db.h`)

The prepared sequence numbers of a write-prepared database sit in a min-heap
`heap_`. Erasing one that is not on top would cost a search, so `erase` parks it in
a second min-heap `erased_heap_` instead, and `pop()` reconciles the two: after
popping the top it pops every parked value that has reached the top of `heap_`
(and `heap_` with it when they agree), drops parked values that `heap_` has passed,
and empties `erased_heap_` once `heap_` is empty. `erase` ignores a value below
the top, taking it as popped already.

## Main definitions

* `PreparedHeap`, with `push`, `top`, `empty`, `erase` and `pop`, whose two
  loops run on the size of `erased_heap_` as fuel (`popErasedLoop`,
  `clearErasedLoop`).
* `live`: what the heap is for, the values pushed and neither popped nor erased,
  where `pop` takes the least of them.
* `Inv`: the invariant joining a heap to its live values: they are `heap_` minus
  `erased_heap_`, `heap_` holds no value twice, every parked value is above the
  top of `heap_`, and no value a later call pushes is in either heap.

## Main results

* `Inv.pop`, `Inv.push` and `Inv.erase`: each call keeps the invariant for the
  live values after it; `Inv.run` for a whole sequence of calls.
* `Inv.top_eq_some_iff` and `Inv.empty_iff`: under the invariant, `top()` is the
  least live value and `empty()` says there is none.
* `removePrepared_preparedTxns`: `RemovePrepared` erases each sequence number of
  the batch in turn.

## Design notes

* `std::priority_queue` is `MinQueue`, its interface. `pop()` on an empty heap,
  which the container leaves undefined, leaves it empty; no call below pops an
  empty heap under the invariant.
* The assertions are not modelled (the heap is taken as in a release build):
  erasing a value twice makes the one in `pop()` fail, and the heap still does
  the right thing.
* `TEST_CRASH_` and the destructor's checks are left out.
-/

namespace RocksDB

namespace WritePreparedTxnDB

/-- `PreparedHeap`: `heap_`, the prepared sequence numbers, and `erased_heap_`, the
erased ones that `heap_` may still hold. -/
structure PreparedHeap where
  heap : MinQueue UInt64
  erasedHeap : MinQueue UInt64

namespace PreparedHeap

open MinQueue

/-- A heap with nothing prepared. -/
def init : PreparedHeap := ⟨.empty, .empty⟩

/-- `empty()`. -/
def empty (s : PreparedHeap) : Bool := s.heap.isEmpty

/-- `top()`, where the heap is not empty. -/
def top (s : PreparedHeap) : Option UInt64 := s.heap.top

/-- `push(v)`. -/
def push (s : PreparedHeap) (v : UInt64) : PreparedHeap := { s with heap := s.heap.push v }

/-- The first loop of `pop()`: while both heaps have a top and the top of `heap_`
is at or above the top of `erased_heap_`, pop `erased_heap_`, and `heap_` too when
the two tops agree. Every round pops `erased_heap_`, so its size is enough fuel. -/
def popErasedLoop : Nat → PreparedHeap → PreparedHeap
  | 0, s => s
  | fuel + 1, s =>
    match s.heap.top, s.erasedHeap.top with
    | some t, some e =>
      if t ≥ e then
        popErasedLoop fuel ⟨if t = e then s.heap.pop else s.heap, s.erasedHeap.pop⟩
      else s
    | _, _ => s

/-- The second loop of `pop()`: while `heap_` is empty, pop `erased_heap_`. -/
def clearErasedLoop : Nat → PreparedHeap → PreparedHeap
  | 0, s => s
  | fuel + 1, s =>
    if s.heap.isEmpty && !s.erasedHeap.isEmpty then
      clearErasedLoop fuel { s with erasedHeap := s.erasedHeap.pop }
    else s

/-- `pop()`. -/
def pop (s : PreparedHeap) : PreparedHeap :=
  let s := { s with heap := s.heap.pop }
  let s := popErasedLoop s.erasedHeap.toList.length s
  clearErasedLoop s.erasedHeap.toList.length s

/-- `erase(seq)`: ignored below the top (taken as popped already), popped at the
top, and parked in `erased_heap_` above it. -/
def erase (s : PreparedHeap) (seq : UInt64) : PreparedHeap :=
  match s.heap.top with
  | none => s
  | some t =>
    if seq < t then s
    else if t = seq then s.pop
    else { s with erasedHeap := s.erasedHeap.push seq }

/-- The calls on a `PreparedHeap` that change it. -/
inductive Op
  | push (v : UInt64)
  | erase (v : UInt64)
  | pop
  deriving DecidableEq, Repr

/-- One call. -/
def step (s : PreparedHeap) : Op → PreparedHeap
  | .push v => s.push v
  | .erase v => s.erase v
  | .pop => s.pop

/-- The calls in turn. -/
def run (s : PreparedHeap) (ops : List Op) : PreparedHeap := ops.foldl step s

@[simp] theorem run_nil (s : PreparedHeap) : s.run [] = s := rfl

@[simp] theorem run_cons (s : PreparedHeap) (op : Op) (ops : List Op) :
    s.run (op :: ops) = (s.step op).run ops := rfl

/-! ## What the heap is for -/

/-- The live values after one call: `pop` takes the least. -/
def liveStep (L : Finset UInt64) : Op → Finset UInt64
  | .push v => insert v L
  | .erase v => L.erase v
  | .pop => L.filter fun v => ∃ w ∈ L, w < v

/-- The values pushed by `ops` and neither popped nor erased. -/
def live (ops : List Op) : Finset UInt64 := ops.foldl liveStep ∅

/-- The values `s` holds as live: in `heap_` and not in `erased_heap_`. -/
def Live (s : PreparedHeap) (v : UInt64) : Prop := v ∈ s.heap ∧ v ∉ s.erasedHeap

instance (s : PreparedHeap) (v : UInt64) : Decidable (s.Live v) :=
  inferInstanceAs (Decidable (_ ∧ _))

/-- Taking the least value of `L` away is erasing it. -/
theorem filter_exists_lt_eq_erase {L : Finset UInt64} {m : UInt64} (hm : m ∈ L)
    (hle : ∀ v ∈ L, m ≤ v) : (L.filter fun v => ∃ w ∈ L, w < v) = L.erase m := by
  ext v
  simp only [Finset.mem_filter, Finset.mem_erase]
  constructor
  · rintro ⟨hv, w, hw, hwv⟩
    have := hle w hw
    exact ⟨by grind, hv⟩
  · rintro ⟨hne, hv⟩
    have := hle v hv
    exact ⟨hv, m, hm, by grind⟩

/-! ## The invariant -/

/-- The part of the invariant that the loops of `pop()` keep: `heap_` holds no
value twice and the live values are `heap_` minus `erased_heap_`. -/
structure Holds (s : PreparedHeap) (L : Finset UInt64) : Prop where
  nodup : s.heap.toList.Nodup
  live_iff : ∀ v, v ∈ L ↔ s.Live v

/-- The invariant of a heap `s` with live values `L`, ahead of the calls `rest`:
every parked value is above the top of `heap_`, and a value pushed later is in
neither heap. -/
structure Inv (s : PreparedHeap) (L : Finset UInt64) (rest : List Op) : Prop
    extends s.Holds L where
  erased_above : ∀ e ∈ s.erasedHeap, ∃ t, s.heap.top = some t ∧ t < e
  fresh : ∀ v, Op.push v ∈ rest → v ∉ s.heap ∧ v ∉ s.erasedHeap

/-- Every value of `s'` is a value of `s`, in the same heap. -/
def Within (s' s : PreparedHeap) : Prop :=
  (∀ v ∈ s'.heap, v ∈ s.heap) ∧ ∀ v ∈ s'.erasedHeap, v ∈ s.erasedHeap

theorem Within.refl (s : PreparedHeap) : Within s s := ⟨fun _ h => h, fun _ h => h⟩

theorem Within.trans {s'' s' s : PreparedHeap} (h₁ : Within s'' s') (h₂ : Within s' s) : Within s'' s :=
  ⟨fun v hv => h₂.1 v (h₁.1 v hv), fun v hv => h₂.2 v (h₁.2 v hv)⟩

theorem init_inv (ops : List Op) : init.Inv ∅ ops where
  nodup := List.nodup_nil
  live_iff v := by simp [Live, init]
  erased_above e he := absurd he (not_mem_empty e)
  fresh v _ := ⟨not_mem_empty v, not_mem_empty v⟩

theorem Inv.of_cons {s : PreparedHeap} {L : Finset UInt64} {op : Op} {rest : List Op}
    (h : s.Inv L (op :: rest)) : s.Inv L rest :=
  { h with fresh := fun v hv => h.fresh v (List.mem_cons_of_mem op hv) }

/-- The top of `heap_` is live: it is below every parked value. -/
theorem Inv.live_top {s : PreparedHeap} {L : Finset UInt64} {rest : List Op}
    (h : s.Inv L rest) {t : UInt64} (ht : s.heap.top = some t) : t ∈ L := by
  refine (h.live_iff t).mpr ⟨mem_of_top ht, fun he => ?_⟩
  obtain ⟨t', ht', hlt⟩ := h.erased_above t he
  rw [ht] at ht'
  cases ht'
  exact absurd hlt (UInt64.lt_irrefl t)

/-- **`top()` is the least live value.** -/
theorem Inv.top_eq_some_iff {s : PreparedHeap} {L : Finset UInt64} {rest : List Op}
    (h : s.Inv L rest) {m : UInt64} : s.top = some m ↔ m ∈ L ∧ ∀ v ∈ L, m ≤ v := by
  have hle : ∀ {t v}, s.heap.top = some t → v ∈ L → t ≤ v :=
    fun ht hv => top_le ht ((h.live_iff _).mp hv).1
  constructor
  · intro hm
    exact ⟨h.live_top hm, fun v hv => hle hm hv⟩
  · rintro ⟨hm, hmin⟩
    obtain ⟨t, ht⟩ := exists_top_of_mem ((h.live_iff m).mp hm).1
    have := hmin t (h.live_top ht)
    have := hle ht hm
    show s.heap.top = some m
    rw [ht, UInt64.le_antisymm ‹t ≤ m› ‹m ≤ t›]

/-- **`empty()` says that no value is live.** -/
theorem Inv.empty_iff {s : PreparedHeap} {L : Finset UInt64} {rest : List Op}
    (h : s.Inv L rest) : s.empty = true ↔ L = ∅ := by
  constructor
  · intro he
    refine Finset.eq_empty_of_forall_notMem fun v hv => ?_
    exact isEmpty_iff.mp he v ((h.live_iff v).mp hv).1
  · intro hL
    cases hemp : s.empty
    · obtain ⟨t, ht⟩ := exists_top_of_isEmpty_eq_false hemp
      have := h.live_top ht
      simp [hL] at this
    · rfl

/-! ## `pop()` -/

/-- One round of the first loop keeps `Holds`: the parked value it drops is not
live, since it is either the top of `heap_`, popped with it, or below the top and
so not in `heap_` at all. -/
theorem Holds.popErasedRound {s : PreparedHeap} {L : Finset UInt64} (h : s.Holds L)
    {t e : UInt64} (ht : s.heap.top = some t) (he : s.erasedHeap.top = some e) (het : e ≤ t) :
    Holds ⟨if t = e then s.heap.pop else s.heap, s.erasedHeap.pop⟩ L := by
  have hheap : ∀ v, v ≠ e → ((v ∈ if t = e then s.heap.pop else s.heap) ↔ v ∈ s.heap) := by
    intro v hv
    split
    · subst t
      exact mem_pop_iff ht hv
    · exact Iff.rfl
  have hgone : e ∉ (if t = e then s.heap.pop else s.heap) := by
    split
    · subst t
      exact not_mem_pop h.nodup ht
    · intro hm
      have := top_le ht hm
      have : t = e := UInt64.le_antisymm this het
      contradiction
  refine ⟨?_, fun v => ?_⟩
  · split
    · exact nodup_pop h.nodup
    · exact h.nodup
  · rw [h.live_iff v]
    by_cases hv : v = e
    · subst v
      simp only [Live, iff_false_intro hgone, false_and, iff_false, not_and, not_not]
      intro _
      exact mem_of_top he
    · simp only [Live, hheap v hv, mem_pop_iff he hv]

/-- The first loop of `pop()` keeps `Holds`, only removes values, and leaves the
top of `heap_` below the top of `erased_heap_`. -/
theorem popErasedLoop_spec (fuel : Nat) {s : PreparedHeap} {L : Finset UInt64}
    (h : s.Holds L) (hf : s.erasedHeap.toList.length ≤ fuel) :
    (popErasedLoop fuel s).Holds L ∧ Within (popErasedLoop fuel s) s ∧
      ∀ t e, (popErasedLoop fuel s).heap.top = some t →
        (popErasedLoop fuel s).erasedHeap.top = some e → t < e := by
  induction fuel generalizing s with
  | zero =>
    refine ⟨h, Within.refl s, fun t e _ he => ?_⟩
    have : s.erasedHeap.toList = [] := List.eq_nil_of_length_eq_zero (by omega)
    simp [popErasedLoop, MinQueue.top, this] at he
  | succ fuel ih =>
    cases ht : s.heap.top with
    | none => simp [popErasedLoop, ht, h, Within.refl]
    | some t =>
      cases he : s.erasedHeap.top with
      | none => simp [popErasedLoop, ht, he, h, Within.refl]
      | some e =>
        by_cases het : e ≤ t
        · have hlen := length_pop he
          obtain ⟨h', hsub, hexit⟩ := ih (h.popErasedRound ht he het) (by simp; omega)
          have hround : Within ⟨if t = e then s.heap.pop else s.heap, s.erasedHeap.pop⟩ s := by
            refine ⟨fun v hv => ?_, fun v hv => mem_of_mem_pop hv⟩
            split at hv
            · exact mem_of_mem_pop hv
            · exact hv
          simp only [popErasedLoop, ht, he, ge_iff_le, het, if_true]
          exact ⟨h', hsub.trans hround, hexit⟩
        · simp only [popErasedLoop, ht, he, ge_iff_le, het, if_false]
          refine ⟨h, Within.refl s, fun t' e' ht' he' => ?_⟩
          -- the loop stops with `heap_`'s top below `erased_heap_`'s
          simp only [Option.some.injEq] at ht' he'
          subst ht' he'
          exact UInt64.not_le.mp het

theorem clearErasedLoop_of_not_isEmpty (fuel : Nat) {s : PreparedHeap}
    (h : s.heap.isEmpty = false) : clearErasedLoop fuel s = s := by
  cases fuel <;> simp [clearErasedLoop, h]

/-- With `heap_` empty, the second loop of `pop()` empties `erased_heap_`. -/
theorem clearErasedLoop_of_isEmpty (fuel : Nat) {s : PreparedHeap}
    (h : s.heap.isEmpty = true) (hf : s.erasedHeap.toList.length ≤ fuel) :
    (clearErasedLoop fuel s).heap = s.heap ∧ (clearErasedLoop fuel s).erasedHeap.isEmpty = true := by
  induction fuel generalizing s with
  | zero =>
    have : s.erasedHeap.toList = [] := List.eq_nil_of_length_eq_zero (by omega)
    simp [clearErasedLoop, MinQueue.isEmpty, this]
  | succ fuel ih =>
    by_cases he : s.erasedHeap.isEmpty = true
    · simp [clearErasedLoop, he]
    · have hlen : s.erasedHeap.pop.toList.length + 1 = s.erasedHeap.toList.length := by
        obtain ⟨e, he'⟩ := exists_top_of_isEmpty_eq_false (Bool.eq_false_iff.mpr he)
        exact length_pop he'
      have := ih (s := { s with erasedHeap := s.erasedHeap.pop }) h (by simp; omega)
      simpa [clearErasedLoop, h, he] using this

/-- **`pop()` removes the top and keeps the invariant.** -/
theorem Inv.pop {s : PreparedHeap} {L : Finset UInt64} {rest : List Op} (h : s.Inv L rest)
    {m : UInt64} (hm : s.heap.top = some m) : s.pop.Inv (L.erase m) rest := by
  -- `heap_.pop()` takes `m` out of both sides
  have h₁ : Holds { s with heap := s.heap.pop } (L.erase m) := by
    refine ⟨nodup_pop h.nodup, fun v => ?_⟩
    rw [Finset.mem_erase, h.live_iff v]
    by_cases hv : v = m
    · subst v
      simp [Live, not_mem_pop h.nodup hm]
    · simp [Live, hv, mem_pop_iff hm hv]
  obtain ⟨h₂, hsub, hexit⟩ := popErasedLoop_spec _ h₁ le_rfl
  set s₂ := popErasedLoop { s with heap := s.heap.pop }.erasedHeap.toList.length
    { s with heap := s.heap.pop }
  show (clearErasedLoop s₂.erasedHeap.toList.length s₂).Inv (L.erase m) rest
  have hfresh : ∀ v, Op.push v ∈ rest → v ∉ s₂.heap ∧ v ∉ s₂.erasedHeap := by
    intro v hv
    obtain ⟨hh, he⟩ := h.fresh v hv
    exact ⟨fun hm' => hh (mem_of_mem_pop (hsub.1 v hm')), fun hm' => he (hsub.2 v hm')⟩
  cases hempty : s₂.heap.isEmpty
  · -- `heap_` is not empty: the second loop does nothing
    rw [clearErasedLoop_of_not_isEmpty _ hempty]
    refine ⟨h₂, fun e he => ?_, hfresh⟩
    obtain ⟨t, ht⟩ := exists_top_of_isEmpty_eq_false hempty
    obtain ⟨e₀, he₀⟩ := exists_top_of_mem he
    exact ⟨t, ht, UInt64.lt_of_lt_of_le (hexit t e₀ ht he₀) (top_le he₀ he)⟩
  · -- `heap_` is empty: nothing is live, and the second loop empties `erased_heap_`
    obtain ⟨hheap, herased⟩ := clearErasedLoop_of_isEmpty _ hempty le_rfl
    have hnone : ∀ v, v ∉ s₂.heap := isEmpty_iff.mp hempty
    refine ⟨⟨?_, fun v => ?_⟩, fun e he => absurd he (isEmpty_iff.mp herased e), fun v hv => ?_⟩
    · rw [hheap]; exact h₂.nodup
    · rw [h₂.live_iff v]
      simp [Live, hheap, hnone]
    · exact ⟨hheap ▸ hnone v, isEmpty_iff.mp herased v⟩

/-! ## `push(v)` and `erase(seq)` -/

/-- **`push(v)` of a value pushed neither before nor later keeps the invariant.** -/
theorem Inv.push {s : PreparedHeap} {L : Finset UInt64} {v : UInt64} {rest : List Op}
    (h : s.Inv L (Op.push v :: rest)) (hv : Op.push v ∉ rest) :
    (s.push v).Inv (insert v L) rest := by
  obtain ⟨hheap, herased⟩ := h.fresh v List.mem_cons_self
  refine ⟨⟨nodup_push hheap h.nodup, fun w => ?_⟩, fun e he => ?_, fun w hw => ?_⟩
  · rw [Finset.mem_insert, h.live_iff w]
    by_cases hw : w = v
    · subst w
      simp [Live, PreparedHeap.push, herased]
    · simp [Live, PreparedHeap.push, hw]
  · obtain ⟨t, ht, hte⟩ := h.erased_above e he
    obtain ⟨t', ht'⟩ := exists_top_of_mem (mem_push.mpr (Or.inl rfl) : v ∈ s.heap.push v)
    exact ⟨t', ht', UInt64.lt_of_le_of_lt (top_le ht' (mem_push.mpr (Or.inr (mem_of_top ht)))) hte⟩
  · have hne : w ≠ v := fun hwv => hv (hwv ▸ hw)
    obtain ⟨hh, he⟩ := h.fresh w (List.mem_cons_of_mem _ hw)
    exact ⟨by simp [PreparedHeap.push, hne, hh], he⟩

/-- A value that is not in `heap_` is not live, and erasing it changes nothing. -/
theorem Inv.erase_of_not_mem {s : PreparedHeap} {L : Finset UInt64} {rest : List Op}
    (h : s.Inv L rest) {v : UInt64} (hv : v ∉ s.heap) : L.erase v = L :=
  Finset.erase_eq_of_notMem fun hL => hv ((h.live_iff v).mp hL).1

/-- **`erase(seq)` of a value not pushed later keeps the invariant**, in each of
its three cases: below the top, at the top, above the top. -/
theorem Inv.erase {s : PreparedHeap} {L : Finset UInt64} {v : UInt64} {rest : List Op}
    (h : s.Inv L (Op.erase v :: rest)) (hv : Op.push v ∉ rest) :
    (s.erase v).Inv (L.erase v) rest := by
  have h' := h.of_cons
  unfold PreparedHeap.erase
  cases ht : s.heap.top with
  | none =>
    rw [h'.erase_of_not_mem (isEmpty_iff.mp (top_eq_none_iff.mp ht) v)]
    exact h'
  | some t =>
    by_cases hlt : v < t
    · -- below the top: not in `heap_`
      have hnot : v ∉ s.heap := fun hm => UInt64.not_le.mpr hlt (top_le ht hm)
      simp only [hlt, if_true]
      rw [h'.erase_of_not_mem hnot]
      exact h'
    · by_cases htv : t = v
      · subst t
        simp only [hlt, if_false, if_true]
        exact h'.pop ht
      · -- above the top: parked
        have htlt : t < v := by grind
        simp only [hlt, htv, if_false]
        refine ⟨⟨h.nodup, fun w => ?_⟩, fun e he => ?_, fun w hw => ?_⟩
        · rw [Finset.mem_erase, h.live_iff w]
          by_cases hw : w = v
          · simp [Live, hw]
          · simp [Live, hw]
        · rcases mem_push.mp he with rfl | he
          · exact ⟨t, ht, htlt⟩
          · exact h.erased_above e he
        · have hne : w ≠ v := fun hwv => hv (hwv ▸ hw)
          obtain ⟨hh, he⟩ := h'.fresh w hw
          exact ⟨hh, by simp [hne, he]⟩

/-! ## Runs -/

/-- **The invariant over a whole run**: from a heap that holds it, every sequence
of calls in which no value is pushed twice, no erased value is pushed later and
`pop()` comes only on a heap that is not empty ends in a heap that holds it for
the live values the calls leave. -/
theorem Inv.run {s : PreparedHeap} {L : Finset UInt64} {ops : List Op} (h : s.Inv L ops)
    (hpush : ops.Pairwise fun a b => ∀ v, a = .push v → b ≠ .push v)
    (herase : ops.Pairwise fun a b => ∀ v, a = .erase v → b ≠ .push v)
    (hpop : ∀ i, ops[i]? = some .pop → (s.run (ops.take i)).empty = false) :
    (s.run ops).Inv (ops.foldl liveStep L) [] := by
  induction ops generalizing s L with
  | nil => exact h
  | cons op ops ih =>
    rw [List.pairwise_cons] at hpush herase
    -- the call at the head keeps the invariant for the calls after it
    have hstep : (s.step op).Inv (liveStep L op) ops := by
      cases op with
      | push v => exact h.push fun hm => hpush.1 _ hm v rfl rfl
      | erase v => exact h.erase fun hm => herase.1 _ hm v rfl rfl
      | pop =>
        obtain ⟨m, hm⟩ := exists_top_of_isEmpty_eq_false (hpop 0 rfl)
        have hmin := (h.top_eq_some_iff (m := m)).mp hm
        show s.pop.Inv (L.filter fun v => ∃ w ∈ L, w < v) ops
        rw [filter_exists_lt_eq_erase hmin.1 hmin.2]
        exact h.of_cons.pop hm
    exact ih hstep hpush.2 herase.2 fun i hi => hpop (i + 1) hi

/-- **`PreparedHeap` keeps `top()` at the least live value.** For every sequence of
`push(v)` with each value pushed at most once, `erase(v)` of values not pushed
later and `pop()` on a heap that is not empty, from a fresh heap: `empty()` holds
exactly when no value is live, `top()` is otherwise the least live value, the
values the heap holds as live (in `heap_`, not in `erased_heap_`) are the live
ones, and `pop()` then removes exactly the least. -/
theorem preparedHeap_top_is_least_live (ops : List Op)
    (hpush : ops.Pairwise fun a b => ∀ v, a = .push v → b ≠ .push v)
    (herase : ops.Pairwise fun a b => ∀ v, a = .erase v → b ≠ .push v)
    (hpop : ∀ i, ops[i]? = some .pop → (init.run (ops.take i)).empty = false) :
    ((init.run ops).empty = true ↔ live ops = ∅) ∧
      (∀ m, (init.run ops).top = some m ↔ m ∈ live ops ∧ ∀ v ∈ live ops, m ≤ v) ∧
      (∀ v, (init.run ops).Live v ↔ v ∈ live ops) ∧
      ∀ m, (init.run ops).top = some m → ∀ v, (init.run ops).pop.Live v ↔ v ∈ live ops ∧ v ≠ m := by
  have h : (init.run ops).Inv (live ops) [] := (init_inv ops).run hpush herase hpop
  refine ⟨h.empty_iff, fun m => h.top_eq_some_iff, fun v => (h.live_iff v).symm, ?_⟩
  intro m hm v
  have hpop := h.pop hm
  rw [← hpop.live_iff v, Finset.mem_erase, and_comm]

/-- Three prepared values; erasing the middle one parks it, and so does erasing a
value that was never prepared; `pop()` then takes `3` and, reconciling, both
parked values, leaving `7` on top. -/
theorem preparedHeap_top_is_least_live_sample :
    let ops := [Op.push 3, .push 5, .push 7, .erase 5, .erase 9, .pop]
    (init.run ops).top = some 7 ∧ live ops = {7} ∧
      ((init.run ops).empty = true ↔ live ops = ∅) ∧
      (∀ m, (init.run ops).top = some m ↔ m ∈ live ops ∧ ∀ v ∈ live ops, m ≤ v) ∧
      (∀ v, (init.run ops).Live v ↔ v ∈ live ops) ∧
      ∀ m, (init.run ops).top = some m →
        ∀ v, (init.run ops).pop.Live v ↔ v ∈ live ops ∧ v ≠ m := by
  intro ops
  have hpop : ∀ i, ops[i]? = some .pop → (init.run (ops.take i)).empty = false := by
    intro i hi
    have hi5 : i = 5 := by
      match i, hi with
      | 5, _ => rfl
    subst hi5
    decide
  refine ⟨by decide, by decide, preparedHeap_top_is_least_live ops (by simp [ops])
    (by simp [ops]) hpop⟩

end PreparedHeap

/-! ## `RemovePrepared` -/

/-- The members of `WritePreparedTxnDB` that `RemovePrepared` changes:
`prepared_txns_`, `delayed_prepared_` (a `std::set<uint64_t>`) and the flag
`delayed_prepared_empty_`. -/
structure PreparedState where
  preparedTxns : PreparedHeap
  delayedPrepared : Finset UInt64
  delayedPreparedEmpty : Bool

/-- One round of the loop of `RemovePrepared`, for `prepare_seq + i`. -/
def removePreparedStep (prepareSeq : UInt64) (db : PreparedState) (i : Nat) : PreparedState :=
  let seq := prepareSeq + UInt64.ofNat i
  let db := { db with preparedTxns := db.preparedTxns.erase seq }
  let wasEmpty := decide (db.delayedPrepared = ∅)
  if !wasEmpty then
    let db := { db with delayedPrepared := db.delayedPrepared.erase seq }
    let isEmpty := decide (db.delayedPrepared = ∅)
    if wasEmpty ≠ isEmpty then { db with delayedPreparedEmpty := isEmpty } else db
  else db

/-- `RemovePrepared(prepare_seq, batch_cnt)`, under `prepared_mutex_`. -/
def removePrepared (db : PreparedState) (prepareSeq batchCnt : UInt64) : PreparedState :=
  (List.range batchCnt.toNat).foldl (removePreparedStep prepareSeq) db

theorem removePreparedStep_preparedTxns (prepareSeq : UInt64) (db : PreparedState) (i : Nat) :
    (removePreparedStep prepareSeq db i).preparedTxns =
      db.preparedTxns.erase (prepareSeq + UInt64.ofNat i) := by
  unfold removePreparedStep
  dsimp only
  split
  · split <;> rfl
  · rfl

/-- **`RemovePrepared` erases each sequence number of the batch from
`prepared_txns_` in turn**, so the heap's invariant covers it as a run of `erase`
calls. -/
theorem removePrepared_preparedTxns (db : PreparedState) (prepareSeq batchCnt : UInt64) :
    (removePrepared db prepareSeq batchCnt).preparedTxns =
      db.preparedTxns.run ((List.range batchCnt.toNat).map fun i =>
        .erase (prepareSeq + UInt64.ofNat i)) := by
  unfold removePrepared
  generalize List.range batchCnt.toNat = is
  induction is generalizing db with
  | nil => rfl
  | cons i is ih =>
    simp only [List.foldl_cons, List.map_cons, PreparedHeap.run_cons, ih,
      removePreparedStep_preparedTxns]
    rfl

end WritePreparedTxnDB

end RocksDB
