import Mathlib
import RocksDB.Db.VersionSetOverlap

/-!
# `GetOverlappingInputs` on level 0

Level-0 files may overlap each other. With `expand_range`, the loop of
`GetOverlappingInputs` widens the range to each file it takes that reaches past
one of its ends, and starts again from the first file of the level.

## Main results

- `Level0Inv c`: what the loop keeps between two files, with one lemma for each
  branch of its body (`skip`, `take`, `widenBegin`, `widenEnd`).
- `overlappingInputsLoop_level0`: from a state that keeps `Level0Inv c`, with fuel
  above `countOutside`, the loop returns the files that meet the least
  *closed* range around `[begin, end]`. A range is closed when every file that
  meets it lies within it.
- `getOverlappingInputs_level0_least_closed`: the same for `GetOverlappingInputs`
  itself, with the fuel of the model.

Each restart moves an end of the range past the end of a file that was outside
it. `countOutside` counts such file ends, so each restart lowers it by at least
one. That is why `overlappingInputsFuel` passes over the level are enough.
-/

namespace RocksDB

variable {c : Comparator} [Std.TransCmp c.compare]

/-! ## Ranges with missing ends -/

/-- The lower bound `u` is at or below `userBegin`; a missing lower bound lies
below every key. -/
def LowerLe (c : Comparator) : Option (List UInt8) → Option (List UInt8) → Prop
  | none, _ => True
  | some _, none => False
  | some u, some b => CmpOrder.Le c.compare u b

/-- The upper bound `userEnd` is at or below `w`; a missing upper bound lies above
every key. -/
def UpperLe (c : Comparator) : Option (List UInt8) → Option (List UInt8) → Prop
  | _, none => True
  | none, some _ => False
  | some e, some w => CmpOrder.Le c.compare e w

/-- The test that widens the lower end: `f` starts before `userBegin`. -/
def startsBefore (c : Comparator) (userBegin : Option (List UInt8)) (f : FileMetaData) : Bool :=
  userBegin.any fun u => c.compare f.smallest.userKey u = .lt

/-- The test that widens the upper end: `f` ends after `userEnd`. -/
def endsAfter (c : Comparator) (userEnd : Option (List UInt8)) (f : FileMetaData) : Bool :=
  userEnd.any fun u => c.compare f.largest.userKey u = .gt

/-- `f` widens neither end of the range. -/
def withinRange (c : Comparator) (userBegin userEnd : Option (List UInt8)) (f : FileMetaData) : Bool :=
  !startsBefore c userBegin f && !endsAfter c userEnd f

/-- Every file of the level that meets the range lies within it. -/
def ClosedRange (c : Comparator) (files : List FileMetaData) (userBegin userEnd : Option (List UInt8)) : Prop :=
  ∀ f ∈ files, overlapsRange c userBegin userEnd f = true → withinRange c userBegin userEnd f = true

/-- `[userBegin, userEnd]` is the least closed range that holds `[begin0, end0]`. -/
structure LeastClosedRange (c : Comparator) (files : List FileMetaData)
    (begin0 end0 userBegin userEnd : Option (List UInt8)) : Prop where
  closed : ClosedRange c files userBegin userEnd
  lower : LowerLe c userBegin begin0
  upper : UpperLe c end0 userEnd
  least : ∀ u w, ClosedRange c files u w → LowerLe c u begin0 → UpperLe c end0 w →
    LowerLe c u userBegin ∧ UpperLe c userEnd w

/-- The file ends outside the range: the starts before it and the limits after
it. Each restart of the level-0 loop lowers this count. -/
def countOutside (c : Comparator) (files : List FileMetaData) (userBegin userEnd : Option (List UInt8)) : Nat :=
  (files.filter (startsBefore c userBegin)).length + (files.filter (endsAfter c userEnd)).length

section Bounds

variable {u b w : Option (List UInt8)} {f : FileMetaData}

theorem LowerLe.refl (u : Option (List UInt8)) : LowerLe c u u := by
  cases u with
  | none => trivial
  | some a => exact fun h => by simp [Std.ReflCmp.compare_self] at h

theorem UpperLe.refl (u : Option (List UInt8)) : UpperLe c u u := by
  cases u with
  | none => trivial
  | some a => exact fun h => by simp [Std.ReflCmp.compare_self] at h

theorem LowerLe.trans (hub : LowerLe c u b) (hbc : LowerLe c b w) : LowerLe c u w := by
  match u, b, w, hub, hbc with
  | none, _, _, _, _ => trivial
  | some _, some _, some _, hub, hbc => exact Std.TransCmp.le_trans hub hbc

theorem UpperLe.trans (hub : UpperLe c u b) (hbc : UpperLe c b w) : UpperLe c u w := by
  match u, b, w, hub, hbc with
  | _, _, none, _, _ => trivial
  | some _, some _, some _, hub, hbc => exact Std.TransCmp.le_trans hub hbc

omit [Std.TransCmp c.compare] in
/-- A file that starts before the lower bound moves it down to its start. -/
theorem lowerLe_of_startsBefore (h : startsBefore c b f = true) :
    LowerLe c (some f.smallest.userKey) b := by
  cases b with
  | none => simp [startsBefore] at h
  | some a =>
    simp only [startsBefore, Option.any_some, decide_eq_true_eq] at h
    exact fun hgt => by rw [h] at hgt; cases hgt

theorem upperLe_of_endsAfter (h : endsAfter c b f = true) :
    UpperLe c b (some f.largest.userKey) := by
  cases b with
  | none => simp [endsAfter] at h
  | some a =>
    simp only [endsAfter, Option.any_some, decide_eq_true_eq] at h
    intro hgt
    rw [Std.OrientedCmp.gt_iff_lt] at hgt
    rw [h] at hgt
    cases hgt

/-- A lower bound at or below the start of a file the range holds. -/
theorem lowerLe_of_not_startsBefore (h : startsBefore c u f = false) :
    LowerLe c u (some f.smallest.userKey) := by
  cases u with
  | none => trivial
  | some a =>
    simp only [startsBefore, Option.any_some, decide_eq_false_iff_not] at h
    intro hgt
    exact h (Std.OrientedCmp.gt_iff_lt.mp hgt)

omit [Std.TransCmp c.compare] in
theorem upperLe_of_not_endsAfter (h : endsAfter c u f = false) :
    UpperLe c (some f.largest.userKey) u := by
  cases u with
  | none => trivial
  | some a =>
    simp only [endsAfter, Option.any_some, decide_eq_false_iff_not] at h
    exact h

/-- A range that holds `[userBegin, userEnd]` meets every file that range meets. -/
theorem overlapsRange_widen {u w userBegin userEnd : Option (List UInt8)}
    (hu : LowerLe c u userBegin) (hw : UpperLe c userEnd w)
    (h : overlapsRange c userBegin userEnd f = true) : overlapsRange c u w f = true := by
  simp only [overlapsRange, Bool.and_eq_true, Bool.not_eq_true'] at h ⊢
  obtain ⟨hlimit, hstart⟩ := h
  refine ⟨?_, ?_⟩
  · -- a lower bound `u` at or below `userBegin` is missing or `userBegin` is a key too
    cases u with
    | none => rfl
    | some a =>
      cases userBegin with
      | none => cases hu
      | some b =>
        simp only [Option.any_some, decide_eq_false_iff_not] at hlimit ⊢
        exact fun hlt => hlimit (Std.TransCmp.lt_of_lt_of_le hlt hu)
  · cases w with
    | none => rfl
    | some a =>
      cases userEnd with
      | none => cases hw
      | some e =>
        simp only [Option.any_some, decide_eq_false_iff_not] at hstart ⊢
        exact fun hgt => hstart
          (Std.TransCmp.gt_of_gt_of_ge hgt fun hlt => hw (Std.OrientedCmp.gt_iff_lt.mpr hlt))

/-- Strengthening a filter's test loses a member of the list that passed it:
fewer elements pass. -/
theorem length_filter_lt_length_filter {α : Type} {l : List α} {p q : α → Bool}
    (hpq : ∀ x, p x = true → q x = true) {a : α} (ha : a ∈ l) (hq : q a = true)
    (hp : p a = false) : (l.filter p).length < (l.filter q).length := by
  have hsub : (l.filter p).Sublist (l.filter q) := List.monotone_filter_right l hpq
  have hmem : a ∈ l.filter q := List.mem_filter.mpr ⟨ha, hq⟩
  have hnmem : a ∉ l.filter p := by simp [hp]
  refine Nat.lt_of_le_of_ne hsub.length_le fun heq => hnmem ?_
  rw [hsub.eq_of_length heq]
  exact hmem

/-- Moving the lower bound down to the start of a file that starts before it
leaves out at least that file's start: fewer starts lie below the new bound. -/
theorem length_filter_startsBefore_lt {files : List FileMetaData} (hf : f ∈ files)
    (h : startsBefore c b f = true) :
    (files.filter (startsBefore c (some f.smallest.userKey))).length <
      (files.filter (startsBefore c b)).length := by
  refine length_filter_lt_length_filter (fun g hg => ?_) hf h
    (by simp [startsBefore, Std.ReflCmp.compare_self])
  cases b with
  | none => simp [startsBefore] at h
  | some a =>
    simp only [startsBefore, Option.any_some, decide_eq_true_eq] at h hg ⊢
    exact Std.TransCmp.lt_trans hg h

theorem length_filter_endsAfter_lt {files : List FileMetaData} (hf : f ∈ files)
    (h : endsAfter c b f = true) :
    (files.filter (endsAfter c (some f.largest.userKey))).length <
      (files.filter (endsAfter c b)).length := by
  refine length_filter_lt_length_filter (fun g hg => ?_) hf h
    (by simp [endsAfter, Std.ReflCmp.compare_self])
  cases b with
  | none => simp [endsAfter] at h
  | some a =>
    simp only [endsAfter, Option.any_some, decide_eq_true_eq] at h hg ⊢
    rw [Std.OrientedCmp.gt_iff_lt] at h hg ⊢
    exact Std.TransCmp.lt_trans h hg

omit [Std.TransCmp c.compare] in
theorem countOutside_le (files : List FileMetaData) (userBegin userEnd : Option (List UInt8)) :
    countOutside c files userBegin userEnd ≤ 2 * files.length := by
  have h₁ := List.length_filter_le (startsBefore c userBegin) files
  have h₂ := List.length_filter_le (endsAfter c userEnd) files
  unfold countOutside
  omega

end Bounds

/-! ## The loop -/

/-- What the level-0 loop of `GetOverlappingInputs` keeps at file `i`, having
widened `[begin0, end0]` to `[userBegin, userEnd]`: it has taken the files
before `i` that meet the range, none of them widens it, and every closed range
around `[begin0, end0]` holds it. -/
structure Level0Inv (c : Comparator) (files : List FileMetaData) (begin0 end0 userBegin userEnd : Option (List UInt8))
    (i : Nat) (inputs : List FileMetaData) : Prop where
  le_length : i ≤ files.length
  inputs_eq : inputs = (files.take i).filter (overlapsRange c userBegin userEnd)
  within : ∀ f ∈ inputs, withinRange c userBegin userEnd f = true
  lower : LowerLe c userBegin begin0
  upper : UpperLe c end0 userEnd
  least : ∀ u w, ClosedRange c files u w → LowerLe c u begin0 → UpperLe c end0 w →
    LowerLe c u userBegin ∧ UpperLe c userEnd w

namespace Level0Inv

variable {files : List FileMetaData} {begin0 end0 userBegin userEnd : Option (List UInt8)}
  {i : Nat} {inputs : List FileMetaData}

theorem init (files : List FileMetaData) (begin0 end0 : Option (List UInt8)) :
    Level0Inv c files begin0 end0 begin0 end0 0 [] where
  le_length := Nat.zero_le _
  inputs_eq := by simp
  within := by simp
  lower := LowerLe.refl _
  upper := UpperLe.refl _
  least := fun _ _ _ hu hw => ⟨hu, hw⟩

omit [Std.TransCmp c.compare] in
/-- A file that misses the range is passed over. -/
theorem skip (h : Level0Inv c files begin0 end0 userBegin userEnd i inputs) (hi : i < files.length)
    (hout : overlapsRange c userBegin userEnd files[i] = false) :
    Level0Inv c files begin0 end0 userBegin userEnd (i + 1) inputs :=
  { h with
    le_length := hi
    inputs_eq := by
      rw [List.take_succ_eq_append_getElem hi, List.filter_append, List.filter_singleton, hout,
        cond_false, List.append_nil, h.inputs_eq] }

omit [Std.TransCmp c.compare] in
/-- A file that meets the range and lies within it is taken. -/
theorem take (h : Level0Inv c files begin0 end0 userBegin userEnd i inputs) (hi : i < files.length)
    (hin : overlapsRange c userBegin userEnd files[i] = true)
    (hwithin : withinRange c userBegin userEnd files[i] = true) :
    Level0Inv c files begin0 end0 userBegin userEnd (i + 1) (inputs ++ [files[i]]) :=
  { h with
    le_length := hi
    inputs_eq := by
      rw [List.take_succ_eq_append_getElem hi, List.filter_append, List.filter_singleton, hin,
        cond_true, h.inputs_eq]
    within := by
      intro f hf
      rcases List.mem_append.mp hf with hf | hf
      · exact h.within f hf
      · rw [List.mem_singleton.mp hf]
        exact hwithin }

/-- A closed range around `[begin0, end0]` holds every file that meets the range
the loop has reached. -/
theorem within_closed (h : Level0Inv c files begin0 end0 userBegin userEnd i inputs)
    {f : FileMetaData} (hf : f ∈ files) (hin : overlapsRange c userBegin userEnd f = true)
    {u w : Option (List UInt8)} (hclosed : ClosedRange c files u w) (hu : LowerLe c u begin0)
    (hw : UpperLe c end0 w) : withinRange c u w f = true := by
  obtain ⟨hu', hw'⟩ := h.least u w hclosed hu hw
  exact hclosed f hf (overlapsRange_widen hu' hw' hin)

/-- A file that meets the range and starts before it moves the lower end down to
its start, and the loop starts again from the first file. -/
theorem widenBegin (h : Level0Inv c files begin0 end0 userBegin userEnd i inputs)
    (hi : i < files.length) (hin : overlapsRange c userBegin userEnd files[i] = true)
    (hb : startsBefore c userBegin files[i] = true) :
    Level0Inv c files begin0 end0 (some files[i].smallest.userKey) userEnd 0 [] where
  le_length := Nat.zero_le _
  inputs_eq := by simp
  within := by simp
  lower := (lowerLe_of_startsBefore hb).trans h.lower
  upper := h.upper
  least := by
    intro u w hclosed hu hw
    have hwithin := h.within_closed (List.getElem_mem hi) hin hclosed hu hw
    simp only [withinRange, Bool.and_eq_true, Bool.not_eq_true'] at hwithin
    exact ⟨lowerLe_of_not_startsBefore hwithin.1, (h.least u w hclosed hu hw).2⟩

/-- A file that meets the range and ends after it moves the upper end up to its
limit, and the loop starts again from the first file. -/
theorem widenEnd (h : Level0Inv c files begin0 end0 userBegin userEnd i inputs)
    (hi : i < files.length) (hin : overlapsRange c userBegin userEnd files[i] = true)
    (he : endsAfter c userEnd files[i] = true) :
    Level0Inv c files begin0 end0 userBegin (some files[i].largest.userKey) 0 [] where
  le_length := Nat.zero_le _
  inputs_eq := by simp
  within := by simp
  lower := h.lower
  upper := h.upper.trans (upperLe_of_endsAfter he)
  least := by
    intro u w hclosed hu hw
    have hwithin := h.within_closed (List.getElem_mem hi) hin hclosed hu hw
    simp only [withinRange, Bool.and_eq_true, Bool.not_eq_true'] at hwithin
    exact ⟨(h.least u w hclosed hu hw).1, upperLe_of_not_endsAfter hwithin.2⟩

omit [Std.TransCmp c.compare] in
/-- Past the last file, the loop has taken every file that meets the range, and
the range is the least closed one. -/
theorem leastClosedRange (h : Level0Inv c files begin0 end0 userBegin userEnd i inputs)
    (hn : files.length ≤ i) :
    inputs = files.filter (overlapsRange c userBegin userEnd) ∧
      LeastClosedRange c files begin0 end0 userBegin userEnd := by
  have hinputs : inputs = files.filter (overlapsRange c userBegin userEnd) := by
    rw [h.inputs_eq, List.take_of_length_le hn]
  refine ⟨hinputs, ⟨fun f hf hin => h.within f ?_, h.lower, h.upper, h.least⟩⟩
  rw [hinputs]
  exact List.mem_filter.mpr ⟨hf, hin⟩

end Level0Inv

/-- A restart spends one unit of fuel and a pass over the level; it is paid for
by the drop in `countOutside`. -/
theorem restart_fuel {c c' n i fuel : Nat} (hlt : c' < c) (hfuel : c * (n + 1) + (n - i) < fuel + 1) :
    c' * (n + 1) + (n - 0) < fuel := by
  have hmul : (c' + 1) * (n + 1) ≤ c * (n + 1) := Nat.mul_le_mul_right (n + 1) hlt
  rw [Nat.succ_mul] at hmul
  omega

/-- **The level-0 loop.** From a state that keeps `Level0Inv`, with fuel for a
pass over the level for each file end outside the range and one more, the loop
ends on the least closed range around `[begin0, end0]`: it returns the files that
meet it, and leaves `fileIndex` as it was. -/
theorem overlappingInputsLoop_level0 (files : List FileMetaData) (begin0 end0 : Option (List UInt8)) :
    ∀ fuel i userBegin userEnd inputs fileIndex,
      Level0Inv c files begin0 end0 userBegin userEnd i inputs →
      countOutside c files userBegin userEnd * (files.length + 1) + (files.length - i) < fuel →
      ∃ ub ue, LeastClosedRange c files begin0 end0 ub ue ∧
        overlappingInputsLoop c files 0 true fuel i userBegin userEnd inputs fileIndex =
          (files.filter (overlapsRange c ub ue), fileIndex) := by
  intro fuel
  induction fuel with
  | zero => intro i userBegin userEnd inputs fileIndex _ hfuel; omega
  | succ fuel ih =>
    intro i userBegin userEnd inputs fileIndex h hfuel
    by_cases hi : i < files.length
    · rw [overlappingInputsLoop, if_pos hi, List.getD_eq_getElem _ _ hi]
      dsimp only
      rw [if_pos (show 0 = 0 ∧ true = true from ⟨rfl, rfl⟩)]
      split_ifs with hb he hw₁ hw₂
      · -- `files[i]` is completely before the range
        exact ih _ _ _ _ _ (h.skip hi (by simp [overlapsRange, hb])) (by omega)
      · -- `files[i]` is completely after the range
        exact ih _ _ _ _ _ (h.skip hi (by simp [overlapsRange, he])) (by omega)
      -- the three branches left take `files[i]`: it meets the range
      all_goals
        have hin : overlapsRange c userBegin userEnd files[i] = true := by
          simp [overlapsRange, hb, he]
      · -- `files[i]` starts before the range: restart from its start
        have hlt := length_filter_startsBefore_lt (List.getElem_mem hi) hw₁
        refine ih _ _ _ _ _ (h.widenBegin hi hin hw₁) (restart_fuel ?_ hfuel)
        unfold countOutside
        omega
      · -- `files[i]` ends after the range: restart up to its limit
        have hlt := length_filter_endsAfter_lt (List.getElem_mem hi) hw₂
        refine ih _ _ _ _ _ (h.widenEnd hi hin hw₂) (restart_fuel ?_ hfuel)
        unfold countOutside
        omega
      · -- `files[i]` lies within the range: take it
        have hwithin : withinRange c userBegin userEnd files[i] = true := by
          simp [withinRange, startsBefore, endsAfter, hw₁, hw₂]
        exact ih _ _ _ _ _ (h.take hi hin hwithin) (by omega)
    · obtain ⟨hinputs, hleast⟩ := h.leastClosedRange (by omega)
      rw [overlappingInputsLoop, if_neg hi, hinputs]
      exact ⟨userBegin, userEnd, hleast, rfl⟩

/-- **`GetOverlappingInputs` on level 0 with `expand_range`** returns the files of
level 0 that meet the least closed range around `[begin, end]`: it widens the
range over every chain of overlapping files and no further. `*file_index` stays
at `-1`. -/
theorem getOverlappingInputs_level0_least_closed (v : VersionStorageInfo)
    (hne : 0 < numNonEmptyLevels v.files) (beginKey endKey : Option InternalKey)
    (inputs : List FileMetaData) (hintIndex : Int) (fileIndex : Option Int) :
    ∃ ub ue, LeastClosedRange c (v.levelFiles 0) (beginKey.map InternalKey.userKey)
        (endKey.map InternalKey.userKey) ub ue ∧
      v.getOverlappingInputs c 0 beginKey endKey inputs hintIndex fileIndex true =
        ((v.levelFiles 0).filter (overlapsRange c ub ue), fileIndex.map fun _ => -1) := by
  rw [getOverlappingInputs_eq_scan hne (Or.inl rfl)]
  apply overlappingInputsLoop_level0 _ _ _ _ _ _ _ _ _ (Level0Inv.init _ _ _)
  -- the fuel covers a pass for each of the `2 n` file ends, and one more
  have hcount := countOutside_le (c := c) (v.levelFiles 0) (beginKey.map InternalKey.userKey)
    (endKey.map InternalKey.userKey)
  have hmul := Nat.mul_le_mul_right ((v.levelFiles 0).length + 1) hcount
  unfold overlappingInputsFuel
  rw [Nat.succ_mul (2 * (v.levelFiles 0).length)]
  omega

/-- Level 0 of a version: file 1 from `b@5` to `e@5`, file 2 from `a@3` to
`b@9` and file 3 from `f@2` to `g@2`. -/
def chainedLevel0 : List (List FileMetaData) :=
  [[sampleFile 1 (boundaryKey [98] 5) (boundaryKey [101] 5),
    sampleFile 2 (boundaryKey [97] 3) (boundaryKey [98] 9),
    sampleFile 3 (boundaryKey [102] 2) (boundaryKey [103] 2)]]

/-- From `[c, d]`, file 1 widens the range to `[b, e]` and file 2 then to
`[a, e]`, which file 3 misses. -/
theorem getOverlappingInputs_level0_least_closed_chained :
    0 < numNonEmptyLevels chainedLevel0 ∧
      (∃ ub ue, LeastClosedRange bytewiseComparator (VersionStorageInfo.levelFiles ⟨chainedLevel0⟩ 0)
          (some [99]) (some [100]) ub ue ∧
        VersionStorageInfo.getOverlappingInputs bytewiseComparator ⟨chainedLevel0⟩ 0 (some (boundaryKey [99] 4))
            (some (boundaryKey [100] 4)) [] (-1) none true =
          ((VersionStorageInfo.levelFiles ⟨chainedLevel0⟩ 0).filter (overlapsRange bytewiseComparator ub ue), none)) ∧
      (VersionStorageInfo.getOverlappingInputs bytewiseComparator ⟨chainedLevel0⟩ 0 (some (boundaryKey [99] 4))
          (some (boundaryKey [100] 4)) [] (-1) none true).1.map (fun f => f.fd.getNumber) =
        [1, 2] :=
  ⟨by decide,
    getOverlappingInputs_level0_least_closed ⟨chainedLevel0⟩ (by decide)
      (some (boundaryKey [99] 4)) (some (boundaryKey [100] 4)) [] (-1) none,
    by decide⟩

end RocksDB
