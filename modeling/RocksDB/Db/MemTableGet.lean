import Mathlib
import RocksDB.Db.MemTable

/-!
# `MemTable::Get` answers as the newest-first scan of the key does

The reference is stated over the entries added, with no skip list and no
bytes: `visible k S` lists the entries of user key `k` with a sequence number at
most `S`, newest first, and `resolve` reads them in that order, collecting merge
operands until a value or a deletion ends the scan.

The proof goes through the order of the skip list. `TableOf m l` says that the
table holds the entries `l`, encoded, in `Entry.compareKeySeq` order; every
`Add` of a fresh (user key, sequence number) pair keeps it, and an `Add` of a
pair already there is refused. The seek of `Get` then lands on the first entry
not below the lookup key, the entries of `k` at most `S` come next, newest
first, and the first entry of another user key ends the scan.
-/

namespace RocksDB

namespace MemTable

variable (ucmp : List UInt8 → List UInt8 → Ordering)

/-- The internal key of an entry decodes: its size fits the `uint32_t` field and
the sequence number the 56 bits of the footer. -/
def Entry.KeyFits (e : Entry) : Prop :=
  e.key.length + 8 < 2 ^ 32 ∧ e.seq ≤ kMaxSequenceNumber

/-- An entry `Add` encodes faithfully: its internal key, and its value, whose
size is a `uint32_t` too. -/
def Entry.Fits (e : Entry) : Prop := e.KeyFits ∧ e.value.length < 2 ^ 32

instance (e : Entry) : Decidable e.Fits := inferInstanceAs (Decidable ((_ ∧ _) ∧ _))

/-- The bytes `Add` writes for an entry. -/
def Entry.encode (e : Entry) : List UInt8 := encodeEntry e.seq e.type e.key e.value

/-- `CompareKeySeq` on entries: user key ascending, sequence number descending. -/
def Entry.compareKeySeq : Entry → Entry → Ordering :=
  compareLex (SortedList.byKey ucmp Entry.key)
    (SortedList.byKey (fun a b : Nat => Ord.compare b a) Entry.seq)

instance [Std.TransCmp ucmp] : Std.TransCmp (Entry.compareKeySeq ucmp) :=
  inferInstanceAs (Std.TransCmp (compareLex _ _))

theorem Entry.compareKeySeq_eq (a b : Entry) :
    Entry.compareKeySeq ucmp a b = (ucmp a.key b.key).then (Ord.compare b.seq a.seq) := rfl

/-- The entry a lookup key compares as: its type is never compared. -/
def lookupEntry (k : LookupKey) : Entry := ⟨k.sequence, kValueTypeForSeek, k.userKey, []⟩

/-! ## The reference resolution -/

/-- What a point lookup reports: whether it found a final value, the status,
the value it writes (`none` leaves the caller's string alone) and the merge
operands it collected, oldest first. -/
structure Lookup where
  found : Bool
  status : Status
  value : Option (List UInt8)
  operands : List (List UInt8)
  deriving DecidableEq, Repr

/-- A final answer from a full merge of the operands into the existing value,
if any. -/
def Lookup.merged (op : MergeOperator) (k : List UInt8) (existing : Option (List UInt8))
    (operands : List (List UInt8)) : Lookup :=
  match timedFullMerge op k existing operands with
  | .ok result => ⟨true, .ok, some result, operands⟩
  | .error e => ⟨true, e, none, operands⟩

/-- The reference resolution of user key `k` from its entries, newest first,
and the operands collected so far, oldest first: a `Put` gives its value, a
deletion `NotFound`, each merged with the operands when there are some; with
neither, the operands are still in progress. -/
def resolve (op : MergeOperator) (k : List UInt8) : List Entry → List (List UInt8) → Lookup
  | [], operands => ⟨false, if operands = [] then .ok else .mergeInProgress, none, operands⟩
  | e :: rest, operands =>
    match e.type with
    | .value => if operands = [] then ⟨true, .ok, some e.value, []⟩
      else .merged op k (some e.value) operands
    | .deletion | .singleDeletion => if operands = [] then ⟨true, .notFound, none, []⟩
      else .merged op k none operands
    | .merge => resolve op k rest (e.value :: operands)
    | _ => resolve op k rest operands

/-- The entries of user key `k` with a sequence number at most `S`, newest
first. -/
def visible (k : List UInt8) (S : Nat) (entries : List Entry) : List Entry :=
  (entries.filter fun e => e.key = k ∧ e.seq ≤ S).mergeSort fun a b => b.seq ≤ a.seq

/-- `MemTable::Get` reports `r`: found, status, value (against the caller's
`value₀`) and merge operands agree. -/
def Lookup.Reports (r : Lookup) (value₀ : List UInt8) (res : Bool × Saver) : Prop :=
  res.1 = r.found ∧ res.2.status = r.status ∧ res.2.value = r.value.getD value₀ ∧
    res.2.mergeContext = r.operands

/-! ## Reading an encoded entry back -/

/-- The footer read back: `UnPackSequenceAndType` after `PackSequenceAndType`. -/
theorem unPack_packSequenceAndType (seq : Nat) (t : ValueType) (hseq : seq ≤ kMaxSequenceNumber) :
    (packSequenceAndType seq t >>> 8).toNat = seq ∧
      UInt8.ofNat (packSequenceAndType seq t &&& 0xff).toNat = t.toUInt8 := by
  have hb : t.toUInt8.toNat < 256 := t.toUInt8.toNat_lt
  have hpack := packSequenceAndType_toNat seq t hseq
  constructor
  · rw [UInt64.toNat_shiftRight, hpack, Nat.shiftRight_eq_div_pow]
    simp only [UInt64.toNat_ofNat, Nat.reducePow, Nat.reduceMod]
    omega
  · have hand : (seq * 256 + t.toUInt8.toNat) &&& 0xff = t.toUInt8.toNat := by
      rw [show (0xff : Nat) = 2 ^ 8 - 1 from rfl, Nat.and_two_pow_sub_one_eq_mod]
      omega
    apply UInt8.toNat_inj.mp
    rw [UInt64.toNat_and, hpack, UInt8.toNat_ofNat', show (0xff : UInt64).toNat = 0xff from rfl,
      hand]
    exact Nat.mod_eq_of_lt hb

theorem ofNat_length_add_eight {n : Nat} (hn : n + 8 < 2 ^ 32) :
    UInt32.ofNat n + 8 = UInt32.ofNat (n + 8) ∧ (UInt32.ofNat n).toNat = n ∧
      (UInt32.ofNat (n + 8)).toNat = n + 8 := by
  refine ⟨by simp [UInt32.ofNat_add], ?_, ?_⟩ <;>
    · rw [UInt32.toNat_ofNat']
      exact Nat.mod_eq_of_lt (by omega)

/-- An entry is the length-prefixed internal key, then the length-prefixed
value, when its sizes fit. -/
theorem encodeEntry_eq {s : Nat} {type : ValueType} {key value : List UInt8}
    (hk : key.length + 8 < 2 ^ 32) :
    encodeEntry s type key value =
      putLengthPrefixedSlice [] (appendInternalKey [] ⟨key, s, type⟩) ++
        (encodeVarint32 (UInt32.ofNat value.length) ++
          value.take (UInt32.ofNat value.length).toNat) := by
  obtain ⟨hadd, hkey, -⟩ := ofNat_length_add_eight hk
  simp only [encodeEntry, putLengthPrefixedSlice, appendInternalKey_nil, hadd, hkey, List.take_length,
    List.nil_append, List.length_append, encodeFixed64_length, List.append_assoc]

theorem getLengthPrefixedSlicePtr_encodeEntry {s : Nat} {type : ValueType} {key value : List UInt8}
    (hk : key.length + 8 < 2 ^ 32) :
    getLengthPrefixedSlicePtr (encodeEntry s type key value) = appendInternalKey [] ⟨key, s, type⟩ := by
  rw [encodeEntry_eq hk]
  exact getLengthPrefixedSlicePtr_put _ _ (by simpa [appendInternalKey_nil] using hk)

theorem getLengthPrefixedSlicePtr_memtableKey (k : LookupKey) (hk : k.userKey.length + 8 < 2 ^ 32) :
    getLengthPrefixedSlicePtr k.memtableKey =
      appendInternalKey [] ⟨k.userKey, k.sequence, kValueTypeForSeek⟩ := by
  have h := getLengthPrefixedSlicePtr_put (appendInternalKey [] ⟨k.userKey, k.sequence, kValueTypeForSeek⟩)
    [] (by simpa [appendInternalKey_nil] using hk)
  simpa [putLengthPrefixedSlice, appendInternalKey_nil, LookupKey.memtableKey] using h

/-- The skip list compares encoded entries as `CompareKeySeq` compares the
entries. -/
theorem keyComparator_encode {a b : Entry} (ha : a.KeyFits) (hb : b.KeyFits) :
    keyComparator ucmp a.encode b.encode = Entry.compareKeySeq ucmp a b := by
  rw [keyComparator, Entry.encode, Entry.encode, getLengthPrefixedSlicePtr_encodeEntry ha.1,
    getLengthPrefixedSlicePtr_encodeEntry hb.1,
    compareKeySeq_appendInternalKey ucmp _ _ ha.2 hb.2]
  rfl

theorem keyComparator_encode_memtableKey {a : Entry} (ha : a.KeyFits) {k : LookupKey}
    (hk : k.userKey.length + 8 < 2 ^ 32) (hS : k.sequence ≤ kMaxSequenceNumber) :
    keyComparator ucmp a.encode k.memtableKey = Entry.compareKeySeq ucmp a (lookupEntry k) := by
  rw [keyComparator, Entry.encode, getLengthPrefixedSlicePtr_encodeEntry ha.1,
    getLengthPrefixedSlicePtr_memtableKey k hk, compareKeySeq_appendInternalKey ucmp _ _ ha.2 hS]
  rfl

/-- `SaveValue` on an encoded entry: the type switch with the entry's sequence
number and value when the user key is the one looked up, the end of the scan
otherwise. -/
theorem saveValue_encode (op : MergeOperator) (key : LookupKey) (s : Saver) {e : Entry}
    (he : e.Fits) :
    saveValue ucmp op key s e.encode =
      if ucmp e.key key.userKey = .eq then
        saveValueOfType op key { s with seq := e.seq } (some e.type) e.value
      else (false, s) := by
  obtain ⟨⟨hk, hseq⟩, hv⟩ := he
  obtain ⟨-, hkey, hlen⟩ := ofNat_length_add_eight hk
  obtain ⟨hsh, hand⟩ := unPack_packSequenceAndType e.seq e.type hseq
  have hvar := getVarint32_encode (UInt32.ofNat (e.key.length + 8))
    (e.key ++ encodeFixed64 (packSequenceAndType e.seq e.type) ++
      putLengthPrefixedSlice [] e.value)
  have hval : (UInt32.ofNat e.value.length).toNat = e.value.length := by
    rw [UInt32.toNat_ofNat']
    exact Nat.mod_eq_of_lt hv
  have hsub : (UInt32.ofNat (e.key.length + 8) - 8).toNat = e.key.length := by
    rw [UInt32.toNat_sub_of_le _ _ (by rw [UInt32.le_iff_toNat_le, hlen]; simp), hlen]; rfl
  have henc : e.encode = encodeVarint32 (UInt32.ofNat (e.key.length + 8)) ++
      (e.key ++ encodeFixed64 (packSequenceAndType e.seq e.type) ++
        putLengthPrefixedSlice [] e.value) := by
    simp [Entry.encode, encodeEntry_eq hk, putLengthPrefixedSlice, appendInternalKey_nil, hval]
  simp only [getVarint32] at hvar
  have hfix := decodeFixed64_encode (packSequenceAndType e.seq e.type)
    (putLengthPrefixedSlice [] e.value)
  have hslice := getLengthPrefixedSlicePtr_put e.value [] hv
  rw [List.append_nil] at hslice
  simp only [saveValue, henc]
  have hrest : (e.key ++ (encodeFixed64 (packSequenceAndType e.seq e.type) ++
      putLengthPrefixedSlice [] e.value)).drop (e.key.length + 8) = putLengthPrefixedSlice [] e.value := by
    simp [List.drop_append]
  rw [hvar]
  simp only [hsub, hlen, List.append_assoc, List.take_left', Nat.add_sub_cancel, List.drop_left',
    hfix, hsh, hand, ValueType.ofUInt8?_toUInt8, hrest, hslice]

/-! ## The skip list holds the entries added, in order -/

section Table

variable {ucmp}

variable (ucmp) in
/-- The table holds the entries `l`, encoded, in `CompareKeySeq` order, and a
memtable with no first sequence number holds none. -/
structure TableOf (m : MemTable) (l : List Entry) : Prop where
  table_eq : m.table = l.map Entry.encode
  sorted : SortedList.Sorted (Entry.compareKeySeq ucmp) l
  fits : ∀ e ∈ l, e.Fits
  empty_of_firstSeqno : m.firstSeqno = 0 → l = []

theorem tableOf_create (latestSeq : Nat) : TableOf ucmp (create latestSeq) [] :=
  ⟨rfl, SortedList.sorted_nil, by simp, fun _ => rfl⟩

/-- Inserting an encoded entry into the table is inserting the entry into the
list it encodes. -/
theorem TableOf.insertKey {m : MemTable} {l : List Entry} (h : TableOf ucmp m l) {e : Entry}
    (he : e.KeyFits) (htype : e.type ≠ .rangeDeletion) :
    m.insertKey ucmp e.type e.encode =
      (SortedList.insert (Entry.compareKeySeq ucmp) l e).map
        fun l' => { m with table := l'.map Entry.encode } := by
  have hmap := SortedList.insert_map Entry.encode l e
    (fun b hb => keyComparator_encode ucmp (h.fits b hb).1 he)
    (fun b hb => keyComparator_encode ucmp he (h.fits b hb).1)
  rw [MemTable.insertKey, if_neg htype, h.table_eq, hmap, Option.map_map]
  rfl

/-- Two entries compare equal exactly when their user keys and sequence numbers
are the same. -/
theorem Entry.compareKeySeq_eq_eq_iff [Std.LawfulEqCmp ucmp] {a b : Entry} :
    Entry.compareKeySeq ucmp a b = .eq ↔ a.key = b.key ∧ a.seq = b.seq := by
  rw [Entry.compareKeySeq_eq, Ordering.then_eq_eq, Std.LawfulEqCmp.compare_eq_iff_eq,
    Nat.compare_eq_eq, @eq_comm _ b.seq a.seq]

variable [Std.TransCmp ucmp] [Std.LawfulEqCmp ucmp]

/-- An `Add` of a fresh (user key, sequence number) pair succeeds and puts the
entry among the others, in order. -/
theorem TableOf.add {m : MemTable} {l : List Entry} (h : TableOf ucmp m l) {e : Entry}
    (he : e.Fits) (hs : 0 < e.seq) (htype : e.type ≠ .rangeDeletion)
    (hfresh : ∀ b ∈ l, ¬(b.key = e.key ∧ b.seq = e.seq)) :
    ∃ l', (m.add ucmp e.seq e.type e.key e.value).1 = true ∧
      TableOf ucmp (m.add ucmp e.seq e.type e.key e.value).2 l' ∧ l'.Perm (e :: l) := by
  have hne : ∀ b ∈ l, Entry.compareKeySeq ucmp e b ≠ .eq := by
    intro b hb heq
    obtain ⟨hkey, hseq⟩ := Entry.compareKeySeq_eq_eq_iff.mp heq
    exact hfresh b hb ⟨hkey.symm, hseq.symm⟩
  have hins := h.insertKey he.1 htype
  rw [SortedList.insert_eq_some h.sorted hne, Option.map_some] at hins
  refine ⟨_, ?_, ⟨?_, SortedList.sorted_split h.sorted hne, ?_, ?_⟩, SortedList.perm_split l e⟩
  · simp only [MemTable.add]
    rw [show encodeEntry e.seq e.type e.key e.value = e.encode from rfl, hins]
  · simp only [MemTable.add]
    rw [show encodeEntry e.seq e.type e.key e.value = e.encode from rfl, hins]
    simp
  · intro b hb
    rcases List.mem_append.mp hb with hb | hb
    · exact h.fits b (List.mem_filter.mp hb).1
    · rcases List.mem_cons.mp hb with rfl | hb
      · exact he
      · exact h.fits b (List.mem_filter.mp hb).1
  · simp only [MemTable.add]
    rw [show encodeEntry e.seq e.type e.key e.value = e.encode from rfl, hins]
    intro h0
    simp only [markRangeDel_firstSeqno] at h0
    exact absurd h0 (setFirstSeqno_firstSeqno_ne_zero _ (Nat.pos_iff_ne_zero.mp hs))

/-- An `Add` of a (user key, sequence number) pair the table holds is refused,
whatever its type (but a range deletion) and value, and changes nothing. -/
theorem TableOf.add_of_mem {m : MemTable} {l : List Entry} (h : TableOf ucmp m l) {e : Entry}
    (he : e.KeyFits) (htype : e.type ≠ .rangeDeletion) {b : Entry} (hb : b ∈ l)
    (hkey : b.key = e.key) (hseq : b.seq = e.seq) :
    m.add ucmp e.seq e.type e.key e.value = (false, m) := by
  have hnone : SortedList.insert (Entry.compareKeySeq ucmp) l e = none :=
    (SortedList.insert_eq_none_iff h.sorted e).mpr
      ⟨b, hb, Entry.compareKeySeq_eq_eq_iff.mpr ⟨hkey.symm, hseq.symm⟩⟩
  have hins := h.insertKey he htype
  rw [hnone, Option.map_none] at hins
  simp only [MemTable.add]
  rw [show encodeEntry e.seq e.type e.key e.value = e.encode from rfl, hins]

/-- A run of `Add`s of fresh pairs: the table holds the entries before it and
those of the run. -/
theorem TableOf.addAll {m : MemTable} {l : List Entry} (h : TableOf ucmp m l) (es : List Entry)
    (hes : ∀ e ∈ es, e.Fits ∧ 0 < e.seq ∧ e.type ≠ .rangeDeletion)
    (hnodup : ((l ++ es).map fun e => (e.key, e.seq)).Nodup) :
    ∃ l', TableOf ucmp (addAll ucmp m es) l' ∧ l'.Perm (l ++ es) := by
  induction es generalizing m l with
  | nil => exact ⟨l, h, by simp⟩
  | cons e es ih =>
    obtain ⟨he, hs, htype⟩ := hes e List.mem_cons_self
    -- the pair of `e` is in no entry of `l`
    have hfresh : ∀ b ∈ l, ¬(b.key = e.key ∧ b.seq = e.seq) := by
      intro b hb ⟨hkey, hseq⟩
      have hnd := List.nodup_middle.mp (by simpa using hnodup)
      have : (e.key, e.seq) ∈ (l ++ es).map fun e => (e.key, e.seq) :=
        List.mem_map.mpr ⟨b, List.mem_append_left es hb, by rw [hkey, hseq]⟩
      exact (List.nodup_cons.mp hnd).1 (by simpa using this)
    obtain ⟨l₁, -, h₁, hperm⟩ := h.add he hs htype hfresh
    have hperm' : (l₁ ++ es).Perm (l ++ e :: es) :=
      (hperm.append_right es).trans List.perm_middle.symm
    obtain ⟨l', h', hperm''⟩ := ih h₁ (fun e he => hes e (List.mem_cons_of_mem _ he))
      ((hperm'.map _).nodup_iff.mpr hnodup)
    exact ⟨l', h', hperm''.trans hperm'⟩

end Table

/-! ## The lookup -/

/-- A point entry: `Put`, `Delete`, `SingleDelete` or `Merge`, the types
`MemTable::Add` writes for a single key. -/
def Entry.IsPoint (e : Entry) : Prop :=
  e.type = .value ∨ e.type = .merge ∨ e.type = .deletion ∨ e.type = .singleDeletion

instance (e : Entry) : Decidable e.IsPoint := inferInstanceAs (Decidable (_ ∨ _ ∨ _ ∨ _))

section Lookup

variable {ucmp} [Std.TransCmp ucmp] [Std.LawfulEqCmp ucmp] (op : MergeOperator) (key : LookupKey)

omit [Std.TransCmp ucmp] in
/-- `SaveValue` over entries of the looked-up key, newest first, reports what
`resolve` says, from a saver in the state the scan keeps: status OK, no final
value, and a merge in progress exactly when operands were collected. -/
theorem getLoop_resolve (K : List Entry) (s : Saver)
    (hK : ∀ e ∈ K, e.Fits ∧ e.key = key.userKey ∧ e.IsPoint) (hst : s.status = .ok)
    (hfound : s.foundFinalValue = false) (hmip : s.mergeInProgress = decide (s.mergeContext ≠ [])) :
    (resolve op key.userKey K s.mergeContext).Reports s.value
      (getLoop ucmp op key (K.map Entry.encode) s).finish := by
  induction K generalizing s with
  | nil =>
    by_cases hops : s.mergeContext = [] <;>
      simp [getLoop, Saver.finish, resolve, Lookup.Reports, hst, hfound, hmip, hops]
  | cons e K ih =>
    obtain ⟨he, hkey, htype⟩ := hK e List.mem_cons_self
    have hsave := saveValue_encode ucmp op key s he
    rw [if_pos (by rw [hkey]; exact Std.ReflCmp.compare_self)] at hsave
    simp only [List.map_cons, getLoop, hsave]
    rcases htype with ht | ht | hdel
    · -- a `Put` ends the scan with its value, merged with the operands if any
      by_cases hops : s.mergeContext = []
      · simp [saveValueOfType, resolve, ht, hops, hmip, Saver.finish, Lookup.Reports]
      · cases hm : timedFullMerge op key.userKey (some e.value) s.mergeContext <;>
          simp [saveValueOfType, resolve, ht, hops, hmip, Saver.finish, Lookup.Reports,
            Saver.fullMerge, Lookup.merged, hm]
    · -- a merge operand goes in front of the older ones and the scan goes on
      have hres : resolve op key.userKey (e :: K) s.mergeContext =
          resolve op key.userKey K (e.value :: s.mergeContext) := by
        simp [resolve, ht]
      simpa [saveValueOfType, ht, hres] using
        ih { s with seq := e.seq, mergeInProgress := true, mergeContext := e.value :: s.mergeContext }
          (fun b hb => hK b (List.mem_cons_of_mem e hb)) hst hfound (by simp)
    · -- a deletion ends the scan with `NotFound`, or merges the operands into nothing
      by_cases hops : s.mergeContext = []
      · rcases hdel with ht | ht <;>
          simp [saveValueOfType, resolve, ht, hops, hmip, Saver.finish, Lookup.Reports]
      · rcases hdel with ht | ht <;>
          cases hm : timedFullMerge op key.userKey none s.mergeContext <;>
          simp [saveValueOfType, resolve, ht, hops, hmip, Saver.finish, Lookup.Reports,
            Saver.fullMerge, Lookup.merged, hm]

/-- From the seek position on, the entries of other user keys only end the
scan: in skip-list order the first of them follows all of the looked-up key's. -/
theorem getLoop_filter_key (F : List Entry) (s : Saver)
    (hsorted : SortedList.Sorted (Entry.compareKeySeq ucmp) F)
    (hF : ∀ e ∈ F, e.Fits ∧ Entry.compareKeySeq ucmp e (lookupEntry key) ≠ .lt) :
    getLoop ucmp op key (F.map Entry.encode) s =
      getLoop ucmp op key ((F.filter fun e => e.key = key.userKey).map Entry.encode) s := by
  induction F generalizing s with
  | nil => rfl
  | cons e F ih =>
    obtain ⟨he, hge⟩ := hF e List.mem_cons_self
    obtain ⟨hlt, hsF⟩ := SortedList.sorted_cons.mp hsorted
    by_cases hkey : e.key = key.userKey
    · rw [List.filter_cons_of_pos (by simpa using hkey)]
      simp only [List.map_cons, getLoop]
      obtain ⟨cont, s'⟩ := saveValue ucmp op key s e.encode
      cases cont
      · rfl
      · exact ih s' hsF fun b hb => hF b (List.mem_cons_of_mem e hb)
    · -- `e`'s user key is above the looked-up one, and so are those after it
      have hne : ucmp e.key key.userKey ≠ .eq := mt Std.LawfulEqCmp.compare_eq_iff_eq.mp hkey
      have hgt : ucmp e.key key.userKey = .gt := by
        rw [Entry.compareKeySeq_eq] at hge
        simp only [lookupEntry] at hge
        cases hc : ucmp e.key key.userKey
        · simp [hc] at hge
        · exact absurd hc hne
        · rfl
      have hrest : (F.filter fun b => b.key = key.userKey) = [] := by
        refine List.filter_eq_nil_iff.mpr fun b hb hbk => ?_
        have hkb : ucmp key.userKey b.key = .lt := by
          have hlt' := hlt b hb
          rw [Entry.compareKeySeq_eq, Ordering.then_eq_lt] at hlt'
          rcases hlt' with h | ⟨h, -⟩
          · exact Std.TransCmp.lt_trans (Std.OrientedCmp.lt_of_gt hgt) h
          · exact Std.TransCmp.lt_of_lt_of_eq (Std.OrientedCmp.lt_of_gt hgt) h
        have hself : ucmp key.userKey key.userKey = .eq := Std.LawfulEqCmp.compare_eq_iff_eq.mpr rfl
        rw [of_decide_eq_true hbk, hself] at hkb
        exact absurd hkb (by decide)
      rw [List.filter_cons_of_neg (by simpa using hkey), hrest]
      simp [getLoop, saveValue_encode ucmp op key s he, hne]

omit [Std.TransCmp ucmp] in
/-- Of the entries not below the lookup key, those of its user key are those
with a sequence number at most its own. -/
theorem filter_lookupEntry (l : List Entry) :
    ((l.filter fun e => Entry.compareKeySeq ucmp e (lookupEntry key) ≠ .lt).filter
        fun e => e.key = key.userKey) =
      l.filter fun e => e.key = key.userKey ∧ e.seq ≤ key.sequence := by
  rw [List.filter_filter]
  refine List.filter_congr fun e _ => ?_
  by_cases hkey : e.key = key.userKey
  · simp [hkey, Entry.compareKeySeq_eq, lookupEntry, Std.ReflCmp.compare_self, Nat.compare_eq_lt]
  · simp [hkey]

omit [Std.TransCmp ucmp] in
/-- In skip-list order the entries of one user key are newest first, so the
table's entries of `k` at most `S` are `visible k S` of the entries added, when
no two of those share a user key and a sequence number. -/
theorem filter_eq_visible {l entries : List Entry} (hperm : l.Perm entries)
    (hsorted : SortedList.Sorted (Entry.compareKeySeq ucmp) l)
    (hnodup : (entries.map fun e => (e.key, e.seq)).Nodup) (k : List UInt8) (S : Nat) :
    (l.filter fun e => e.key = k ∧ e.seq ≤ S) = visible k S entries := by
  have hmem : ∀ {e}, e ∈ visible k S entries → e ∈ entries ∧ e.key = k ∧ e.seq ≤ S := by
    intro e he
    have := List.mem_filter.mp ((List.mergeSort_perm _ _).mem_iff.mp he)
    simpa using this
  refine @List.Perm.eq_of_pairwise _ (fun a b => decide (b.seq ≤ a.seq) = true) _ _ ?_ ?_ ?_ ?_
  · -- one user key and one sequence number make one entry
    intro a b ha hb hab hba
    obtain ⟨hal, hak, -⟩ := List.mem_filter.mp ha |>.imp_right (by simpa using ·)
    obtain ⟨hbe, hbk, -⟩ := hmem hb
    refine List.inj_on_of_nodup_map hnodup (hperm.mem_iff.mp hal) hbe ?_
    simp only [decide_eq_true_eq] at hab hba
    rw [hak, hbk, Nat.le_antisymm hba hab]
  · -- the table's order within one user key is by sequence number, newest first
    refine (hsorted.filter _).imp_of_mem fun {a b} ha hb hab => ?_
    have hak : a.key = k := (by simpa using (List.mem_filter.mp ha).2 : a.key = k ∧ a.seq ≤ S).1
    have hbk : b.key = k := (by simpa using (List.mem_filter.mp hb).2 : b.key = k ∧ b.seq ≤ S).1
    have hself : ucmp a.key b.key = .eq := Std.LawfulEqCmp.compare_eq_iff_eq.mpr (hak.trans hbk.symm)
    rw [Entry.compareKeySeq_eq, hself, Ordering.eq_then, Nat.compare_eq_lt] at hab
    simpa using hab.le
  · exact List.pairwise_mergeSort (fun a b c hab hbc => by simp at *; omega)
      (fun a b => by simpa using Nat.le_total b.seq a.seq) _
  · exact (hperm.filter _).trans (List.mergeSort_perm _ _).symm

/-- `Get` on a table holding `l` reports the resolution of the entries of the
looked-up key at most its sequence number, newest first. -/
theorem TableOf.get {m : MemTable} {l : List Entry} (h : TableOf ucmp m l)
    (hpoint : ∀ e ∈ l, e.IsPoint) (hk : key.userKey.length + 8 < 2 ^ 32)
    (hS : key.sequence ≤ kMaxSequenceNumber) (value₀ : List UInt8) (seq₀ : Nat) :
    (resolve op key.userKey (l.filter fun e => e.key = key.userKey ∧ e.seq ≤ key.sequence) []).Reports
      value₀ (m.get ucmp op key value₀ .ok [] seq₀) := by
  by_cases hempty : m.isEmpty
  · -- nothing was added
    have hl : l = [] := h.empty_of_firstSeqno (by simpa [isEmpty] using hempty)
    subst hl
    simp [MemTable.get, hempty, resolve, Lookup.Reports]
  · -- the seek lands on the first entry not below the lookup key
    have hseek : SortedList.seek (keyComparator ucmp) m.table key.memtableKey =
        SortedList.seek (Entry.compareKeySeq ucmp) l (lookupEntry key) := by
      rw [h.table_eq]
      exact SortedList.seek_map Entry.encode l _ _
        fun e he => keyComparator_encode_memtableKey ucmp (h.fits e he).1 hk hS
    have hdrop : m.table.drop (SortedList.seek (keyComparator ucmp) m.table key.memtableKey) =
        (l.filter fun e => Entry.compareKeySeq ucmp e (lookupEntry key) ≠ .lt).map Entry.encode := by
      rw [hseek, h.table_eq, ← List.map_drop, SortedList.drop_seek h.sorted]
    have hF : ∀ e ∈ l.filter (fun e => Entry.compareKeySeq ucmp e (lookupEntry key) ≠ .lt),
        e.Fits ∧ Entry.compareKeySeq ucmp e (lookupEntry key) ≠ .lt := by
      intro e he
      obtain ⟨hel, hge⟩ := List.mem_filter.mp he
      exact ⟨h.fits e hel, by simpa using hge⟩
    have hK : ∀ e ∈ l.filter (fun e => e.key = key.userKey ∧ e.seq ≤ key.sequence),
        e.Fits ∧ e.key = key.userKey ∧ e.IsPoint := by
      intro e he
      obtain ⟨hel, hkey⟩ := List.mem_filter.mp he
      exact ⟨h.fits e hel, (by simpa using hkey : e.key = key.userKey ∧ _).1, hpoint e hel⟩
    simp only [MemTable.get, hempty, if_false, Bool.false_eq_true]
    rw [hdrop, getLoop_filter_key op key _ _ (h.sorted.filter _) hF, filter_lookupEntry key l]
    exact getLoop_resolve op key _ _ hK rfl rfl (by simp)

end Lookup

/-- `MemTable::Get` agrees with the reference resolution. After any run of
`Add`s of `Put`, `Delete`, `SingleDelete` and `Merge` entries with distinct
(user key, sequence number) pairs and sequence numbers at least 1 (each
encodable in the entry format), a lookup of `(k, S)` reports what reading `k`'s
entries at most `S` newest first gives: the `Put` value, `NotFound`, the full
merge result, or `MergeInProgress` with the operands. A second `Add` of a pair
already there is refused and changes nothing. -/
theorem memTable_get_resolves [Std.TransCmp ucmp] [Std.LawfulEqCmp ucmp] (op : MergeOperator)
    (latestSeq : Nat) (entries : List Entry) (hfit : ∀ e ∈ entries, e.Fits)
    (hseq : ∀ e ∈ entries, 0 < e.seq) (hpoint : ∀ e ∈ entries, e.IsPoint)
    (hdistinct : (entries.map fun e => (e.key, e.seq)).Nodup) (key : LookupKey)
    (hk : key.userKey.length + 8 < 2 ^ 32) (hS : key.sequence ≤ kMaxSequenceNumber)
    (value₀ : List UInt8) (seq₀ : Nat) :
    (resolve op key.userKey (visible key.userKey key.sequence entries) []).Reports value₀
        ((addAll ucmp (create latestSeq) entries).get ucmp op key value₀ .ok [] seq₀) ∧
      ∀ e ∈ entries, ∀ (type : ValueType) (value : List UInt8), type ≠ .rangeDeletion →
        (addAll ucmp (create latestSeq) entries).add ucmp e.seq type e.key value =
          (false, addAll ucmp (create latestSeq) entries) := by
  have hpoint' : ∀ e ∈ entries, e.type ≠ .rangeDeletion := by
    intro e he
    rcases hpoint e he with h | h | h | h <;> rw [h] <;> decide
  obtain ⟨l, hl, hperm⟩ := (@tableOf_create ucmp latestSeq).addAll entries
    (fun e he => ⟨hfit e he, hseq e he, hpoint' e he⟩) (by simpa using hdistinct)
  rw [List.nil_append] at hperm
  refine ⟨?_, ?_⟩
  · rw [← filter_eq_visible hperm hl.sorted hdistinct]
    exact hl.get op key (fun e he => hpoint e (hperm.mem_iff.mp he)) hk hS value₀ seq₀
  · intro e he type value htype
    have hel := hperm.mem_iff.mpr he
    exact hl.add_of_mem (show Entry.KeyFits ⟨e.seq, type, e.key, value⟩ from (hfit e he).1) htype hel
      rfl rfl

/-- A user key of 2^32 bytes has the `uint32_t` size 0: `Add` stores its `Put`
under the empty user key, and the seek for the key at 1, whose length prefix
covers the first eight bytes of the key, passes that entry when they are zero.
The reference finds the `Put`; `Get` finds nothing. -/
theorem get_misses_key_of_length_two_pow_32 {key : List UInt8} (hlen : key.length = 2 ^ 32)
    (htake : key.take 8 = List.replicate 8 0) (op : MergeOperator) :
    (resolve op key (visible key 1 [⟨1, .value, key, []⟩]) []).found = true ∧
      ((addAll bytewiseCompare (create 0) [⟨1, .value, key, []⟩]).get bytewiseCompare op ⟨key, 1⟩
        [] .ok [] 0).1 = false := by
  -- the entry keeps none of the key's bytes
  have hentry : encodeEntry 1 .value key [] =
      encodeVarint32 8 ++ (encodeFixed64 (packSequenceAndType 1 .value) ++ encodeVarint32 0) := by
    have hsize : UInt32.ofNat key.length = 0 := by rw [hlen]; decide
    simp [encodeEntry, hsize]
  -- and the lookup key reads as eight zero bytes
  have hlookup : getLengthPrefixedSlicePtr (LookupKey.memtableKey ⟨key, 1⟩) = List.replicate 8 0 := by
    have hsize : UInt32.ofNat (key.length + 8) = 8 := by rw [hlen]; decide
    have hvar : getVarint32Ptr ((8 : UInt8) :: (key ++
        encodeFixed64 (packSequenceAndType 1 kValueTypeForSeek))) =
        some (8, key ++ encodeFixed64 (packSequenceAndType 1 kValueTypeForSeek)) := by
      simp [getVarint32Ptr]
    have henc : encodeVarint32 8 = [8] := by decide
    simp only [LookupKey.memtableKey, hsize, henc, List.cons_append, List.nil_append,
      getLengthPrefixedSlicePtr, hvar, UInt32.reduceToNat]
    rw [List.take_append_of_le_length (by rw [hlen]; decide), htake]
  have hcmp : keyComparator bytewiseCompare
      (encodeVarint32 8 ++ (encodeFixed64 (packSequenceAndType 1 .value) ++ encodeVarint32 0))
      (LookupKey.memtableKey ⟨key, 1⟩) = .lt := by
    rw [keyComparator, hlookup]
    decide
  constructor
  · simp [visible, resolve]
  · -- `Add` puts the entry into the empty table and sets the first sequence number
    have hins : (create 0).insertKey bytewiseCompare .value (encodeEntry 1 .value key []) =
        some { create 0 with table := [encodeEntry 1 .value key []] } := rfl
    obtain ⟨m₁, hadd, htable, hfirst⟩ : ∃ m₁, (create 0).add bytewiseCompare 1 .value key [] = (true, m₁) ∧
        m₁.table = [encodeEntry 1 .value key []] ∧ m₁.firstSeqno = 1 := by
      refine ⟨_, by simp only [MemTable.add, hins]; rfl, ?_, ?_⟩
      · simp
      · simp [setFirstSeqno_firstSeqno, create]
    have hrun : addAll bytewiseCompare (create 0) [⟨1, .value, key, []⟩] = m₁ := by
      simp [addAll, hadd]
    -- the seek passes the only entry, and the scan has nothing to read
    have hseek : SortedList.seek (keyComparator bytewiseCompare) m₁.table
        (LookupKey.memtableKey ⟨key, 1⟩) = 1 := by
      rw [htable, hentry, SortedList.seek_cons, if_pos hcmp, SortedList.seek_nil]
    have hempty : m₁.isEmpty = false := by simp [isEmpty, hfirst]
    rw [hrun, MemTable.get, hempty, if_neg Bool.false_ne_true, hseek, htable]
    rfl

/-- The key of 2^32 zero bytes. -/
theorem memTable_get_misses_key_of_two_pow_32_bytes :
    (resolve (stringAppendOperator 44) (List.replicate (2 ^ 32) 0)
        (visible (List.replicate (2 ^ 32) 0) 1 [⟨1, .value, List.replicate (2 ^ 32) 0, []⟩])
        []).found = true ∧
      ((addAll bytewiseCompare (create 0) [⟨1, .value, List.replicate (2 ^ 32) 0, []⟩]).get
        bytewiseCompare (stringAppendOperator 44) ⟨List.replicate (2 ^ 32) 0, 1⟩ [] .ok [] 0).1 =
        false :=
  get_misses_key_of_length_two_pow_32 List.length_replicate
    (by rw [List.take_replicate, Nat.min_eq_left (by decide)]) _

/-- A `Put` of `[5]` at 1 and a `Merge` of `[6]` at 2 for the key `[1]`, read at
2 with the string-append operator. -/
theorem memTable_get_resolves_sample :
    (∀ e ∈ [Entry.mk 1 .value [1] [5], Entry.mk 2 .merge [1] [6]], e.Fits) ∧
      (∀ e ∈ [Entry.mk 1 .value [1] [5], Entry.mk 2 .merge [1] [6]], 0 < e.seq) ∧
      (∀ e ∈ [Entry.mk 1 .value [1] [5], Entry.mk 2 .merge [1] [6]], e.IsPoint) ∧
      ([Entry.mk 1 .value [1] [5], Entry.mk 2 .merge [1] [6]].map fun e => (e.key, e.seq)).Nodup ∧
      ([1] : List UInt8).length + 8 < 2 ^ 32 ∧ 2 ≤ kMaxSequenceNumber ∧
      ((resolve (stringAppendOperator 44) [1]
          (visible [1] 2 [Entry.mk 1 .value [1] [5], Entry.mk 2 .merge [1] [6]]) []).Reports []
        ((addAll bytewiseCompare (create 0) [Entry.mk 1 .value [1] [5], Entry.mk 2 .merge [1] [6]]).get
          bytewiseCompare (stringAppendOperator 44) ⟨[1], 2⟩ [] .ok [] 0) ∧
      ∀ e ∈ [Entry.mk 1 .value [1] [5], Entry.mk 2 .merge [1] [6]], ∀ (type : ValueType)
        (value : List UInt8), type ≠ .rangeDeletion →
        (addAll bytewiseCompare (create 0) [Entry.mk 1 .value [1] [5], Entry.mk 2 .merge [1] [6]]).add
          bytewiseCompare e.seq type e.key value =
          (false, addAll bytewiseCompare (create 0) [Entry.mk 1 .value [1] [5], Entry.mk 2 .merge [1] [6]])) :=
  ⟨by decide, by decide, by decide, by decide, by decide, by decide,
    memTable_get_resolves bytewiseCompare (stringAppendOperator 44) 0
      [Entry.mk 1 .value [1] [5], Entry.mk 2 .merge [1] [6]] (by decide) (by decide) (by decide)
      (by decide) ⟨[1], 2⟩ (by decide) (by decide) [] 0⟩

example : ((addAll bytewiseCompare (create 0) [Entry.mk 1 .value [1] [5], Entry.mk 2 .merge [1] [6]]).get
    bytewiseCompare (stringAppendOperator 44) ⟨[1], 2⟩ [] .ok [] 0).2.value = [5, 44, 6] := by decide

end MemTable

end RocksDB
