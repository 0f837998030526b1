import Mathlib
import RocksDB.Db.DbFormat
import RocksDB.Util.MurmurHash

/-!
# The pessimistic lock manager (`utilities/transactions/transaction_lock_mgr.cc`)

Each column family has a `LockMap` of `num_stripes` stripes; a key lives in
the stripe its hash selects, whose table maps every locked key to its
`LockInfo`: the holders, whether the lock is exclusive, and its expiration
time. `lock_cnt` counts the locked keys of the column family when
`max_num_locks_` is positive.

`TryLock` with a lock timeout of zero makes one attempt, `AcquireLocked`: a
free key is locked if the limit allows it, a shared lock is shared with a
shared request, a transaction holding the key alone takes it in the requested
mode, and any other request fails unless the lock expired. `IsLockExpired`
lets an expired lock be stolen when the database gives up the locks of every
other holder: `TryStealingExpiredTransactionLocks` gives up those of a
transaction that is not expirable, and of an expirable one whose state it moves
from `STARTED` to `LOCKS_STOLEN`. `UnLock` removes the transaction from the
holders of the key.

## Main results

* `unLock_shared_decrements_lockCnt`: `UnLockKey` decrements `lock_cnt` for
  every holder it removes, also when other holders keep the key locked, so the
  count falls below the number of locked keys.
* `tryLock_exceeds_max_num_locks`: after two transactions share a key and one
  of them unlocks it, a third locks a second key against a limit of one lock.
* `tryLock_steals_expired_lock`: a conflicting `TryLock` takes a lock from
  other holders only once it expired, leaving each of them unregistered as
  expirable or `LOCKS_STOLEN`, and it does take an expired lock whose other
  holders are unregistered or still `STARTED`; a holder without expiration thus
  loses a shared lock when another holder's expiration passes
  (`tryLock_steals_from_unexpirable_holder`).

## Design notes

* A stripe's table is an `AList`; updating the `LockInfo` of a locked key in
  place is an `insert` of the key.
* `LockMap::GetStripe` hashes the key with `murmur_hash`, `MurmurHash64A` on
  x86-64.
* `txn_db_impl_` is the part of `PessimisticTransactionDB` that the manager
  reads and writes: `expirable_transactions_map_`, with the `txn_state_` of each
  transaction in it. `IsLockExpired` threads it through the holders of the lock.
* `AcquireWithTimeout` is modelled for a lock timeout of zero, where it is one
  `AcquireLocked` under the stripe mutex; the wait loop and the deadlock
  detection it runs when the timeout is not zero are not modelled.
* `IsLockExpired` reads the clock through `now`.
-/

namespace RocksDB

/-- `TransactionID`. -/
abbrev TransactionID := UInt64

/-- `TransactionState`. -/
inductive TransactionState
  | started
  | awaitingPrepare
  | prepared
  | awaitingCommit
  | commited
  | awaitingRollback
  | rolledback
  | locksStolen
  deriving DecidableEq, Repr

/-- `PessimisticTransaction::TryStealingLocks`: a compare-and-swap of
`txn_state_` from `STARTED` to `LOCKS_STOLEN`. -/
def tryStealingLocks (txnState : TransactionState) : Bool × TransactionState :=
  if txnState = .started then (true, .locksStolen) else (false, txnState)

/-- The part of `PessimisticTransactionDB` the lock manager uses:
`expirable_transactions_map_`, as the `txn_state_` of each transaction in it. -/
structure PessimisticTransactionDB where
  expirableTransactionsMap : AList (fun _ : TransactionID => TransactionState)

namespace PessimisticTransactionDB

/-- `TryStealingExpiredTransactionLocks(tx_id)`: a transaction that is not in
the map gives its locks up, and one in it gives them up when `TryStealingLocks`
succeeds. -/
def tryStealingExpiredTransactionLocks (db : PessimisticTransactionDB) (txId : TransactionID) :
    Bool × PessimisticTransactionDB :=
  match db.expirableTransactionsMap.lookup txId with
  | none => (true, db)
  | some txnState =>
    let (success, txnState) := tryStealingLocks txnState
    (success, ⟨db.expirableTransactionsMap.insert txId txnState⟩)

end PessimisticTransactionDB

/-- `LockInfo`: the holders of a lock, whether it is exclusive, and the time it
expires at (zero for never). -/
structure LockInfo where
  exclusive : Bool
  txnIds : List TransactionID
  expirationTime : UInt64
  deriving DecidableEq, Repr

/-- `LockMapStripe`: the locked keys of the stripe. -/
structure LockMapStripe where
  keys : AList (fun _ : List UInt8 => LockInfo)

/-- `LockMap`: the stripes of a column family and its `lock_cnt`. -/
structure LockMap where
  numStripes : Nat
  lockCnt : Int
  lockMapStripes : List LockMapStripe

namespace LockMap

/-- `LockMap(num_stripes, factory)`: empty stripes and a zero count. -/
def create (numStripes : Nat) : LockMap :=
  ⟨numStripes, 0, List.replicate numStripes ⟨∅⟩⟩

/-- `LockMap::GetStripe`: `hash(key) % num_stripes_` with `murmur_hash`. -/
def getStripe (lockMap : LockMap) (key : List UInt8) : Nat :=
  (murmurHash key).toNat % lockMap.numStripes

/-- `lock_map_stripes_.at(stripe_num)`. -/
def stripe (lockMap : LockMap) (stripeNum : Nat) : LockMapStripe :=
  lockMap.lockMapStripes.getD stripeNum ⟨∅⟩

/-- The stripe `stripeNum` replaced by `stripe`. -/
def setStripe (lockMap : LockMap) (stripeNum : Nat) (stripe : LockMapStripe) : LockMap :=
  { lockMap with lockMapStripes := lockMap.lockMapStripes.set stripeNum stripe }

/-- `stripe->keys.find(key)` in the stripe of the key. -/
def lockInfo (lockMap : LockMap) (key : List UInt8) : Option LockInfo :=
  (lockMap.stripe (lockMap.getStripe key)).keys.lookup key

/-- The number of locked keys of the column family. -/
def numLockedKeys (lockMap : LockMap) : Nat :=
  (lockMap.lockMapStripes.map fun stripe => stripe.keys.keys.length).sum

end LockMap

/-- `TransactionLockMgr`: the database it steals locks through,
`default_num_stripes_`, `max_num_locks_`, and the lock maps of the column
families. -/
structure TransactionLockMgr where
  txnDbImpl : PessimisticTransactionDB
  defaultNumStripes : Nat
  maxNumLocks : Int
  lockMaps : AList (fun _ : UInt32 => LockMap)

namespace TransactionLockMgr

/-- `TransactionLockMgr(txn_db, default_num_stripes, max_num_locks, ...)`. -/
def create (txnDb : PessimisticTransactionDB) (defaultNumStripes : Nat) (maxNumLocks : Int) :
    TransactionLockMgr :=
  ⟨txnDb, defaultNumStripes, maxNumLocks, ∅⟩

/-- `AddColumnFamily`: a new lock map, unless the column family has one. -/
def addColumnFamily (m : TransactionLockMgr) (columnFamilyId : UInt32) : TransactionLockMgr :=
  if columnFamilyId ∈ m.lockMaps then m
  else { m with lockMaps := m.lockMaps.insert columnFamilyId (LockMap.create m.defaultNumStripes) }

/-- `GetLockMap`. -/
def getLockMap (m : TransactionLockMgr) (columnFamilyId : UInt32) : Option LockMap :=
  m.lockMaps.lookup columnFamilyId

/-- The lock on `key` in the column family, if it is locked. -/
def lockInfo (m : TransactionLockMgr) (columnFamilyId : UInt32) (key : List UInt8) :
    Option LockInfo :=
  (m.getLockMap columnFamilyId).bind (·.lockInfo key)

/-- `lock_cnt` of the column family. -/
def lockCnt (m : TransactionLockMgr) (columnFamilyId : UInt32) : Option Int :=
  (m.getLockMap columnFamilyId).map LockMap.lockCnt

/-- The number of locked keys of the column family. -/
def numLockedKeys (m : TransactionLockMgr) (columnFamilyId : UInt32) : Option Nat :=
  (m.getLockMap columnFamilyId).map LockMap.numLockedKeys

/-- The loop of `IsLockExpired` over the holders of the lock other than
`txnId`: it stops at the first whose locks the database keeps. -/
def tryStealingHolders (txnId : TransactionID) :
    PessimisticTransactionDB → List TransactionID → Bool × PessimisticTransactionDB
  | db, [] => (true, db)
  | db, id :: ids =>
    if txnId = id then tryStealingHolders txnId db ids
    else
      let (success, db) := db.tryStealingExpiredTransactionLocks id
      if success then tryStealingHolders txnId db ids else (false, db)

/-- `IsLockExpired`: the lock's own expiration time when it has one, and the
database takes the locks of the other holders away unless it has not yet
expired. A lock without expiration time is never expired, as the source's
`expired` is never set to `true` there, and yet its holders are asked. -/
def isLockExpired (txnDbImpl : PessimisticTransactionDB) (now : UInt64) (txnId : TransactionID)
    (lockInfo : LockInfo) : Bool × PessimisticTransactionDB :=
  let expired := decide (lockInfo.expirationTime > 0 ∧ lockInfo.expirationTime ≤ now)
  if !expired ∧ lockInfo.expirationTime > 0 then (expired, txnDbImpl)
  else
    let (success, txnDbImpl) := tryStealingHolders txnId txnDbImpl lockInfo.txnIds
    (if success then expired else false, txnDbImpl)

/-- `AcquireLocked` on the stripe `stripeNum` of `lockMap`, for the
transaction `txnId` asking for `key` in the mode `exclusive`. -/
def acquireLocked (maxNumLocks : Int) (txnDbImpl : PessimisticTransactionDB) (now : UInt64)
    (lockMap : LockMap) (stripeNum : Nat) (key : List UInt8) (txnId : TransactionID)
    (expirationTime : UInt64) (exclusive : Bool) : LockMap × PessimisticTransactionDB × Status :=
  let stripe := lockMap.stripe stripeNum
  let update (lockInfo : LockInfo) : LockMap :=
    lockMap.setStripe stripeNum ⟨stripe.keys.insert key lockInfo⟩
  match stripe.keys.lookup key with
  | some lockInfo =>
    if lockInfo.exclusive ∨ exclusive then
      if lockInfo.txnIds.length = 1 ∧ lockInfo.txnIds.head? = some txnId then
        -- the list contains one txn and we're it, so just take it
        (update { lockInfo with exclusive, expirationTime }, txnDbImpl, .ok)
      else
        let (expired, txnDbImpl) := isLockExpired txnDbImpl now txnId lockInfo
        if expired then
          -- the lock is expired and can be stolen; lock_cnt does not change
          (update { lockInfo with txnIds := [txnId], exclusive, expirationTime }, txnDbImpl, .ok)
        else (lockMap, txnDbImpl, .timedOut .lockTimeout)
    else
      -- shared access to a shared lock is granted
      (update { lockInfo with txnIds := lockInfo.txnIds ++ [txnId],
                              expirationTime := max lockInfo.expirationTime expirationTime },
        txnDbImpl, .ok)
  | none =>
    if maxNumLocks > 0 ∧ lockMap.lockCnt ≥ maxNumLocks then (lockMap, txnDbImpl, .busy .lockLimit)
    else
      let lockMap := update ⟨exclusive, [txnId], expirationTime⟩
      (if maxNumLocks ≠ 0 then { lockMap with lockCnt := lockMap.lockCnt + 1 } else lockMap,
        txnDbImpl, .ok)

/-- `TryLock` with a lock timeout of zero: `AcquireWithTimeout` makes one
attempt, under a stripe mutex that a single thread always gets. -/
def tryLock (m : TransactionLockMgr) (now : UInt64) (txnId : TransactionID) (expirationTime : UInt64) (columnFamilyId : UInt32)
    (key : List UInt8) (exclusive : Bool) : TransactionLockMgr × Status :=
  match m.getLockMap columnFamilyId with
  | none => (m, .invalidArgument ("Column family id not found: " ++ toString columnFamilyId))
  | some lockMap =>
    let (lockMap, txnDbImpl, s) := acquireLocked m.maxNumLocks m.txnDbImpl now lockMap
      (lockMap.getStripe key) key txnId expirationTime exclusive
    ({ m with txnDbImpl, lockMaps := m.lockMaps.insert columnFamilyId lockMap }, s)

/-- The holders without `txnId`: its place takes the last holder. -/
def removeHolder (txns : List TransactionID) (txnId : TransactionID) : List TransactionID :=
  (txns.set (txns.idxOf txnId) (txns.getLastD txnId)).dropLast

/-- `UnLockKey`: remove `txnId` from the holders of `key`, and the key when it
was the only one; with a lock limit, `lock_cnt` goes down. -/
def unLockKey (maxNumLocks : Int) (txnId : TransactionID) (key : List UInt8) (lockMap : LockMap)
    (stripeNum : Nat) : LockMap :=
  let stripe := lockMap.stripe stripeNum
  match stripe.keys.lookup key with
  | some lockInfo =>
    if txnId ∈ lockInfo.txnIds then
      let keys := if lockInfo.txnIds.length = 1 then stripe.keys.erase key
        else stripe.keys.insert key { lockInfo with txnIds := removeHolder lockInfo.txnIds txnId }
      let lockMap := lockMap.setStripe stripeNum ⟨keys⟩
      if maxNumLocks > 0 then { lockMap with lockCnt := lockMap.lockCnt - 1 } else lockMap
    else lockMap
  -- the key is not locked, or locked by others: the transaction expired
  | none => lockMap

/-- `UnLock(txn, column_family_id, key, env)`. -/
def unLock (m : TransactionLockMgr) (txnId : TransactionID) (columnFamilyId : UInt32)
    (key : List UInt8) : TransactionLockMgr :=
  match m.getLockMap columnFamilyId with
  -- the column family must have been dropped
  | none => m
  | some lockMap =>
    let lockMap := unLockKey m.maxNumLocks txnId key lockMap (lockMap.getStripe key)
    { m with lockMaps := m.lockMaps.insert columnFamilyId lockMap }

end TransactionLockMgr

/-! ## The lock count -/

namespace LockMap

@[simp] theorem numStripes_setStripe (lockMap : LockMap) (stripeNum : Nat)
    (stripe : LockMapStripe) : (lockMap.setStripe stripeNum stripe).numStripes = lockMap.numStripes :=
  rfl

@[simp] theorem getStripe_setStripe (lockMap : LockMap) (stripeNum : Nat) (stripe : LockMapStripe)
    (key : List UInt8) : (lockMap.setStripe stripeNum stripe).getStripe key = lockMap.getStripe key :=
  rfl

@[simp] theorem lockCnt_setStripe (lockMap : LockMap) (stripeNum : Nat) (stripe : LockMapStripe) :
    (lockMap.setStripe stripeNum stripe).lockCnt = lockMap.lockCnt :=
  rfl

/-- A stripe that holds a key is a stripe of the map. -/
theorem lt_length_of_lookup {lockMap : LockMap} {stripeNum : Nat} {key : List UInt8}
    {lockInfo : LockInfo} (h : (lockMap.stripe stripeNum).keys.lookup key = some lockInfo) :
    stripeNum < lockMap.lockMapStripes.length := by
  by_contra hge
  rw [stripe, List.getD_eq_default _ _ (by omega)] at h
  simp at h

theorem stripe_setStripe_self {lockMap : LockMap} {stripeNum : Nat}
    (h : stripeNum < lockMap.lockMapStripes.length) (stripe : LockMapStripe) :
    (lockMap.setStripe stripeNum stripe).stripe stripeNum = stripe := by
  rw [LockMap.stripe, setStripe, List.getD_eq_getElem _ _ (by simpa using h), List.getElem_set_self]

/-- The `LockInfo` written into the stripe of a key is the one found there. -/
theorem lockInfo_setStripe_insert {lockMap : LockMap} {key : List UInt8}
    (h : lockMap.getStripe key < lockMap.lockMapStripes.length) (lockInfo : LockInfo) :
    (lockMap.setStripe (lockMap.getStripe key)
      ⟨(lockMap.stripe (lockMap.getStripe key)).keys.insert key lockInfo⟩).lockInfo key =
        some lockInfo := by
  rw [LockMap.lockInfo, getStripe_setStripe, stripe_setStripe_self h, AList.lookup_insert]

/-- Replacing a stripe by one with as many keys keeps the number of locked
keys. -/
theorem numLockedKeys_setStripe {lockMap : LockMap} {stripeNum : Nat}
    (h : stripeNum < lockMap.lockMapStripes.length) {stripe : LockMapStripe}
    (hlen : stripe.keys.keys.length = (lockMap.stripe stripeNum).keys.keys.length) :
    (lockMap.setStripe stripeNum stripe).numLockedKeys = lockMap.numLockedKeys := by
  have hold : (lockMap.stripe stripeNum) = lockMap.lockMapStripes[stripeNum] :=
    List.getD_eq_getElem _ _ h
  unfold numLockedKeys setStripe
  congr 1
  apply List.ext_getElem (by simp)
  intro n h₁ h₂
  simp only [List.getElem_map, List.getElem_set]
  split_ifs with hn
  · subst hn
    rw [hlen, hold]
  · rfl

end LockMap

namespace TransactionLockMgr

/-- One of two holders unlocking a key leaves it locked in place, with one
holder fewer and `lock_cnt` one lower. -/
theorem unLock_of_shared (m : TransactionLockMgr) (columnFamilyId : UInt32)
    (lockMap : LockMap) (hmap : m.getLockMap columnFamilyId = some lockMap) (key : List UInt8)
    (lockInfo : LockInfo) (hlock : lockMap.lockInfo key = some lockInfo)
    (txnId other : TransactionID) (htxn : txnId ∈ lockInfo.txnIds)
    (hother : other ∈ lockInfo.txnIds) (hne : other ≠ txnId) (hmax : 0 < m.maxNumLocks) :
    ∃ lockMap', (m.unLock txnId columnFamilyId key).getLockMap columnFamilyId = some lockMap' ∧
      lockMap'.lockCnt = lockMap.lockCnt - 1 ∧ lockMap'.numLockedKeys = lockMap.numLockedKeys ∧
      lockMap'.lockInfo key = some { lockInfo with txnIds := removeHolder lockInfo.txnIds txnId } := by
  have hlen : lockInfo.txnIds.length ≠ 1 := by
    intro h1
    obtain ⟨x, hx⟩ := List.length_eq_one_iff.mp h1
    rw [hx, List.mem_singleton] at htxn hother
    exact hne (hother.trans htxn.symm)
  have hlookup : (lockMap.stripe (lockMap.getStripe key)).keys.lookup key = some lockInfo := hlock
  have hlt := LockMap.lt_length_of_lookup hlookup
  -- the holder goes, the key stays with the other holders, and the count goes down
  have hunlock : unLockKey m.maxNumLocks txnId key lockMap (lockMap.getStripe key) =
      { lockMap.setStripe (lockMap.getStripe key)
          ⟨(lockMap.stripe (lockMap.getStripe key)).keys.insert key
            { lockInfo with txnIds := removeHolder lockInfo.txnIds txnId }⟩ with
        lockCnt := lockMap.lockCnt - 1 } := by
    simp only [unLockKey, hlookup, if_pos htxn, if_neg hlen, if_pos hmax, LockMap.lockCnt_setStripe]
  have hmem : key ∈ (lockMap.stripe (lockMap.getStripe key)).keys.keys :=
    AList.mem_keys.mp (AList.lookup_isSome.mp (by simp [hlookup]))
  refine ⟨unLockKey m.maxNumLocks txnId key lockMap (lockMap.getStripe key), ?_, ?_, ?_, ?_⟩
  · simp only [unLock, hmap]
    exact AList.lookup_insert _
  · rw [hunlock]
  · rw [hunlock]
    refine LockMap.numLockedKeys_setStripe hlt ?_
    have := List.length_pos_of_mem hmem
    simp only [AList.keys_insert, List.length_cons, List.length_erase, if_pos hmem]
    omega
  · rw [hunlock]
    exact LockMap.lockInfo_setStripe_insert hlt _

/-- A key with two holders stays locked when one of them unlocks it, and yet
`lock_cnt` goes down by one: the count falls below the number of locked keys. -/
theorem unLock_shared_decrements_lockCnt (m : TransactionLockMgr) (columnFamilyId : UInt32)
    (key : List UInt8) (lockInfo : LockInfo)
    (hlock : m.lockInfo columnFamilyId key = some lockInfo) (txnId other : TransactionID)
    (htxn : txnId ∈ lockInfo.txnIds) (hother : other ∈ lockInfo.txnIds) (hne : other ≠ txnId)
    (hmax : 0 < m.maxNumLocks) :
    (m.unLock txnId columnFamilyId key).lockCnt columnFamilyId =
        (m.lockCnt columnFamilyId).map (· - 1) ∧
      (m.unLock txnId columnFamilyId key).numLockedKeys columnFamilyId =
        m.numLockedKeys columnFamilyId ∧
      ((m.unLock txnId columnFamilyId key).lockInfo columnFamilyId key).isSome := by
  obtain ⟨lockMap, hmap, hlock'⟩ := Option.bind_eq_some_iff.mp hlock
  obtain ⟨lockMap', hmap', hcnt, hkeys, hinfo⟩ :=
    unLock_of_shared m columnFamilyId lockMap hmap key lockInfo hlock' txnId other htxn hother hne hmax
  refine ⟨by simp [lockCnt, hmap', hmap, hcnt], by simp [numLockedKeys, hmap', hmap, hkeys], ?_⟩
  simp [TransactionLockMgr.lockInfo, hmap', hinfo]

/-- One stripe and a limit of one lock; the transactions have no expiration,
so none is registered as expirable. Transactions `1` and `2` lock the key `[0]`
shared. -/
def sharedByTwo : TransactionLockMgr :=
  let m := (create ⟨∅⟩ 1 1).addColumnFamily 0
  let m := (m.tryLock 0 1 0 0 [0] false).1
  (m.tryLock 0 2 0 0 [0] false).1

/-- Transaction `1` unlocks `[0]`, which `2` still holds, and `lock_cnt` drops
to zero; transaction `3` then locks `[1]`: two keys are locked under a limit of
one. -/
theorem tryLock_exceeds_max_num_locks :
    sharedByTwo.lockInfo 0 [0] = some ⟨false, [1, 2], 0⟩ ∧ (1 : TransactionID) ∈ [1, 2] ∧
      (2 : TransactionID) ∈ [1, 2] ∧ (2 : TransactionID) ≠ 1 ∧ 0 < sharedByTwo.maxNumLocks ∧
      ((sharedByTwo.unLock 1 0 [0]).lockCnt 0 = (sharedByTwo.lockCnt 0).map (· - 1) ∧
        (sharedByTwo.unLock 1 0 [0]).numLockedKeys 0 = sharedByTwo.numLockedKeys 0 ∧
        ((sharedByTwo.unLock 1 0 [0]).lockInfo 0 [0]).isSome) ∧
      ((sharedByTwo.unLock 1 0 [0]).tryLock 0 3 0 0 [1] true).2 = .ok ∧
      ((sharedByTwo.unLock 1 0 [0]).tryLock 0 3 0 0 [1] true).1.numLockedKeys 0 =
        some 2 ∧ sharedByTwo.maxNumLocks = 1 :=
  ⟨by decide, by decide, by decide, by decide, by decide,
    unLock_shared_decrements_lockCnt sharedByTwo 0 [0] ⟨false, [1, 2], 0⟩ (by decide) 1 2
      (by decide) (by decide) (by decide) (by decide),
    by decide, by decide, by decide⟩

end TransactionLockMgr

/-! ## Stealing expired locks -/

namespace PessimisticTransactionDB

/-- A holder that the database lets lose its locks: it is not registered as
expirable, or it is and is still `STARTED`. -/
def Stealable (db : PessimisticTransactionDB) (txId : TransactionID) : Prop :=
  db.expirableTransactionsMap.lookup txId = none ∨
    db.expirableTransactionsMap.lookup txId = some .started

/-- What is left of a holder that lost its locks: it is not registered as
expirable, or its state is `LOCKS_STOLEN`. -/
def StolenFrom (db : PessimisticTransactionDB) (txId : TransactionID) : Prop :=
  db.expirableTransactionsMap.lookup txId = none ∨
    db.expirableTransactionsMap.lookup txId = some .locksStolen

variable {db : PessimisticTransactionDB} {txId id : TransactionID}

/-- `TryStealingExpiredTransactionLocks` only writes the state of `txId`. -/
theorem lookup_tryStealingExpiredTransactionLocks_of_ne (h : txId ≠ id) :
    (db.tryStealingExpiredTransactionLocks txId).2.expirableTransactionsMap.lookup id =
      db.expirableTransactionsMap.lookup id := by
  unfold tryStealingExpiredTransactionLocks
  split
  · rfl
  · exact AList.lookup_insert_ne (Ne.symm h)

/-- `TryStealingExpiredTransactionLocks` succeeds exactly on a stealable
transaction. -/
theorem tryStealingExpiredTransactionLocks_fst :
    (db.tryStealingExpiredTransactionLocks txId).1 = true ↔ db.Stealable txId := by
  unfold tryStealingExpiredTransactionLocks Stealable
  split <;> rename_i hlookup
  · simp [hlookup]
  · simp only [hlookup, tryStealingLocks, reduceCtorEq, false_or, Option.some.injEq]
    split_ifs <;> simpa

/-- A transaction whose locks `TryStealingExpiredTransactionLocks` takes is
stolen from. -/
theorem stolenFrom_tryStealingExpiredTransactionLocks
    (h : (db.tryStealingExpiredTransactionLocks txId).1 = true) :
    (db.tryStealingExpiredTransactionLocks txId).2.StolenFrom txId := by
  rcases tryStealingExpiredTransactionLocks_fst.mp h with hlookup | hlookup
  · simp [tryStealingExpiredTransactionLocks, StolenFrom, hlookup]
  · simp [tryStealingExpiredTransactionLocks, StolenFrom, hlookup, tryStealingLocks]

/-- A transaction stolen from stays so. -/
theorem StolenFrom.tryStealingExpiredTransactionLocks (h : db.StolenFrom id) (txId : TransactionID) :
    (db.tryStealingExpiredTransactionLocks txId).2.StolenFrom id := by
  by_cases hid : txId = id
  · subst hid
    unfold PessimisticTransactionDB.tryStealingExpiredTransactionLocks StolenFrom at *
    -- a stolen-from transaction is absent, or `LOCKS_STOLEN` and the swap fails
    rcases h with h | h <;> simp [h, tryStealingLocks, AList.lookup_insert]
  · unfold StolenFrom at *
    rwa [lookup_tryStealingExpiredTransactionLocks_of_ne hid]

/-- Another transaction stays stealable. -/
theorem Stealable.tryStealingExpiredTransactionLocks_of_ne (h : db.Stealable id) (hid : txId ≠ id) :
    (db.tryStealingExpiredTransactionLocks txId).2.Stealable id := by
  unfold Stealable at *
  rwa [lookup_tryStealingExpiredTransactionLocks_of_ne hid]

end PessimisticTransactionDB

namespace TransactionLockMgr

open PessimisticTransactionDB

variable {db : PessimisticTransactionDB} {txnId id : TransactionID}

/-- One turn of the loop over the holders: skip `txnId`, and stop at a holder
whose locks the database keeps. -/
theorem tryStealingHolders_cons (id : TransactionID) (ids : List TransactionID) :
    tryStealingHolders txnId db (id :: ids) =
      if txnId = id then tryStealingHolders txnId db ids
      else if (db.tryStealingExpiredTransactionLocks id).1 then
        tryStealingHolders txnId (db.tryStealingExpiredTransactionLocks id).2 ids
      else (false, (db.tryStealingExpiredTransactionLocks id).2) :=
  rfl

/-- The loop over the holders keeps a holder stolen from. -/
theorem stolenFrom_tryStealingHolders_of_stolenFrom (h : db.StolenFrom id) (ids : List TransactionID) :
    (tryStealingHolders txnId db ids).2.StolenFrom id := by
  induction ids generalizing db with
  | nil => exact h
  | cons id' ids ih =>
    rw [tryStealingHolders_cons]
    split_ifs with hself hsuccess
    · exact ih h
    · exact ih (h.tryStealingExpiredTransactionLocks id')
    · exact h.tryStealingExpiredTransactionLocks id'

/-- When the loop over the holders succeeds, every holder other than `txnId`
is stolen from. -/
theorem stolenFrom_tryStealingHolders {ids : List TransactionID}
    (h : (tryStealingHolders txnId db ids).1 = true) :
    ∀ id ∈ ids, id ≠ txnId → (tryStealingHolders txnId db ids).2.StolenFrom id := by
  induction ids generalizing db with
  | nil => simp
  | cons id' ids ih =>
    intro id hmem hne
    rw [tryStealingHolders_cons] at *
    split_ifs at * with hself hsuccess
    · have hid : id ∈ ids := by
        rcases List.mem_cons.mp hmem with rfl | hid
        · exact absurd hself.symm hne
        · exact hid
      exact ih h id hid hne
    · rcases List.mem_cons.mp hmem with rfl | hid
      · -- the head was stolen from here, and the rest of the loop keeps it so
        exact stolenFrom_tryStealingHolders_of_stolenFrom
          (stolenFrom_tryStealingExpiredTransactionLocks hsuccess) ids
      · exact ih h id hid hne

/-- The loop over the holders succeeds when every holder other than `txnId`
is stealable and listed once. -/
theorem tryStealingHolders_fst_of_stealable {ids : List TransactionID}
    (hnodup : (ids.filter (· ≠ txnId)).Nodup) (h : ∀ id ∈ ids, id ≠ txnId → db.Stealable id) :
    (tryStealingHolders txnId db ids).1 = true := by
  induction ids generalizing db with
  | nil => rfl
  | cons id' ids ih =>
    rw [tryStealingHolders_cons]
    split_ifs with hself hsuccess
    · subst hself
      exact ih (by simpa using hnodup) fun id hid hne => h id (List.mem_cons_of_mem _ hid) hne
    · have hnodup' : (ids.filter (· ≠ txnId)).Nodup ∧ id' ∉ ids.filter (· ≠ txnId) := by
        simpa [List.filter_cons, Ne.symm hself, and_comm] using hnodup
      refine ih hnodup'.1 fun id hid hne => ?_
      -- the holders after `id'` are other transactions, whose state it did not touch
      have hne' : id' ≠ id := fun heq =>
        hnodup'.2 (List.mem_filter.mpr ⟨heq ▸ hid, by simpa using Ne.symm hself⟩)
      exact (h id (List.mem_cons_of_mem _ hid) hne).tryStealingExpiredTransactionLocks_of_ne hne'
    · exact absurd (tryStealingExpiredTransactionLocks_fst.mpr
        (h id' List.mem_cons_self (Ne.symm hself))) hsuccess

/-- `IsLockExpired` finds a lock expired exactly when its expiration time has
passed and the loop over the other holders succeeds, the database being left as
that loop leaves it. -/
theorem isLockExpired_of_fst {now : UInt64} {lockInfo : LockInfo}
    (h : (isLockExpired db now txnId lockInfo).1 = true) :
    (0 < lockInfo.expirationTime ∧ lockInfo.expirationTime ≤ now) ∧
      (tryStealingHolders txnId db lockInfo.txnIds).1 = true ∧
      (isLockExpired db now txnId lockInfo).2 = (tryStealingHolders txnId db lockInfo.txnIds).2 := by
  rcases hloop : tryStealingHolders txnId db lockInfo.txnIds with ⟨success, db'⟩
  simp only [isLockExpired, hloop] at h ⊢
  split_ifs at h with hlive
  · -- a lock that has not expired yet answers `false`
    simp only [Bool.not_eq_true'] at hlive
    simp [hlive.1] at h
  · -- the loop over the holders ran and succeeded
    rename_i hsuccess
    refine ⟨of_decide_eq_true h, hsuccess, ?_⟩
    rw [if_neg hlive]

theorem isLockExpired_fst_of_tryStealingHolders {now : UInt64} {lockInfo : LockInfo}
    (hexp : 0 < lockInfo.expirationTime ∧ lockInfo.expirationTime ≤ now)
    (h : (tryStealingHolders txnId db lockInfo.txnIds).1 = true) :
    (isLockExpired db now txnId lockInfo).1 = true := by
  rcases hloop : tryStealingHolders txnId db lockInfo.txnIds with ⟨success, db'⟩
  have hsuccess : success = true := by simpa [hloop] using h
  simp [isLockExpired, hloop, hexp, hsuccess]

/-- `AcquireLocked` on a key that others hold in a mode that conflicts with
the request takes the lock exactly when `IsLockExpired` says so. -/
theorem acquireLocked_of_conflict {maxNumLocks : Int} {now : UInt64} {lockMap : LockMap}
    {stripeNum : Nat} {key : List UInt8} {lockInfo : LockInfo} {expirationTime : UInt64}
    {exclusive : Bool} (hlock : (lockMap.stripe stripeNum).keys.lookup key = some lockInfo)
    (hconflict : lockInfo.exclusive ∨ exclusive)
    (hheld : ¬(lockInfo.txnIds.length = 1 ∧ lockInfo.txnIds.head? = some txnId)) :
    acquireLocked maxNumLocks db now lockMap stripeNum key txnId expirationTime exclusive =
      if (isLockExpired db now txnId lockInfo).1 then
        (lockMap.setStripe stripeNum
          ⟨(lockMap.stripe stripeNum).keys.insert key ⟨exclusive, [txnId], expirationTime⟩⟩,
          (isLockExpired db now txnId lockInfo).2, .ok)
      else (lockMap, (isLockExpired db now txnId lockInfo).2, .timedOut .lockTimeout) := by
  rcases hexp : isLockExpired db now txnId lockInfo with ⟨expired, db'⟩
  simp [acquireLocked, hlock, hconflict, hheld, hexp]

/-- `TryLock` on a column family that has a lock map is `AcquireLocked` on the
stripe of the key. -/
theorem tryLock_of_getLockMap {m : TransactionLockMgr} {columnFamilyId : UInt32}
    {lockMap : LockMap} (hmap : m.getLockMap columnFamilyId = some lockMap) (now : UInt64)
    (key : List UInt8) (expirationTime : UInt64) (exclusive : Bool) :
    m.tryLock now txnId expirationTime columnFamilyId key exclusive =
      let r := acquireLocked m.maxNumLocks m.txnDbImpl now lockMap (lockMap.getStripe key) key
        txnId expirationTime exclusive
      ({ m with txnDbImpl := r.2.1, lockMaps := m.lockMaps.insert columnFamilyId r.1 }, r.2.2) := by
  simp [tryLock, hmap]

/-- `TryLock` with a lock timeout of zero, on a key that other transactions
hold in a mode that conflicts with the request, answers `OK` only when the lock
expired: the caller is then its only holder and every other former holder is
stolen from. It does steal an expired lock whose other holders, each listed
once, are stealable. -/
theorem tryLock_steals_expired_lock (m : TransactionLockMgr) {columnFamilyId : UInt32}
    {key : List UInt8} {lockInfo : LockInfo}
    (hlock : m.lockInfo columnFamilyId key = some lockInfo) (txnId : TransactionID)
    (exclusive : Bool) (hconflict : lockInfo.exclusive ∨ exclusive)
    (hheld : ¬(lockInfo.txnIds.length = 1 ∧ lockInfo.txnIds.head? = some txnId))
    (now expirationTime : UInt64) :
    ((m.tryLock now txnId expirationTime columnFamilyId key exclusive).2 = .ok →
      (0 < lockInfo.expirationTime ∧ lockInfo.expirationTime ≤ now) ∧
        (m.tryLock now txnId expirationTime columnFamilyId key exclusive).1.lockInfo
          columnFamilyId key = some ⟨exclusive, [txnId], expirationTime⟩ ∧
        ∀ id ∈ lockInfo.txnIds, id ≠ txnId →
          (m.tryLock now txnId expirationTime columnFamilyId key exclusive).1.txnDbImpl.StolenFrom
            id) ∧
    ((0 < lockInfo.expirationTime ∧ lockInfo.expirationTime ≤ now) →
      (lockInfo.txnIds.filter (· ≠ txnId)).Nodup →
      (∀ id ∈ lockInfo.txnIds, id ≠ txnId → m.txnDbImpl.Stealable id) →
      (m.tryLock now txnId expirationTime columnFamilyId key exclusive).2 = .ok) := by
  obtain ⟨lockMap, hmap, hlock'⟩ := Option.bind_eq_some_iff.mp hlock
  have hlt := LockMap.lt_length_of_lookup hlock'
  rw [tryLock_of_getLockMap hmap, acquireLocked_of_conflict hlock' hconflict hheld]
  constructor
  · intro hok
    -- only the branch that steals the lock answers `OK`
    by_cases hexp : (isLockExpired m.txnDbImpl now txnId lockInfo).1 = true
    · obtain ⟨hexpired, hloop, hdb⟩ := isLockExpired_of_fst hexp
      refine ⟨hexpired, ?_, ?_⟩
      · simp [hexp, TransactionLockMgr.lockInfo, getLockMap, LockMap.lockInfo_setStripe_insert hlt]
      · simp only [hexp, if_true, hdb]
        exact stolenFrom_tryStealingHolders hloop
    · simp [hexp] at hok
  · intro hexpired hnodup hstealable
    have hexp := isLockExpired_fst_of_tryStealingHolders hexpired
      (tryStealingHolders_fst_of_stealable hnodup hstealable)
    simp [hexp]

/-- One stripe and no lock limit. Transaction `1`, registered as expirable and
`STARTED`, locks `[0]` shared until time `5`; transaction `2`, which has no
expiration, shares the lock. -/
def expiringShared : TransactionLockMgr :=
  let m := (create ⟨(∅ : AList _).insert 1 .started⟩ 1 0).addColumnFamily 0
  let m := (m.tryLock 0 1 5 0 [0] false).1
  (m.tryLock 0 2 0 0 [0] false).1

/-- At time `10` transaction `3` takes `[0]` exclusively from both holders:
`1` moves to `LOCKS_STOLEN`, and `2`, which never expires, loses its shared
lock. -/
theorem tryLock_steals_from_unexpirable_holder :
    expiringShared.lockInfo 0 [0] = some ⟨false, [1, 2], 5⟩ ∧
      ((⟨false, [1, 2], 5⟩ : LockInfo).exclusive ∨ true) ∧
      ¬((⟨false, [1, 2], 5⟩ : LockInfo).txnIds.length = 1 ∧
        (⟨false, [1, 2], 5⟩ : LockInfo).txnIds.head? = some 3) ∧
      (((expiringShared.tryLock 10 3 0 0 [0] true).2 = .ok →
        (0 < (5 : UInt64) ∧ (5 : UInt64) ≤ 10) ∧
          (expiringShared.tryLock 10 3 0 0 [0] true).1.lockInfo 0 [0] = some ⟨true, [3], 0⟩ ∧
          ∀ id ∈ [1, 2], id ≠ 3 → (expiringShared.tryLock 10 3 0 0 [0] true).1.txnDbImpl.StolenFrom id) ∧
        ((0 < (5 : UInt64) ∧ (5 : UInt64) ≤ 10) →
          (([1, 2] : List TransactionID).filter (· ≠ 3)).Nodup →
          (∀ id ∈ [1, 2], id ≠ 3 → expiringShared.txnDbImpl.Stealable id) →
          (expiringShared.tryLock 10 3 0 0 [0] true).2 = .ok)) ∧
      (expiringShared.tryLock 10 3 0 0 [0] true).2 = .ok ∧
      (expiringShared.tryLock 10 3 0 0 [0] true).1.txnDbImpl.expirableTransactionsMap.lookup 1 =
        some .locksStolen ∧
      (expiringShared.tryLock 10 3 0 0 [0] true).1.txnDbImpl.expirableTransactionsMap.lookup 2 =
        none :=
  ⟨by decide, by decide, by decide,
    @tryLock_steals_expired_lock expiringShared 0 [0] ⟨false, [1, 2], 5⟩ (by decide) 3 true
      (by decide) (by decide) 10 0,
    by decide, by decide, by decide⟩

end TransactionLockMgr

end RocksDB
