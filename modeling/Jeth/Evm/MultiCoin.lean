import Jeth.Evm.RevertToSnapshot

/-!
# Multicoin balances in the state database

An account's multicoin balances live in its storage (`state_object.go`): the balance of coin
`c` is the slot `NormalizeCoinID c`, whose first byte has its lowest bit set, and `StateDB`
normalizes every key of the EVM's own storage with `NormalizeStateKey`, which clears that bit.
The two kinds of slots never meet: a storage write leaves every multicoin balance as it reads,
a multicoin write leaves every storage slot, and keys that differ in that one bit read the same
slot (`SetState_GetBalanceMultiCoin` and the rest).

Both reads go through one slot read, `StateDB.storageAt`, and both writes are
`withStateObject` with a method that writes one slot (`WritesOnly`). A method that writes one
slot leaves every other slot of every account as it reads (`storageAt_withStateObject`),
including when the account had no object yet: the fresh object then reads the database, which
holds no storage for an account it does not hold (`Database.StorageOfAccounts`).

`CreateAccount` replaces an existing account by a fresh object and carries over only its
native balance. The old account is marked destructed, so its committed storage no longer
shows, and with it every multicoin balance reads zero (`CreateAccount_balances`).
-/

namespace Jeth.State

variable {Address : Type} [DecidableEq Address] (db : Database Address)

open StateDB stateObject

/-! ## The two halves of the storage -/

/-- No coin's slot is a normalized storage key: the lowest bit of the first byte tells them
apart. -/
theorem NormalizeCoinID_ne_NormalizeStateKey {coinID key : Hash} (hkey : key ≠ []) :
    NormalizeCoinID coinID ≠ NormalizeStateKey key := by
  obtain ⟨b, rest, rfl⟩ := List.exists_cons_of_ne_nil hkey
  cases coinID with
  | nil => simp [NormalizeCoinID, NormalizeStateKey]
  | cons c cs =>
    simp only [NormalizeCoinID, NormalizeStateKey, ne_eq, List.cons.injEq, not_and]
    intro h
    have hbit := congrArg (fun x : UInt8 => x.toNat.testBit 0) h
    simp [UInt8.toNat_or, UInt8.toNat_and] at hbit

/-- Keys that differ in the lowest bit of their first byte normalize to the same key. -/
theorem NormalizeStateKey_xor_one (b : UInt8) (rest : Hash) :
    NormalizeStateKey ((b ^^^ 0x01) :: rest) = NormalizeStateKey (b :: rest) := by
  simp only [NormalizeStateKey, List.cons.injEq, and_true]
  apply UInt8.toNat_inj.mp
  simp only [UInt8.toNat_and, UInt8.toNat_xor]
  apply Nat.eq_of_testBit_eq
  intro i
  simp only [Nat.testBit_and, Nat.testBit_xor]
  rcases i with _ | i
  · simp
  · simp [Nat.testBit_succ]

/-- The zero hash reads as the number zero. -/
@[simp] theorem Big_zeroHash : Hash.Big zeroHash = 0 := by decide

/-- The storage the database holds belongs to accounts it holds: a fresh object for an address
without an account has an empty storage root, and the snapshot no storage for it. -/
def Database.StorageOfAccounts : Prop :=
  ∀ addr key, db.Account addr = none → db.Storage addr key = zeroHash

/-! ## Reading one slot -/

omit [DecidableEq Address] in
/-- An object reads the destructed flag of its own address only. -/
theorem stateObject.GetState_congr_destructs {destructs destructs' : Address → Bool}
    (o : stateObject Address) (hd : destructs' o.address = destructs o.address) (key : Hash) :
    o.GetState db destructs' key = o.GetState db destructs key := by
  simp only [stateObject.GetState, GetCommittedState, hd]

namespace StateDB

/-- The slot `key` of the account at `addr`, as `GetState` and `GetBalanceMultiCoin` read it;
zero for an account without an object. -/
def storageAt (s : StateDB Address) (addr : Address) (key : Hash) : Hash :=
  match s.getStateObject db addr with
  | some o => o.GetState db s.stateObjectsDestruct key
  | none => zeroHash

omit [DecidableEq Address] in
theorem GetState_eq_storageAt (s : StateDB Address) (addr : Address) (key : Hash) :
    s.GetState db addr key = s.storageAt db addr (NormalizeStateKey key) := by
  cases h : s.getStateObject db addr <;> simp [GetState, storageAt, h]

omit [DecidableEq Address] in
theorem GetBalanceMultiCoin_eq_storageAt (s : StateDB Address) (addr : Address) (coinID : Hash) :
    s.GetBalanceMultiCoin db addr coinID =
      Hash.Big (s.storageAt db addr (NormalizeCoinID coinID)) := by
  cases h : s.getStateObject db addr <;>
    simp [GetBalanceMultiCoin, storageAt, h, stateObject.BalanceMultiCoin]

/-- A method of `stateObject` that reads back every slot but `key` as before, and keeps the
object's address and deletion flag. -/
def WritesOnly
    (method : (Address → Bool) → stateObject Address →
      List (journalEntry Address) × stateObject Address) (key : Hash) : Prop :=
  ∀ destructs o, (method destructs o).2.address = o.address ∧
    (method destructs o).2.deleted = o.deleted ∧
    ∀ k, k ≠ key → (method destructs o).2.GetState db destructs k = o.GetState db destructs k

omit [DecidableEq Address] in
/-- A fresh object reads the database, or nothing for an account destructed in this block. -/
theorem GetState_newObject (destructs : Address → Bool) (addr : Address)
    (acct : Option StateAccount) (key : Hash) :
    ({ newObject addr acct with created := true } : stateObject Address).GetState db destructs key =
      if destructs addr then zeroHash else db.Storage addr key := rfl

omit [DecidableEq Address] in
/-- Slots are read from the objects and the destructed flags only. -/
theorem getStateObject_congr {s t : StateDB Address} {addr : Address}
    (h : s.stateObjects addr = t.stateObjects addr) :
    s.getStateObject db addr = t.getStateObject db addr := by
  simp only [getStateObject, getDeletedStateObject, h]

/-- A written-back object is what its address reads, unless it is deleted; every other address
reads as before. -/
theorem storageAt_setStateObject (t : StateDB Address) (x : stateObject Address)
    (addr : Address) (key : Hash) :
    (t.setStateObject x).storageAt db addr key =
      if addr = x.address then
        (if x.deleted then zeroHash else x.GetState db t.stateObjectsDestruct key)
      else t.storageAt db addr key := by
  by_cases ha : addr = x.address
  · subst ha
    cases hx : x.deleted <;> simp [storageAt, getStateObject, hx]
  · simp [storageAt, getStateObject, ha]

theorem storageAt_applyObjectChange (t : StateDB Address)
    (change : List (journalEntry Address) × stateObject Address) (addr : Address) (key : Hash) :
    (t.applyObjectChange change).storageAt db addr key =
      (t.setStateObject change.2).storageAt db addr key := rfl

/-! ## Creating an object -/

theorem createObject_newobj (t : StateDB Address) (addr : Address) :
    (t.createObject db addr).2.1 = { newObject addr none with created := true } := by
  unfold createObject
  split <;> rfl

theorem createObject_stateObjects (t : StateDB Address) (addr : Address) :
    (t.createObject db addr).1.stateObjects =
      Function.update t.stateObjects addr (some { newObject addr none with created := true }) := by
  unfold createObject
  split
  · rfl
  · dsimp only
    split_ifs <;> rfl

/-- A replaced account is marked destructed. -/
theorem createObject_destructs_of_some {t : StateDB Address} {addr : Address}
    {prev : stateObject Address} (hprev : t.getDeletedStateObject db addr = some prev) :
    (t.createObject db addr).1.stateObjectsDestruct addr = true := by
  have hpa : prev.address = addr := getDeletedStateObject_address db hprev
  subst hpa
  simp only [createObject, hprev]
  cases hpd : t.stateObjectsDestruct prev.address <;> simp [hpd]

theorem createObject_destructs_of_none {t : StateDB Address} {addr : Address}
    (hnone : t.getDeletedStateObject db addr = none) :
    (t.createObject db addr).1.stateObjectsDestruct = t.stateObjectsDestruct := by
  simp [createObject, hnone]

/-- The destructed flags change at the created address only. -/
theorem createObject_destructs_of_ne (t : StateDB Address) {addr addr' : Address}
    (ha : addr' ≠ addr) :
    (t.createObject db addr).1.stateObjectsDestruct addr' = t.stateObjectsDestruct addr' := by
  cases hprev : t.getDeletedStateObject db addr with
  | none => rw [createObject_destructs_of_none db hprev]
  | some prev =>
    have hpa : prev.address = addr := getDeletedStateObject_address db hprev
    simp only [createObject, hprev]
    split_ifs <;> simp [hpa, ha]

/-- Creating an object at `addr` leaves every other address reading as before. -/
theorem storageAt_createObject_of_ne (t : StateDB Address) {addr addr' : Address}
    (ha : addr' ≠ addr) (key : Hash) :
    (t.createObject db addr).1.storageAt db addr' key = t.storageAt db addr' key := by
  have hget : (t.createObject db addr).1.getStateObject db addr' = t.getStateObject db addr' :=
    getStateObject_congr db (by simp [createObject_stateObjects, ha])
  simp only [storageAt, hget]
  cases h : t.getStateObject db addr' with
  | none => rfl
  | some o =>
    -- the object of `addr'` reads the destructed flag of `addr'` alone
    have hoa : o.address = addr' :=
      getDeletedStateObject_address db ((getStateObject_eq_some db).mp h).1
    exact o.GetState_congr_destructs db (by rw [hoa, createObject_destructs_of_ne db t ha]) key

/-- A new account has no storage in the database, and a replaced one is destructed: either way
the fresh object reads every slot as zero. -/
theorem createObject_GetState (hdb : db.StorageOfAccounts) (t : StateDB Address)
    (addr : Address) (key : Hash) :
    (t.createObject db addr).2.1.GetState db (t.createObject db addr).1.stateObjectsDestruct key =
      zeroHash := by
  rw [createObject_newobj, GetState_newObject]
  cases hprev : t.getDeletedStateObject db addr with
  | none =>
    have hacct : db.Account addr = none := by
      unfold getDeletedStateObject at hprev
      split at hprev
      · cases hprev
      · simpa using hprev
    simp [hdb addr key hacct]
  | some prev => simp [createObject_destructs_of_some db hprev]

/-! ## Writing one slot -/

/-- What `GetOrNewStateObject` hands a setter, as far as slots go: an object of the address that
is not deleted and reads as the address read, in a state where every other address reads as
before. -/
structure GotObject (s : StateDB Address) (addr : Address)
    (got : StateDB Address × stateObject Address) : Prop where
  address : got.2.address = addr
  deleted : got.2.deleted = false
  state : ∀ key, got.2.GetState db got.1.stateObjectsDestruct key = s.storageAt db addr key
  frame : ∀ addr' key, addr' ≠ addr → got.1.storageAt db addr' key = s.storageAt db addr' key

theorem GetOrNewStateObject_got (hdb : db.StorageOfAccounts) (s : StateDB Address)
    (addr : Address) : GotObject db s addr (s.GetOrNewStateObject db addr) := by
  unfold GetOrNewStateObject
  split
  · -- the live object, in the state as it is
    rename_i o ho
    obtain ⟨hod, hdel⟩ := (getStateObject_eq_some db).mp ho
    refine ⟨getDeletedStateObject_address db hod, hdel, fun key => ?_, fun _ _ _ => rfl⟩
    simp [storageAt, ho]
  · -- a fresh object, where the address read nothing
    rename_i hnone
    refine ⟨by simp [createObject_newobj], by simp [createObject_newobj], fun key => ?_,
      fun addr' key ha => storageAt_createObject_of_ne db s ha key⟩
    simp [createObject_GetState db hdb, storageAt, hnone]

/-- A method that writes one slot of the object of `addr` leaves every other slot of every
account as it reads. -/
theorem storageAt_withStateObject (hdb : db.StorageOfAccounts) (s : StateDB Address)
    (addr : Address)
    {method : (Address → Bool) → stateObject Address →
      List (journalEntry Address) × stateObject Address}
    {key : Hash} (hm : WritesOnly db method key) (addr' : Address) {k : Hash} (hk : k ≠ key) :
    (s.withStateObject db addr method).storageAt db addr' k = s.storageAt db addr' k := by
  obtain ⟨haddr, hdel, hstate, hframe⟩ := GetOrNewStateObject_got db hdb s addr
  obtain ⟨hma, hmd, hmk⟩ := hm (s.GetOrNewStateObject db addr).1.stateObjectsDestruct
    (s.GetOrNewStateObject db addr).2
  rw [withStateObject, storageAt_applyObjectChange, storageAt_setStateObject, hma, haddr, hmd,
    hdel]
  by_cases ha : addr' = addr
  · subst ha
    simp [hmk k hk, hstate]
  · simp [ha, hframe addr' k ha]

end StateDB

/-! ## The methods that write one slot -/

namespace stateObject

variable (destructs : Address → Bool) (o : stateObject Address)

omit [DecidableEq Address] in
@[simp] theorem EnableMultiCoin_address : o.EnableMultiCoin.2.address = o.address := by
  unfold EnableMultiCoin
  split <;> rfl

omit [DecidableEq Address] in
@[simp] theorem EnableMultiCoin_deleted : o.EnableMultiCoin.2.deleted = o.deleted := by
  unfold EnableMultiCoin
  split <;> rfl

omit [DecidableEq Address] in
/-- The multicoin flag is account data: no slot reads it. -/
@[simp] theorem EnableMultiCoin_GetState (key : Hash) :
    o.EnableMultiCoin.2.GetState db destructs key = o.GetState db destructs key := by
  unfold EnableMultiCoin
  split <;> rfl

end stateObject

namespace StateDB

omit [DecidableEq Address] in
theorem WritesOnly_SetState (key value : Hash) :
    WritesOnly db (fun destructs o => o.SetState db destructs key value) key := by
  intro destructs o
  unfold stateObject.SetState
  dsimp only
  split_ifs
  · exact ⟨rfl, rfl, fun _ _ => rfl⟩
  · exact ⟨rfl, rfl, fun k hk => by rw [GetState_setState, if_neg hk]⟩

omit [DecidableEq Address] in
theorem WritesOnly_SetBalanceMultiCoin (coinID : Hash) (amount : ℤ) :
    WritesOnly db (fun destructs o => o.SetBalanceMultiCoin db destructs coinID amount)
      (NormalizeCoinID coinID) := by
  intro destructs o
  -- the flag is turned on first, then the coin's slot is written
  obtain ⟨ha, hd, hk⟩ := WritesOnly_SetState db (NormalizeCoinID coinID) (BigToHash amount)
    destructs o.EnableMultiCoin.2
  exact ⟨ha.trans (o.EnableMultiCoin_address), hd.trans (o.EnableMultiCoin_deleted),
    fun k hne => (hk k hne).trans (o.EnableMultiCoin_GetState db destructs k)⟩

omit [DecidableEq Address] in
theorem WritesOnly_AddBalanceMultiCoin (coinID : Hash) (amount : ℤ) :
    WritesOnly db (fun destructs o => o.AddBalanceMultiCoin db destructs coinID amount)
      (NormalizeCoinID coinID) := by
  intro destructs o
  dsimp only
  unfold stateObject.AddBalanceMultiCoin
  split_ifs
  · exact ⟨rfl, rfl, fun _ _ => rfl⟩
  · exact ⟨rfl, rfl, fun _ _ => rfl⟩
  · exact WritesOnly_SetBalanceMultiCoin db coinID _ destructs o

omit [DecidableEq Address] in
theorem WritesOnly_SubBalanceMultiCoin (coinID : Hash) (amount : ℤ) :
    WritesOnly db (fun destructs o => o.SubBalanceMultiCoin db destructs coinID amount)
      (NormalizeCoinID coinID) := by
  intro destructs o
  dsimp only
  unfold stateObject.SubBalanceMultiCoin
  split_ifs
  · exact ⟨rfl, rfl, fun _ _ => rfl⟩
  · exact WritesOnly_SetBalanceMultiCoin db coinID _ destructs o

/-! ## Storage and multicoin balances do not meet -/

section Disjoint

variable (hdb : db.StorageOfAccounts) (s : StateDB Address) (addr addr' : Address)
include hdb

/-- A storage write leaves every multicoin balance as it reads. -/
theorem SetState_GetBalanceMultiCoin {key : Hash} (hkey : key ≠ []) (value coinID : Hash) :
    (s.SetState db addr key value).GetBalanceMultiCoin db addr' coinID =
      s.GetBalanceMultiCoin db addr' coinID := by
  rw [GetBalanceMultiCoin_eq_storageAt, GetBalanceMultiCoin_eq_storageAt, SetState,
    storageAt_withStateObject db hdb s addr (WritesOnly_SetState db _ value) addr'
      (NormalizeCoinID_ne_NormalizeStateKey hkey)]

/-- A method that writes one coin's slot leaves every storage slot as it reads. -/
theorem GetState_withStateObject
    {method : (Address → Bool) → stateObject Address →
      List (journalEntry Address) × stateObject Address}
    {coinID : Hash} (hm : WritesOnly db method (NormalizeCoinID coinID)) {key : Hash}
    (hkey : key ≠ []) :
    (s.withStateObject db addr method).GetState db addr' key = s.GetState db addr' key := by
  rw [GetState_eq_storageAt, GetState_eq_storageAt,
    storageAt_withStateObject db hdb s addr hm addr' (NormalizeCoinID_ne_NormalizeStateKey hkey).symm]

end Disjoint

omit [DecidableEq Address] in
/-- Keys that differ in the lowest bit of their first byte read the same slot. -/
theorem GetState_xor_one (s : StateDB Address) (addr : Address) (b : UInt8) (rest : Hash) :
    s.GetState db addr ((b ^^^ 0x01) :: rest) = s.GetState db addr (b :: rest) := by
  rw [GetState_eq_storageAt, GetState_eq_storageAt, NormalizeStateKey_xor_one]

/-- EVM storage and multicoin balances never alias. A storage write leaves every multicoin
balance as it reads, and each multicoin write every storage slot; keys that differ in the
lowest bit of their first byte read the same slot. A storage key is a `common.Hash`, so it is
not empty. -/
theorem storage_multicoin_never_alias (hdb : db.StorageOfAccounts) (s : StateDB Address)
    (a a' : Address) {k : Hash} (hk : k ≠ []) :
    (∀ v c, (s.SetState db a k v).GetBalanceMultiCoin db a' c = s.GetBalanceMultiCoin db a' c) ∧
      (∀ c x, (s.SetBalanceMultiCoin db a c x).GetState db a' k = s.GetState db a' k) ∧
      (∀ c x, (s.AddBalanceMultiCoin db a c x).GetState db a' k = s.GetState db a' k) ∧
      (∀ c x, (s.SubBalanceMultiCoin db a c x).GetState db a' k = s.GetState db a' k) ∧
      ∀ b rest, s.GetState db a ((b ^^^ 0x01) :: rest) = s.GetState db a (b :: rest) := by
  refine ⟨fun v c => SetState_GetBalanceMultiCoin db hdb s a a' hk v c, fun c x => ?_,
    fun c x => ?_, fun c x => ?_, GetState_xor_one db s a⟩
  · exact GetState_withStateObject db hdb s a a' (WritesOnly_SetBalanceMultiCoin db c x) hk
  · exact GetState_withStateObject db hdb s a a' (WritesOnly_AddBalanceMultiCoin db c x) hk
  · exact GetState_withStateObject db hdb s a a' (WritesOnly_SubBalanceMultiCoin db c x) hk

theorem storage_multicoin_never_alias_sample :
    sampleDatabase.StorageOfAccounts ∧ zeroHash ≠ [] ∧
      ((∀ v c, (sampleStateDB.SetState sampleDatabase 0 zeroHash v).GetBalanceMultiCoin
          sampleDatabase 1 c = sampleStateDB.GetBalanceMultiCoin sampleDatabase 1 c) ∧
        (∀ c x, (sampleStateDB.SetBalanceMultiCoin sampleDatabase 0 c x).GetState
          sampleDatabase 1 zeroHash = sampleStateDB.GetState sampleDatabase 1 zeroHash) ∧
        (∀ c x, (sampleStateDB.AddBalanceMultiCoin sampleDatabase 0 c x).GetState
          sampleDatabase 1 zeroHash = sampleStateDB.GetState sampleDatabase 1 zeroHash) ∧
        (∀ c x, (sampleStateDB.SubBalanceMultiCoin sampleDatabase 0 c x).GetState
          sampleDatabase 1 zeroHash = sampleStateDB.GetState sampleDatabase 1 zeroHash) ∧
        ∀ b rest, sampleStateDB.GetState sampleDatabase 0 ((b ^^^ 0x01) :: rest) =
          sampleStateDB.GetState sampleDatabase 0 (b :: rest)) :=
  have hdb : sampleDatabase.StorageOfAccounts := fun _ _ _ => rfl
  have hk : zeroHash ≠ [] := by decide
  ⟨hdb, hk, storage_multicoin_never_alias sampleDatabase hdb sampleStateDB 0 1 hk⟩

/-! ## Re-creating an account -/

/-- `CreateAccount` over a live account writes back a fresh object with the old balance. -/
theorem CreateAccount_of_live {s : StateDB Address} {addr : Address}
    {prev : stateObject Address} (hprev : s.getStateObject db addr = some prev) :
    s.CreateAccount db addr = (s.createObject db addr).1.setStateObject
      ({ newObject addr none with created := true }.setBalance prev.data.Balance) := by
  obtain ⟨hpd, hdel⟩ := (getStateObject_eq_some db).mp hprev
  have hcreated : (s.createObject db addr).2.2 = some prev := by
    simp [createObject, hpd, hdel]
  simp only [CreateAccount, hcreated, createObject_newobj]

/-- `CreateAccount` over a live account keeps its native balance but not its multicoin
balances: the old account is marked destructed, so every slot of the new object, a coin's slot
among them, reads zero. -/
theorem CreateAccount_loses_multicoin_balances (s : StateDB Address) (addr : Address)
    (hex : s.Exist db addr = true) :
    (s.CreateAccount db addr).GetBalance db addr = s.GetBalance db addr ∧
      ∀ coinID, (s.CreateAccount db addr).GetBalanceMultiCoin db addr coinID = 0 := by
  obtain ⟨prev, hprev⟩ := Option.isSome_iff_exists.mp hex
  have hpd := ((getStateObject_eq_some db).mp hprev).1
  -- the fresh object, with the old balance, is what the address reads now
  have hget : (s.CreateAccount db addr).getStateObject db addr =
      some ({ newObject addr none with created := true }.setBalance prev.data.Balance) := by
    rw [CreateAccount_of_live db hprev]
    exact getStateObject_setStateObject_self _ rfl
  have hdestructs : (s.CreateAccount db addr).stateObjectsDestruct addr = true := by
    rw [CreateAccount_of_live db hprev, setStateObject_stateObjectsDestruct]
    exact createObject_destructs_of_some db hpd
  refine ⟨?_, fun coinID => ?_⟩
  · simp only [GetBalance, hget, hprev]
    rfl
  · rw [GetBalanceMultiCoin_eq_storageAt, storageAt, hget]
    change Hash.Big (if (s.CreateAccount db addr).stateObjectsDestruct addr then zeroHash
      else db.Storage addr (NormalizeCoinID coinID)) = 0
    rw [hdestructs, if_pos rfl, Big_zeroHash]

/-- A database whose account `0`, with no code and nonce zero, holds 5 of the coin `zeroHash`:
an address funded before a contract is created at it. -/
def fundedDatabase : Database (Fin 2) where
  Account a := if a = 0 then some ⟨0, 100, EmptyCodeHash, true⟩ else none
  Storage a key := if a = 0 ∧ key = NormalizeCoinID zeroHash then BigToHash 5 else zeroHash
  ContractCode _ := []

theorem CreateAccount_loses_multicoin_balances_sample :
    sampleStateDB.Exist fundedDatabase 0 = true ∧
      sampleStateDB.GetBalance fundedDatabase 0 = 100 ∧
      sampleStateDB.GetBalanceMultiCoin fundedDatabase 0 zeroHash = 5 ∧
      (sampleStateDB.CreateAccount fundedDatabase 0).GetBalance fundedDatabase 0 = 100 ∧
      (sampleStateDB.CreateAccount fundedDatabase 0).GetBalanceMultiCoin fundedDatabase 0
        zeroHash = 0 := by
  have hex : sampleStateDB.Exist fundedDatabase 0 = true := rfl
  have hbal : sampleStateDB.GetBalance fundedDatabase 0 = 100 := rfl
  have hcoin : sampleStateDB.GetBalanceMultiCoin fundedDatabase 0 zeroHash = 5 := by decide
  obtain ⟨hkeep, hlose⟩ :=
    CreateAccount_loses_multicoin_balances fundedDatabase sampleStateDB 0 hex
  exact ⟨hex, hbal, hcoin, hkeep.trans hbal, hlose zeroHash⟩

end StateDB

end Jeth.State
