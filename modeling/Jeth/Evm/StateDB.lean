import Jeth.Lib.UndoLog
import Jeth.Evm.StateObject

/-!
# The state database and its journal (core/state/statedb.go, journal.go)

`StateDB` holds the live state objects of the accounts touched so far, together with the
refund counter, the logs, the preimages, the access list and the transient storage of the
current transaction. Every change appends to `journal` the entries that undo it (`journalEntry`),
and `Snapshot` remembers the journal's length under a fresh revision id. `RevertToSnapshot`
applies the entries after that length, the last one first, and cuts the journal there. It also
drops the revisions taken after it.

Objects are values here, where Go shares pointers. A method of `stateObject` returns the entries
it appends together with the object after it (`stateObject.SetBalance` and the rest), and the
`StateDB` setter writes the object back under its address (`withStateObject`). Go writes an
object it loads from the database into `stateObjects` at once. The model writes it back when a
setter changes it; a load that no change follows is a cache fill that no read can see.

What the model leaves out is read only by `Finalise` and `Commit`: the journal's count of dirty
addresses, `stateObjectsDirty`, and the slim-RLP copies of accounts and storage that
`resetObjectChange` restores.
-/

namespace Jeth.State

/-- `types.Log`, with the fields `AddLog` sets. -/
structure Log (α : Type) where
  Address : α
  Topics : List Hash
  Data : List UInt8
  BlockNumber : ℕ
  TxHash : Hash
  TxIndex : ℕ
  Index : ℕ

/-- The journal entries of journal.go, each with what its `revert` needs. -/
inductive journalEntry (Address : Type)
  | createObjectChange (account : Address)
  | resetObjectChange (account : Address) (prev : stateObject Address) (prevdestruct : Bool)
  | selfDestructChange (account : Address) (prev : Bool) (prevbalance : ℤ)
  | balanceChange (account : Address) (prev : ℤ)
  | multiCoinEnable (account : Address)
  | nonceChange (account : Address) (prev : ℕ)
  | storageChange (account : Address) (key prevalue : Hash)
  | codeChange (account : Address) (prevcode : List UInt8) (prevhash : Hash)
  | refundChange (prev : UInt64)
  | addLogChange (txhash : Hash)
  | addPreimageChange (hash : Hash)
  | touchChange (account : Address)
  | accessListAddAccountChange (address : Address)
  | accessListAddSlotChange (address : Address) (slot : Hash)
  | transientStorageChange (account : Address) (key prevalue : Hash)

/-- `revision`: a snapshot id and the journal length it was taken at. -/
structure revision where
  id : ℕ
  journalIndex : ℕ
deriving DecidableEq

/-- `StateDB`, with the fields that the transaction-level code reads. -/
@[ext] structure StateDB (Address : Type) where
  stateObjects : Address → Option (stateObject Address)
  /-- `setStateObject` keeps every object under its own address. -/
  stateObjects_address : ∀ addr obj, stateObjects addr = some obj → obj.address = addr
  stateObjectsDestruct : Address → Bool
  refund : UInt64
  thash : Hash
  txIndex : ℕ
  logs : Hash → List (Log Address)
  logSize : ℕ
  preimages : Hash → Option (List UInt8)
  accessList : accessList Address
  transientStorage : Address → Hash → Hash
  journal : List (journalEntry Address)
  validRevisions : List revision
  nextRevisionId : ℕ

variable {Address : Type} [DecidableEq Address]

/-! ## The journaled methods of `stateObject` -/

namespace stateObject

variable (db : Database Address) (destructs : Address → Bool)

/-- `touch`. -/
def touch (o : stateObject Address) : List (journalEntry Address) × stateObject Address :=
  ([.touchChange o.address], o)

/-- `SetBalance`. -/
def SetBalance (o : stateObject Address) (amount : ℤ) :
    List (journalEntry Address) × stateObject Address :=
  ([.balanceChange o.address o.data.Balance], o.setBalance amount)

/-- `AddBalance`: adding zero only touches an empty account (EIP-161). -/
def AddBalance (o : stateObject Address) (amount : ℤ) :
    List (journalEntry Address) × stateObject Address :=
  if amount = 0 then (if o.empty then o.touch else ([], o))
  else o.SetBalance (o.data.Balance + amount)

/-- `SubBalance`. -/
def SubBalance (o : stateObject Address) (amount : ℤ) :
    List (journalEntry Address) × stateObject Address :=
  if amount = 0 then ([], o) else o.SetBalance (o.data.Balance - amount)

/-- `SetNonce`. -/
def SetNonce (o : stateObject Address) (nonce : ℕ) :
    List (journalEntry Address) × stateObject Address :=
  ([.nonceChange o.address o.data.Nonce], o.setNonce nonce)

/-- `SetCode`: the old code is loaded to be journaled. -/
def SetCode (o : stateObject Address) (codeHash : Hash) (code : List UInt8) :
    List (journalEntry Address) × stateObject Address :=
  ([.codeChange o.address (o.Code db) o.data.CodeHash], o.setCode codeHash code)

/-- `SetState`: a write of the value the key holds already changes nothing. -/
def SetState (o : stateObject Address) (key value : Hash) :
    List (journalEntry Address) × stateObject Address :=
  let prev := o.GetState db destructs key
  if prev = value then ([], o) else ([.storageChange o.address key prev], o.setState key value)

/-- `EnableMultiCoin`. Go also returns whether the flag was off; no caller reads it. -/
def EnableMultiCoin (o : stateObject Address) :
    List (journalEntry Address) × stateObject Address :=
  if o.data.IsMultiCoin then ([], o) else ([.multiCoinEnable o.address], o.enableMultiCoin)

/-- `SetBalanceMultiCoin`: the account becomes multicoin, and the balance is stored in the slot
of the normalized coin id. -/
def SetBalanceMultiCoin (o : stateObject Address) (coinID : Hash) (amount : ℤ) :
    List (journalEntry Address) × stateObject Address :=
  let enable := o.EnableMultiCoin
  let store := enable.2.SetState db destructs (NormalizeCoinID coinID) (BigToHash amount)
  (enable.1 ++ store.1, store.2)

/-- `AddBalanceMultiCoin`. -/
def AddBalanceMultiCoin (o : stateObject Address) (coinID : Hash) (amount : ℤ) :
    List (journalEntry Address) × stateObject Address :=
  if amount = 0 then (if o.empty then o.touch else ([], o))
  else o.SetBalanceMultiCoin db destructs coinID (o.BalanceMultiCoin db destructs coinID + amount)

/-- `SubBalanceMultiCoin`. -/
def SubBalanceMultiCoin (o : stateObject Address) (coinID : Hash) (amount : ℤ) :
    List (journalEntry Address) × stateObject Address :=
  if amount = 0 then ([], o)
  else o.SetBalanceMultiCoin db destructs coinID (o.BalanceMultiCoin db destructs coinID - amount)

end stateObject

namespace StateDB

variable (db : Database Address)

/-! ## Objects -/

/-- `setStateObject`: the object goes under its own address. -/
def setStateObject (s : StateDB Address) (object : stateObject Address) : StateDB Address :=
  { s with
    stateObjects := Function.update s.stateObjects object.address (some object)
    stateObjects_address := by
      intro addr obj h
      by_cases ha : addr = object.address
      · subst ha
        simp only [Function.update_self, Option.some.injEq] at h
        rw [← h]
      · rw [Function.update_of_ne ha] at h
        exact s.stateObjects_address addr obj h }

/-- `delete(s.stateObjects, addr)`. -/
def deleteStateObject (s : StateDB Address) (addr : Address) : StateDB Address :=
  { s with
    stateObjects := Function.update s.stateObjects addr none
    stateObjects_address := by
      intro a obj h
      by_cases ha : a = addr
      · subst ha
        simp at h
      · rw [Function.update_of_ne ha] at h
        exact s.stateObjects_address a obj h }

/-- `getDeletedStateObject`: the live object, or a fresh one for the account the database holds.
Go also caches the fresh object in `stateObjects`. -/
def getDeletedStateObject (s : StateDB Address) (addr : Address) : Option (stateObject Address) :=
  match s.stateObjects addr with
  | some obj => some obj
  | none => (db.Account addr).map fun data => newObject addr (some data)

/-- `getStateObject`: objects deleted at the end of an earlier transaction do not count. -/
def getStateObject (s : StateDB Address) (addr : Address) : Option (stateObject Address) :=
  match s.getDeletedStateObject db addr with
  | some obj => if obj.deleted then none else some obj
  | none => none

/-- `journal.append`. -/
def append (s : StateDB Address) (entry : journalEntry Address) : StateDB Address :=
  { s with journal := s.journal ++ [entry] }

/-- `createObject`: a fresh object replaces the one the address had, if any. A replaced
object is journaled whole, and its account is marked destructed, so that its committed storage
no longer shows. The second result is the replaced object, unless it had been deleted. -/
def createObject (s : StateDB Address) (addr : Address) :
    StateDB Address × stateObject Address × Option (stateObject Address) :=
  let newobj : stateObject Address := { newObject addr none with created := true }
  match s.getDeletedStateObject db addr with
  | none => ((s.append (.createObjectChange addr)).setStateObject newobj, newobj, none)
  | some prev =>
    let prevdestruct := s.stateObjectsDestruct prev.address
    let s := if prevdestruct then s
      else { s with stateObjectsDestruct := Function.update s.stateObjectsDestruct prev.address true }
    ((s.append (.resetObjectChange addr prev prevdestruct)).setStateObject newobj, newobj,
      if prev.deleted then none else some prev)

/-- `GetOrNewStateObject`. -/
def GetOrNewStateObject (s : StateDB Address) (addr : Address) :
    StateDB Address × stateObject Address :=
  match s.getStateObject db addr with
  | some stateObject => (s, stateObject)
  | none =>
    let created := s.createObject db addr
    (created.1, created.2.1)

/-- The object's method appended `change.1` to the journal and left the object `change.2`. -/
def applyObjectChange (s : StateDB Address)
    (change : List (journalEntry Address) × stateObject Address) : StateDB Address :=
  { s.setStateObject change.2 with journal := s.journal ++ change.1 }

/-- The setters of statedb.go that get or create the address's object and call one of its
methods, which may read the destructed accounts. -/
def withStateObject (s : StateDB Address) (addr : Address)
    (method : (Address → Bool) → stateObject Address →
      List (journalEntry Address) × stateObject Address) : StateDB Address :=
  let got := s.GetOrNewStateObject db addr
  got.1.applyObjectChange (method got.1.stateObjectsDestruct got.2)

/-! ## Setters -/

/-- `AddBalance`. -/
def AddBalance (s : StateDB Address) (addr : Address) (amount : ℤ) : StateDB Address :=
  s.withStateObject db addr fun _ stateObject => stateObject.AddBalance amount

/-- `SubBalance`. -/
def SubBalance (s : StateDB Address) (addr : Address) (amount : ℤ) : StateDB Address :=
  s.withStateObject db addr fun _ stateObject => stateObject.SubBalance amount

/-- `SetBalance`. -/
def SetBalance (s : StateDB Address) (addr : Address) (amount : ℤ) : StateDB Address :=
  s.withStateObject db addr fun _ stateObject => stateObject.SetBalance amount

/-- `AddBalanceMultiCoin`. -/
def AddBalanceMultiCoin (s : StateDB Address) (addr : Address) (coinID : Hash) (amount : ℤ) :
    StateDB Address :=
  s.withStateObject db addr fun destructs stateObject =>
    stateObject.AddBalanceMultiCoin db destructs coinID amount

/-- `SubBalanceMultiCoin`. -/
def SubBalanceMultiCoin (s : StateDB Address) (addr : Address) (coinID : Hash) (amount : ℤ) :
    StateDB Address :=
  s.withStateObject db addr fun destructs stateObject =>
    stateObject.SubBalanceMultiCoin db destructs coinID amount

/-- `SetBalanceMultiCoin`. -/
def SetBalanceMultiCoin (s : StateDB Address) (addr : Address) (coinID : Hash) (amount : ℤ) :
    StateDB Address :=
  s.withStateObject db addr fun destructs stateObject =>
    stateObject.SetBalanceMultiCoin db destructs coinID amount

/-- `SetNonce`. -/
def SetNonce (s : StateDB Address) (addr : Address) (nonce : ℕ) : StateDB Address :=
  s.withStateObject db addr fun _ stateObject => stateObject.SetNonce nonce

/-- `SetCode`, with `Keccak256Hash` for `crypto.Keccak256Hash`. -/
def SetCode (Keccak256Hash : List UInt8 → Hash) (s : StateDB Address) (addr : Address)
    (code : List UInt8) : StateDB Address :=
  s.withStateObject db addr fun _ stateObject =>
    stateObject.SetCode db (Keccak256Hash code) code

/-- `SetState`: the key is normalized, so that it cannot reach a multicoin balance. -/
def SetState (s : StateDB Address) (addr : Address) (key value : Hash) : StateDB Address :=
  s.withStateObject db addr fun destructs stateObject =>
    stateObject.SetState db destructs (NormalizeStateKey key) value

/-- `CreateAccount`: a new account keeps the balance of the one it replaces. -/
def CreateAccount (s : StateDB Address) (addr : Address) : StateDB Address :=
  let created := s.createObject db addr
  match created.2.2 with
  | some prev => created.1.setStateObject (created.2.1.setBalance prev.data.Balance)
  | none => created.1

/-- `SelfDestruct`: the account is marked and its balance cleared; its multicoin balances stay
in storage. -/
def SelfDestruct (s : StateDB Address) (addr : Address) : StateDB Address :=
  match s.getStateObject db addr with
  | none => s
  | some stateObject =>
    (s.append (.selfDestructChange addr stateObject.selfDestructed stateObject.data.Balance)
      ).setStateObject { stateObject.markSelfdestructed with data := { stateObject.data with Balance := 0 } }

/-- `Selfdestruct6780`: EIP-6780 destructs only an account created in this transaction. -/
def Selfdestruct6780 (s : StateDB Address) (addr : Address) : StateDB Address :=
  match s.getStateObject db addr with
  | none => s
  | some stateObject => if stateObject.created then s.SelfDestruct db addr else s

/-- `AddRefund`; the counter is a `uint64` and wraps. -/
def AddRefund (s : StateDB Address) (gas : UInt64) : StateDB Address :=
  { s.append (.refundChange s.refund) with refund := s.refund + gas }

/-- `SubRefund`: the counter stops at zero. -/
def SubRefund (s : StateDB Address) (gas : UInt64) : StateDB Address :=
  { s.append (.refundChange s.refund) with refund := if gas > s.refund then 0 else s.refund - gas }

/-- `AddLog`: the log goes under the current transaction's hash. -/
def AddLog (s : StateDB Address) (addr : Address) (topics : List Hash) (data : List UInt8)
    (blockNumber : ℕ) : StateDB Address :=
  let log : Log Address :=
    { Address := addr, Topics := topics, Data := data, BlockNumber := blockNumber,
      TxHash := s.thash, TxIndex := s.txIndex, Index := s.logSize }
  { s.append (.addLogChange s.thash) with
    logs := Function.update s.logs s.thash (s.logs s.thash ++ [log])
    logSize := s.logSize + 1 }

/-- `AddPreimage`: the first preimage of a hash is kept. -/
def AddPreimage (s : StateDB Address) (hash : Hash) (preimage : List UInt8) : StateDB Address :=
  match s.preimages hash with
  | some _ => s
  | none =>
    { s.append (.addPreimageChange hash) with
      preimages := Function.update s.preimages hash (some preimage) }

/-- `AddAddressToAccessList`. -/
def AddAddressToAccessList (s : StateDB Address) (addr : Address) : StateDB Address :=
  let added := s.accessList.AddAddress addr
  if added.1 then { s.append (.accessListAddAccountChange addr) with accessList := added.2 }
  else { s with accessList := added.2 }

/-- `AddSlotToAccessList`: an absent address is journaled first, then the slot. -/
def AddSlotToAccessList (s : StateDB Address) (addr : Address) (slot : Hash) : StateDB Address :=
  let added := s.accessList.AddSlot addr slot
  let s : StateDB Address := { s with accessList := added.2 }
  let s := if added.1.1 then s.append (.accessListAddAccountChange addr) else s
  if added.1.2 then s.append (.accessListAddSlotChange addr slot) else s

/-- `GetTransientState`. -/
def GetTransientState (s : StateDB Address) (addr : Address) (key : Hash) : Hash :=
  s.transientStorage addr key

/-- `setTransientState`. -/
def setTransientState (s : StateDB Address) (addr : Address) (key value : Hash) :
    StateDB Address :=
  let slots := Function.update (s.transientStorage addr) key value
  { s with transientStorage := Function.update s.transientStorage addr slots }

/-- `SetTransientState`. -/
def SetTransientState (s : StateDB Address) (addr : Address) (key value : Hash) :
    StateDB Address :=
  let prev := s.GetTransientState addr key
  if prev = value then s
  else (s.append (.transientStorageChange addr key prev)).setTransientState addr key value

/-! ## Getters -/

/-- `GetBalance`. -/
def GetBalance (s : StateDB Address) (addr : Address) : ℤ :=
  match s.getStateObject db addr with
  | some stateObject => stateObject.data.Balance
  | none => 0

/-- `GetBalanceMultiCoin`. -/
def GetBalanceMultiCoin (s : StateDB Address) (addr : Address) (coinID : Hash) : ℤ :=
  match s.getStateObject db addr with
  | some stateObject => stateObject.BalanceMultiCoin db s.stateObjectsDestruct coinID
  | none => 0

/-- `GetNonce`. -/
def GetNonce (s : StateDB Address) (addr : Address) : ℕ :=
  match s.getStateObject db addr with
  | some stateObject => stateObject.data.Nonce
  | none => 0

/-- `GetCode`. -/
def GetCode (s : StateDB Address) (addr : Address) : List UInt8 :=
  match s.getStateObject db addr with
  | some stateObject => stateObject.Code db
  | none => []

/-- `GetCodeHash`. -/
def GetCodeHash (s : StateDB Address) (addr : Address) : Hash :=
  match s.getStateObject db addr with
  | some stateObject => stateObject.data.CodeHash
  | none => zeroHash

/-- `GetState`: the key is normalized as `SetState` does. -/
def GetState (s : StateDB Address) (addr : Address) (hash : Hash) : Hash :=
  match s.getStateObject db addr with
  | some stateObject => stateObject.GetState db s.stateObjectsDestruct (NormalizeStateKey hash)
  | none => zeroHash

/-- `Exist`: self-destructed accounts exist until the transaction ends. -/
def Exist (s : StateDB Address) (addr : Address) : Bool :=
  (s.getStateObject db addr).isSome

/-- `Empty`. -/
def Empty (s : StateDB Address) (addr : Address) : Bool :=
  match s.getStateObject db addr with
  | some stateObject => stateObject.empty
  | none => true

/-- `GetRefund`. -/
def GetRefund (s : StateDB Address) : UInt64 :=
  s.refund

/-- `GetLogs`, without the block hash and number it stamps on the logs. -/
def GetLogs (s : StateDB Address) (hash : Hash) : List (Log Address) :=
  s.logs hash

/-- `AddressInAccessList`. -/
def AddressInAccessList (s : StateDB Address) (addr : Address) : Bool :=
  s.accessList.ContainsAddress addr

/-- `SlotInAccessList`. -/
def SlotInAccessList (s : StateDB Address) (addr : Address) (slot : Hash) : Bool × Bool :=
  s.accessList.Contains addr slot

/-! ## Reverting -/

/-- The object of an address, changed by `f`; nothing for an address without one. Go
dereferences the object unchecked in every revert but `selfDestructChange`'s, which the journal
only reaches for addresses with an object. -/
def updateStateObject (s : StateDB Address) (addr : Address)
    (f : stateObject Address → stateObject Address) : StateDB Address :=
  match s.getStateObject db addr with
  | some obj => s.setStateObject (f obj)
  | none => s

end StateDB

/-- `journalEntry.revert`. -/
def journalEntry.revert (db : Database Address) :
    journalEntry Address → StateDB Address → StateDB Address
  | .createObjectChange account, s => s.deleteStateObject account
  | .resetObjectChange _ prev prevdestruct, s =>
    let s := s.setStateObject prev
    if prevdestruct then s
    else { s with stateObjectsDestruct := Function.update s.stateObjectsDestruct prev.address false }
  | .selfDestructChange account prev prevbalance, s =>
    s.updateStateObject db account fun obj => { obj with selfDestructed := prev }.setBalance prevbalance
  | .balanceChange account prev, s => s.updateStateObject db account (·.setBalance prev)
  | .multiCoinEnable account, s =>
    s.updateStateObject db account fun obj => { obj with data := { obj.data with IsMultiCoin := false } }
  | .nonceChange account prev, s => s.updateStateObject db account (·.setNonce prev)
  | .codeChange account prevcode prevhash, s =>
    s.updateStateObject db account (·.setCode prevhash prevcode)
  | .storageChange account key prevalue, s =>
    s.updateStateObject db account (·.setState key prevalue)
  | .refundChange prev, s => { s with refund := prev }
  | .addLogChange txhash, s =>
    let logs := s.logs txhash
    { s with
      logs := Function.update s.logs txhash (if logs.length = 1 then [] else logs.dropLast)
      logSize := s.logSize - 1 }
  | .addPreimageChange hash, s => { s with preimages := Function.update s.preimages hash none }
  | .touchChange _, s => s
  | .accessListAddAccountChange address, s =>
    { s with accessList := s.accessList.DeleteAddress address }
  | .accessListAddSlotChange address slot, s =>
    { s with accessList := s.accessList.DeleteSlot address slot }
  | .transientStorageChange account key prevalue, s => s.setTransientState account key prevalue

/-- `journal.revert`: the entries from `snapshot` on are undone, the last one first, and cut
off. -/
def journal.revert (db : Database Address) (s : StateDB Address) (snapshot : ℕ) : StateDB Address :=
  { UndoLog.revertAll (journalEntry.revert db) (s.journal.drop snapshot) s with
    journal := s.journal.take snapshot }

namespace StateDB

variable (db : Database Address)

/-- `Snapshot`: a fresh revision id for the journal's current length. -/
def Snapshot (s : StateDB Address) : ℕ × StateDB Address :=
  let id := s.nextRevisionId
  (id, { s with
    nextRevisionId := id + 1
    validRevisions := s.validRevisions ++ [⟨id, s.journal.length⟩] })

/-- `RevertToSnapshot`; `none` where Go panics, for an id that is not a valid revision. The
revision is found as `sort.Search` finds it: the first whose id is not below `revid`. -/
def RevertToSnapshot (s : StateDB Address) (revid : ℕ) : Option (StateDB Address) :=
  let idx := s.validRevisions.findIdx fun r => revid ≤ r.id
  match s.validRevisions[idx]? with
  | some r =>
    if r.id = revid then
      some { journal.revert db s r.journalIndex with validRevisions := s.validRevisions.take idx }
    else none
  | none => none

end StateDB

/-! ## Runs of the state's operations -/

/-- The operations of the `vm.StateDB` interface that change the state, and the snapshots. -/
inductive Op (Address : Type)
  | AddBalance (addr : Address) (amount : ℤ)
  | SubBalance (addr : Address) (amount : ℤ)
  | SetBalance (addr : Address) (amount : ℤ)
  | AddBalanceMultiCoin (addr : Address) (coinID : Hash) (amount : ℤ)
  | SubBalanceMultiCoin (addr : Address) (coinID : Hash) (amount : ℤ)
  | SetBalanceMultiCoin (addr : Address) (coinID : Hash) (amount : ℤ)
  | SetNonce (addr : Address) (nonce : ℕ)
  | SetCode (addr : Address) (code : List UInt8)
  | SetState (addr : Address) (key value : Hash)
  | CreateAccount (addr : Address)
  | SelfDestruct (addr : Address)
  | Selfdestruct6780 (addr : Address)
  | AddRefund (gas : UInt64)
  | SubRefund (gas : UInt64)
  | AddLog (addr : Address) (topics : List Hash) (data : List UInt8) (blockNumber : ℕ)
  | AddPreimage (hash : Hash) (preimage : List UInt8)
  | AddAddressToAccessList (addr : Address)
  | AddSlotToAccessList (addr : Address) (slot : Hash)
  | SetTransientState (addr : Address) (key value : Hash)
  | Snapshot
  | RevertToSnapshot (revid : ℕ)

namespace Op

variable (db : Database Address) (Keccak256Hash : List UInt8 → Hash)

/-- One operation; `none` where Go panics. -/
def step : Op Address → StateDB Address → Option (StateDB Address)
  | .AddBalance addr amount, s => some (s.AddBalance db addr amount)
  | .SubBalance addr amount, s => some (s.SubBalance db addr amount)
  | .SetBalance addr amount, s => some (s.SetBalance db addr amount)
  | .AddBalanceMultiCoin addr coinID amount, s => some (s.AddBalanceMultiCoin db addr coinID amount)
  | .SubBalanceMultiCoin addr coinID amount, s => some (s.SubBalanceMultiCoin db addr coinID amount)
  | .SetBalanceMultiCoin addr coinID amount, s => some (s.SetBalanceMultiCoin db addr coinID amount)
  | .SetNonce addr nonce, s => some (s.SetNonce db addr nonce)
  | .SetCode addr code, s => some (s.SetCode db Keccak256Hash addr code)
  | .SetState addr key value, s => some (s.SetState db addr key value)
  | .CreateAccount addr, s => some (s.CreateAccount db addr)
  | .SelfDestruct addr, s => some (s.SelfDestruct db addr)
  | .Selfdestruct6780 addr, s => some (s.Selfdestruct6780 db addr)
  | .AddRefund gas, s => some (s.AddRefund gas)
  | .SubRefund gas, s => some (s.SubRefund gas)
  | .AddLog addr topics data blockNumber, s => some (s.AddLog addr topics data blockNumber)
  | .AddPreimage hash preimage, s => some (s.AddPreimage hash preimage)
  | .AddAddressToAccessList addr, s => some (s.AddAddressToAccessList addr)
  | .AddSlotToAccessList addr slot, s => some (s.AddSlotToAccessList addr slot)
  | .SetTransientState addr key value, s => some (s.SetTransientState addr key value)
  | .Snapshot, s => some s.Snapshot.2
  | .RevertToSnapshot revid, s => s.RevertToSnapshot db revid

/-- A run of operations, stopped by the first panic. -/
def run : List (Op Address) → StateDB Address → Option (StateDB Address)
  | [], s => some s
  | op :: ops, s => (op.step db Keccak256Hash s).bind (run ops)

/-- The revision ids a run reverts to. -/
def revertIds (ops : List (Op Address)) : List ℕ :=
  ops.filterMap fun
    | .RevertToSnapshot revid => some revid
    | _ => none

end Op

end Jeth.State
