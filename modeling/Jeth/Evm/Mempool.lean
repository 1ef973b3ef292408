import Mathlib
import Jeth.Lib.LRU
import Jeth.Evm.TxHeap

/-!
# The atomic mempool

`Mempool` of `plugin/evm/mempool.go`, without its lock (the lock is `MempoolLocks`'s subject)
and its metrics. Its Go maps are `AList`s, whose entries are iterated in list order where the
source ranges over a map; `discardedTxs` is an `LRU`, and the gossip bloom filter is modelled
as far as `addTx` drives it.

Every method is a function of the state: the exported ones keep their Go names, and the
unexported helpers they call (`addTx`, `removeTx`, `cancelTx`, …) theirs. `MempoolCall`
collects the exported calls that change the state, and `Mempool.calls` runs a sequence of
them. The invariants the mempool is meant to keep are stated at the end, over the
transactions it holds (`heldTxs`).
-/

namespace Jeth

open scoped List

/-- `discardedTxsCacheSize`. -/
def discardedTxsCacheSize : ℕ := 50

/-- `txGossipBloomMinTargetElements`. -/
def txGossipBloomMinTargetElements : ℕ := 8 * 1024

/-- `txGossipBloomChurnMultiplier`. -/
def txGossipBloomChurnMultiplier : ℕ := 3

/-- The text of `errNoGasUsed`. -/
def errNoGasUsed : String := "no gas used"

/-! ## The gossip bloom filter -/

/-- `gossip.BloomFilter` as the mempool drives it: the IDs added since the last reset (the filter
contains each of them; its false positives are not modelled), the number of additions it counts,
and the count past which `ResetBloomFilterIfNeeded` replaces it. A replacement is sized for a
target number of elements, at least `minTargetElements`; `maxCountFor` gives the count at which a
filter of that size reaches the reset false positive rate. -/
structure BloomFilter (ID : Type*) where
  added : List ID
  count : ℕ
  maxCount : ℕ
  minTargetElements : ℕ
  maxCountFor : ℕ → ℕ

namespace BloomFilter

variable {ID : Type*}

/-- `gossip.NewBloomFilter`. -/
def new (minTargetElements : ℕ) (maxCountFor : ℕ → ℕ) : BloomFilter ID :=
  ⟨[], 0, maxCountFor minTargetElements, minTargetElements, maxCountFor⟩

/-- `Add(gossipable)`. -/
def add (b : BloomFilter ID) (id : ID) : BloomFilter ID :=
  { b with added := id :: b.added, count := b.count + 1 }

/-- `gossip.ResetBloomFilterIfNeeded(b, targetElements)`: whether the filter was replaced by an
empty one. -/
def ResetBloomFilterIfNeeded (b : BloomFilter ID) (targetElements : ℕ) : Bool × BloomFilter ID :=
  if b.count ≤ b.maxCount then (false, b)
  else
    (true, { b with added := [], count := 0,
                    maxCount := b.maxCountFor (max b.minTargetElements targetElements) })

@[simp] theorem added_add (b : BloomFilter ID) (id : ID) : (b.add id).added = id :: b.added := rfl

theorem added_foldl_add {β : Type*} (l : List β) (f : β → ID) (b : BloomFilter ID) :
    (l.foldl (fun b e => b.add (f e)) b).added = (l.map f).reverse ++ b.added := by
  induction l generalizing b with
  | nil => rfl
  | cons e l ih => simp [ih]

/-- A reset replaces the filter by an empty one; otherwise the filter is kept. -/
theorem ResetBloomFilterIfNeeded_eq {b b' : BloomFilter ID} {targetElements : ℕ} {reset : Bool}
    (h : b.ResetBloomFilterIfNeeded targetElements = (reset, b')) :
    (reset = false ∧ b' = b) ∨ (reset = true ∧ b'.added = []) := by
  unfold ResetBloomFilterIfNeeded at h
  split at h
  · obtain ⟨rfl, rfl⟩ := Prod.mk.inj h
    exact .inl ⟨rfl, rfl⟩
  · obtain ⟨rfl, rfl⟩ := Prod.mk.inj h
    exact .inr ⟨rfl, rfl⟩

end BloomFilter

/-! ## The state and the errors -/

/-- `Mempool`. -/
structure Mempool (ID UTXO Asset : Type*) where
  /-- `ctx.JUNEAssetID`, the asset whose burn `atomicTxGasPrice` reads. -/
  juneAssetID : Asset
  maxSize : ℕ
  currentTxs : AList (fun _ : ID => Tx ID UTXO Asset)
  issuedTxs : AList (fun _ : ID => Tx ID UTXO Asset)
  discardedTxs : LRU ID (Tx ID UTXO Asset)
  /-- Whether the channel `Pending`, of capacity one, holds its item. -/
  pending : Bool
  txHeap : TxHeap ID UTXO Asset
  utxoSpenders : AList (fun _ : UTXO => Tx ID UTXO Asset)
  bloom : BloomFilter ID
  /-- `verify`; `none` is a nil function. -/
  verify : Option (Tx ID UTXO Asset → Except String Unit)

/-- Where `addTx` finds a transaction the mempool already holds. -/
inductive KnownAt
  | issued
  | current
  | pending
  deriving DecidableEq, Repr

/-- The errors `addTx` returns. -/
inductive AddTxError (ID : Type*)
  /-- `errTxAlreadyKnown`, wrapped with where the transaction is. -/
  | txAlreadyKnown (txID : ID) (knownAt : KnownAt)
  /-- The error of `verify`. -/
  | verify (err : String)
  /-- The gas price of a conflicting transaction failed to compute. -/
  | conflictGasPrice (err : String)
  /-- `errConflictingAtomicTx`; `none` stands for `ids.ID{}`, which the ID of the most expensive
  conflict stays when no conflict pays more than zero. -/
  | conflictingAtomicTx (txID : ID) (gasPrice : ℕ) (conflictTxID : Option ID)
      (conflictGasPrice numConflicts : ℕ)
  /-- `errInsufficientAtomicTxFee`. -/
  | insufficientAtomicTxFee (currentMin provided : ℕ)
  /-- `errTooManyAtomicTx`. -/
  | tooManyAtomicTx
  deriving DecidableEq

namespace AddTxError

variable {ID : Type*}

/-- `errors.Is(err, errTxAlreadyKnown)`. -/
def IsTxAlreadyKnown : AddTxError ID → Bool
  | txAlreadyKnown .. => true
  | _ => false

/-- The error's text, as the source formats it. -/
def message [ToString ID] : AddTxError ID → String
  | txAlreadyKnown txID .issued => "tx already known: tx " ++ toString txID ++ " was issued previously"
  | txAlreadyKnown txID .current =>
    "tx already known: tx " ++ toString txID ++ " is being built into a block"
  | txAlreadyKnown txID .pending => "tx already known: tx " ++ toString txID ++ " is pending"
  | .verify err => err
  | .conflictGasPrice err => "failed to re-calculate gas price for conflict tx due to: " ++ err
  | conflictingAtomicTx txID gasPrice conflictTxID highestGasPrice numConflicts =>
    "conflicting atomic tx present: issued tx (" ++ toString txID ++ ") gas price " ++
      toString gasPrice ++ " <= conflict tx (" ++
      (match conflictTxID with
        | some id => toString id
        | none => "11111111111111111111111111111111LpoYY") ++
      ") gas price " ++ toString highestGasPrice ++ " (" ++ toString numConflicts ++
      " total conflicts in mempool)"
  | insufficientAtomicTxFee currentMin provided =>
    "atomic tx fee too low for atomic mempool currentMin=" ++ toString currentMin ++
      " provided=" ++ toString provided
  | tooManyAtomicTx => "too many atomic tx"

end AddTxError

variable {ID UTXO Asset : Type*}

/-- `NewMempool(ctx, registerer, maxSize, verify)`; the bloom filter's parameters are the
source's constants, for which `gossip.NewBloomFilter` does not fail. -/
def NewMempool [DecidableEq ID] (juneAssetID : Asset) (maxSize : ℕ)
    (verify : Option (Tx ID UTXO Asset → Except String Unit)) (maxCountFor : ℕ → ℕ) :
    Mempool ID UTXO Asset where
  juneAssetID := juneAssetID
  maxSize := maxSize
  currentTxs := ∅
  issuedTxs := ∅
  discardedTxs := LRU.empty discardedTxsCacheSize
  pending := false
  txHeap := TxHeap.empty
  utxoSpenders := ∅
  bloom := BloomFilter.new txGossipBloomMinTargetElements maxCountFor
  verify := verify

namespace Mempool

variable [DecidableEq ID] [DecidableEq UTXO]

/-! ## Reading the state -/

/-- `length()`: the pending and the issued transactions; the current ones do not count. -/
def length (m : Mempool ID UTXO Asset) : ℕ := m.txHeap.len + m.issuedTxs.entries.length

/-- `Len()`. -/
def Len (m : Mempool ID UTXO Asset) : ℕ := m.length

/-- `atomicTxGasPrice(tx)`: the burn of `ctx.JUNEAssetID` per unit of gas. -/
def atomicTxGasPrice (m : Mempool ID UTXO Asset) (tx : Tx ID UTXO Asset) : Except String ℕ := do
  let gasUsed ← tx.gasUsed
  if gasUsed = 0 then throw errNoGasUsed
  let burned ← tx.burned m.juneAssetID
  return burned / gasUsed

/-- `GetFilter()`: the gossip bloom filter, which the source returns marshalled. -/
def GetFilter (m : Mempool ID UTXO Asset) : BloomFilter ID := m.bloom

/-- `GetPendingTx(txID)`. -/
def GetPendingTx (m : Mempool ID UTXO Asset) (txID : ID) : Option (Tx ID UTXO Asset) :=
  m.txHeap.get txID

/-- `GetTx(txID)`: the transaction, whether it was dropped, and whether it was found. A lookup
in `discardedTxs` marks its entry as recently used, so the call changes the state. -/
def GetTx (m : Mempool ID UTXO Asset) (txID : ID) :
    (Option (Tx ID UTXO Asset) × Bool × Bool) × Mempool ID UTXO Asset :=
  match m.txHeap.get txID with
  | some tx => ((some tx, false, true), m)
  | none =>
    match m.issuedTxs.lookup txID with
    | some tx => ((some tx, false, true), m)
    | none =>
      match m.currentTxs.lookup txID with
      | some tx => ((some tx, false, true), m)
      | none =>
        match m.discardedTxs.get txID with
        | (some tx, discardedTxs) => ((some tx, true, true), { m with discardedTxs })
        | (none, discardedTxs) => ((none, false, false), { m with discardedTxs })

/-- `has(txID)`: held and not discarded. -/
def has (m : Mempool ID UTXO Asset) (txID : ID) : Bool × Mempool ID UTXO Asset :=
  let ((_, dropped, found), m) := m.GetTx txID
  (found && !dropped, m)

/-- `Has(txID)`. -/
def Has (m : Mempool ID UTXO Asset) (txID : ID) : Bool × Mempool ID UTXO Asset := m.has txID

/-! ## Removing transactions -/

/-- `removeSpenders(tx)`: delete the `utxoSpenders` entry of every input of `tx`, whichever
transaction the entry names. -/
def removeSpenders (m : Mempool ID UTXO Asset) (tx : Tx ID UTXO Asset) : Mempool ID UTXO Asset :=
  { m with utxoSpenders := tx.inputUTXOs.foldl (fun spenders u => spenders.erase u) m.utxoSpenders }

/-- `removeTx(tx, discard)`. -/
def removeTx (m : Mempool ID UTXO Asset) (tx : Tx ID UTXO Asset) (discard : Bool) :
    Mempool ID UTXO Asset :=
  let txID := tx.id
  let m := { m with
    currentTxs := m.currentTxs.erase txID
    txHeap := (m.txHeap.remove txID).2
    issuedTxs := m.issuedTxs.erase txID }
  let m :=
    if discard then { m with discardedTxs := m.discardedTxs.put txID tx }
    else { m with discardedTxs := m.discardedTxs.evict txID }
  m.removeSpenders tx

/-- `RemoveTx(tx)`. -/
def RemoveTx (m : Mempool ID UTXO Asset) (tx : Tx ID UTXO Asset) : Mempool ID UTXO Asset :=
  m.removeTx tx false

/-! ## Adding transactions -/

/-- The loop of `checkConflictTx` over the inputs of `tx`: the highest gas price of a conflict
so far, the ID of the first conflict that paid it, and the conflicts in the order found. -/
def checkConflictLoop (m : Mempool ID UTXO Asset) :
    List UTXO → ℕ → Option ID → List (Tx ID UTXO Asset) →
      Except String (ℕ × Option ID × List (Tx ID UTXO Asset))
  | [], highestGasPrice, highestID, conflictingTxs => .ok (highestGasPrice, highestID, conflictingTxs)
  | utxoID :: utxoIDs, highestGasPrice, highestID, conflictingTxs =>
    match m.utxoSpenders.lookup utxoID with
    | none => checkConflictLoop m utxoIDs highestGasPrice highestID conflictingTxs
    | some conflictTx =>
      match m.atomicTxGasPrice conflictTx with
      | .error err => .error err
      | .ok conflictTxGasPrice =>
        if highestGasPrice < conflictTxGasPrice then
          checkConflictLoop m utxoIDs conflictTxGasPrice (some conflictTx.id)
            (conflictingTxs ++ [conflictTx])
        else
          checkConflictLoop m utxoIDs highestGasPrice highestID (conflictingTxs ++ [conflictTx])

/-- `checkConflictTx(tx)`. -/
def checkConflictTx (m : Mempool ID UTXO Asset) (tx : Tx ID UTXO Asset) :
    Except String (ℕ × Option ID × List (Tx ID UTXO Asset)) :=
  m.checkConflictLoop tx.inputUTXOs 0 none []

/-- The first three checks of `addTx`: where, if anywhere, the mempool already holds `txID`. -/
def knownAt (m : Mempool ID UTXO Asset) (txID : ID) : Option KnownAt :=
  if txID ∈ m.issuedTxs then some .issued
  else if txID ∈ m.currentTxs then some .current
  else if m.txHeap.has txID then some .pending
  else none

/-- The verification of `addTx`, skipped when forced or when `verify` is nil. -/
def verifyTx (m : Mempool ID UTXO Asset) (tx : Tx ID UTXO Asset) (force : Bool) :
    Except String Unit :=
  match m.verify with
  | some verify => if force then .ok () else verify tx
  | none => .ok ()

/-- `addPending()`: the channel holds an item afterwards, whether or not it did before. -/
def addPending (m : Mempool ID UTXO Asset) : Mempool ID UTXO Asset := { m with pending := true }

/-- The end of `addTx`, once every check has passed: forget a discarded copy, push `tx` on the
heap, make it the spender of its inputs, add it to the bloom filter (refilled from the pending
transactions when it is reset), and signal `Pending`. -/
def addTxPush (m : Mempool ID UTXO Asset) (tx : Tx ID UTXO Asset) (gasPrice : ℕ) :
    Mempool ID UTXO Asset :=
  let txID := tx.id
  let discardedTxs :=
    match m.discardedTxs.get txID with
    | (some _, discardedTxs) => discardedTxs.evict txID
    | (none, discardedTxs) => discardedTxs
  let m := { m with
    discardedTxs
    txHeap := m.txHeap.push tx gasPrice
    utxoSpenders := tx.inputUTXOs.foldl (fun spenders u => spenders.insert u tx) m.utxoSpenders }
  let (reset, bloom) :=
    (m.bloom.add txID).ResetBloomFilterIfNeeded (m.length * txGossipBloomChurnMultiplier)
  let bloom :=
    if reset then m.txHeap.minHeap.items.foldl (fun bloom e => bloom.add e.tx.id) bloom else bloom
  { m with bloom }.addPending

/-- The size check of `addTx` and what follows it: a full mempool evicts its cheapest pending
transaction if `tx` pays more, and refuses `tx` otherwise. -/
def addTxSized (m : Mempool ID UTXO Asset) (tx : Tx ID UTXO Asset) (gasPrice : ℕ) :
    Except (AddTxError ID) Unit × Mempool ID UTXO Asset :=
  if m.maxSize ≤ m.length then
    if h : 0 < m.txHeap.len then
      let (minTx, minGasPrice) := m.txHeap.peekMin h
      if gasPrice ≤ minGasPrice then (.error (.insufficientAtomicTxFee minGasPrice gasPrice), m)
      else (.ok (), (m.removeTx minTx true).addTxPush tx gasPrice)
    else (.error .tooManyAtomicTx, m)
  else (.ok (), m.addTxPush tx gasPrice)

/-- `addTx(tx, force)`. The conflicts `tx` outbids are removed before the size check, and stay
removed when that check refuses `tx`. -/
def addTx (m : Mempool ID UTXO Asset) (tx : Tx ID UTXO Asset) (force : Bool) :
    Except (AddTxError ID) Unit × Mempool ID UTXO Asset :=
  match m.knownAt tx.id with
  | some knownAt => (.error (.txAlreadyKnown tx.id knownAt), m)
  | none =>
    match m.verifyTx tx force with
    | .error err => (.error (.verify err), m)
    | .ok () =>
      -- `gasPrice, _ := m.atomicTxGasPrice(tx)`: a price that fails to compute counts as 0
      let gasPrice := (m.atomicTxGasPrice tx).toOption.getD 0
      match m.checkConflictTx tx with
      | .error err => (.error (.conflictGasPrice err), m)
      | .ok (highestGasPrice, highestID, conflictingTxs) =>
        if conflictingTxs ≠ [] ∧ force = false then
          if gasPrice ≤ highestGasPrice then
            (.error (.conflictingAtomicTx tx.id gasPrice highestID highestGasPrice
              conflictingTxs.length), m)
          else
            (conflictingTxs.foldl (fun m conflictTx => m.removeTx conflictTx true) m).addTxSized
              tx gasPrice
        else m.addTxSized tx gasPrice

/-- `Add(tx)`, the gossip entry point: a refused transaction other than a known one is recorded
as discarded, and every error is returned. -/
def Add (m : Mempool ID UTXO Asset) (tx : Tx ID UTXO Asset) :
    Except (AddTxError ID) Unit × Mempool ID UTXO Asset :=
  match m.addTx tx false with
  | (.error err, m) =>
    if err.IsTxAlreadyKnown then (.error err, m)
    else (.error err, { m with discardedTxs := m.discardedTxs.put tx.id tx })
  | (.ok (), m) => (.ok (), m)

/-- `AddTx(tx)`: like `Add`, but a known transaction is no error. -/
def AddTx (m : Mempool ID UTXO Asset) (tx : Tx ID UTXO Asset) :
    Except (AddTxError ID) Unit × Mempool ID UTXO Asset :=
  match m.addTx tx false with
  | (.error err, m) =>
    if err.IsTxAlreadyKnown then (.ok (), m)
    else (.error err, { m with discardedTxs := m.discardedTxs.put tx.id tx })
  | (.ok (), m) => (.ok (), m)

/-- `AddLocalTx(tx)`: a refused local transaction is not recorded as discarded. -/
def AddLocalTx (m : Mempool ID UTXO Asset) (tx : Tx ID UTXO Asset) :
    Except (AddTxError ID) Unit × Mempool ID UTXO Asset :=
  match m.addTx tx false with
  | (.error err, m) => if err.IsTxAlreadyKnown then (.ok (), m) else (.error err, m)
  | (.ok (), m) => (.ok (), m)

/-- `ForceAddTx(tx)`: no verification and no conflict check, and never an error. -/
def ForceAddTx (m : Mempool ID UTXO Asset) (tx : Tx ID UTXO Asset) :
    Except (AddTxError ID) Unit × Mempool ID UTXO Asset :=
  (.ok (), (m.addTx tx true).2)

/-! ## Building blocks -/

/-- `NextTx()`: the most expensive pending transaction becomes current. `PopMax` of a heap that
is not empty always returns a transaction (`popMax_fst_eq_some`); the second branch, a nil
pointer in the source, is never taken. -/
def NextTx (m : Mempool ID UTXO Asset) : Option (Tx ID UTXO Asset) × Mempool ID UTXO Asset :=
  if 0 < m.txHeap.len then
    match m.txHeap.popMax with
    | (some tx, txHeap) => (some tx, { m with txHeap, currentTxs := m.currentTxs.insert tx.id tx })
    | (none, _) => (none, m)
  else (none, m)

omit [DecidableEq UTXO] in
/-- A transaction `NextTx` returns leaves the heap. -/
theorem len_NextTx {m m' : Mempool ID UTXO Asset} {tx : Tx ID UTXO Asset}
    (h : m.NextTx = (some tx, m')) : m'.txHeap.len + 1 = m.txHeap.len := by
  unfold NextTx at h
  split_ifs at h
  · split at h
    · next txHeap hpop =>
      obtain ⟨-, rfl⟩ := Prod.mk.inj h
      exact TxHeap.len_popMax hpop
    · cases h
  · cases h

/-- `IssueCurrentTxs()`: every current transaction becomes issued. -/
def IssueCurrentTxs (m : Mempool ID UTXO Asset) : Mempool ID UTXO Asset :=
  let m := m.currentTxs.entries.foldl
    (fun m e => { m with issuedTxs := m.issuedTxs.insert e.1 e.2,
                         currentTxs := m.currentTxs.erase e.1 }) m
  if 0 < m.txHeap.len then m.addPending else m

/-- `cancelTx(tx)`: a current transaction goes back on the heap, with no size check; one whose
gas price fails to compute is discarded instead. -/
def cancelTx (m : Mempool ID UTXO Asset) (tx : Tx ID UTXO Asset) : Mempool ID UTXO Asset :=
  let m :=
    match m.atomicTxGasPrice tx with
    | .ok gasPrice => { m with txHeap := m.txHeap.push tx gasPrice }
    | .error _ => { m.removeSpenders tx with discardedTxs := m.discardedTxs.put tx.id tx }
  { m with currentTxs := m.currentTxs.erase tx.id }

/-- `CancelCurrentTx(txID)`. -/
def CancelCurrentTx (m : Mempool ID UTXO Asset) (txID : ID) : Mempool ID UTXO Asset :=
  match m.currentTxs.lookup txID with
  | some tx => m.cancelTx tx
  | none => m

/-- `CancelCurrentTxs()`. -/
def CancelCurrentTxs (m : Mempool ID UTXO Asset) : Mempool ID UTXO Asset :=
  let m := m.currentTxs.entries.foldl (fun m e => m.cancelTx e.2) m
  if 0 < m.txHeap.len then m.addPending else m

/-- `discardCurrentTx(tx)`. -/
def discardCurrentTx (m : Mempool ID UTXO Asset) (tx : Tx ID UTXO Asset) : Mempool ID UTXO Asset :=
  let m := m.removeSpenders tx
  { m with discardedTxs := m.discardedTxs.put tx.id tx, currentTxs := m.currentTxs.erase tx.id }

/-- `DiscardCurrentTx(txID)`. -/
def DiscardCurrentTx (m : Mempool ID UTXO Asset) (txID : ID) : Mempool ID UTXO Asset :=
  match m.currentTxs.lookup txID with
  | some tx => m.discardCurrentTx tx
  | none => m

@[simp] theorem txHeap_DiscardCurrentTx (m : Mempool ID UTXO Asset) (txID : ID) :
    (m.DiscardCurrentTx txID).txHeap = m.txHeap := by
  unfold DiscardCurrentTx
  split <;> rfl

/-- `DiscardCurrentTxs()`. -/
def DiscardCurrentTxs (m : Mempool ID UTXO Asset) : Mempool ID UTXO Asset :=
  m.currentTxs.entries.foldl (fun m e => m.discardCurrentTx e.2) m

end Mempool

/-! ## Runs -/

/-- A call of an exported method that changes the mempool. -/
inductive MempoolCall (ID UTXO Asset : Type*)
  | add (tx : Tx ID UTXO Asset)
  | addTx (tx : Tx ID UTXO Asset)
  | addLocalTx (tx : Tx ID UTXO Asset)
  | forceAddTx (tx : Tx ID UTXO Asset)
  | nextTx
  | issueCurrentTxs
  | cancelCurrentTx (txID : ID)
  | cancelCurrentTxs
  | discardCurrentTx (txID : ID)
  | discardCurrentTxs
  | removeTx (tx : Tx ID UTXO Asset)
  | getTx (txID : ID)
  | has (txID : ID)

namespace Mempool

variable [DecidableEq ID] [DecidableEq UTXO]

/-- The state after one call. -/
def call (m : Mempool ID UTXO Asset) : MempoolCall ID UTXO Asset → Mempool ID UTXO Asset
  | .add tx => (m.Add tx).2
  | .addTx tx => (m.AddTx tx).2
  | .addLocalTx tx => (m.AddLocalTx tx).2
  | .forceAddTx tx => (m.ForceAddTx tx).2
  | .nextTx => m.NextTx.2
  | .issueCurrentTxs => m.IssueCurrentTxs
  | .cancelCurrentTx txID => m.CancelCurrentTx txID
  | .cancelCurrentTxs => m.CancelCurrentTxs
  | .discardCurrentTx txID => m.DiscardCurrentTx txID
  | .discardCurrentTxs => m.DiscardCurrentTxs
  | .removeTx tx => m.RemoveTx tx
  | .getTx txID => (m.GetTx txID).2
  | .has txID => (m.Has txID).2

/-- The state after a sequence of calls. -/
def calls (m : Mempool ID UTXO Asset) (cs : List (MempoolCall ID UTXO Asset)) :
    Mempool ID UTXO Asset :=
  cs.foldl call m

/-- A transaction with the given ID spending the given UTXOs, with gas price 1. -/
def sampleTx (id : ℕ) (utxos : List ℕ) : Tx ℕ ℕ Unit := ⟨id, utxos, .ok 1, fun _ => .ok 1⟩

/-- A mempool of size one ends up holding two transactions: a transaction taken by `NextTx` no
longer counts, so `AddTx` accepts another, and `CancelCurrentTx` puts the first one back with
no size check. -/
theorem cancelCurrentTx_exceeds_maxSize :
    let m : Mempool ℕ ℕ Unit := NewMempool () 1 none fun _ => 0
    m.maxSize = 1 ∧
      (m.calls [.addTx (sampleTx 1 [7]), .nextTx, .addTx (sampleTx 2 [8]),
        .cancelCurrentTx 1]).length = 2 := by
  decide

/-! ## Refused additions -/

/-- `addTxSized` refuses only at its size check, and leaves the mempool as it was. -/
theorem addTxSized_error {m m' : Mempool ID UTXO Asset} {tx : Tx ID UTXO Asset} {gasPrice : ℕ}
    {e : AddTxError ID} (h : m.addTxSized tx gasPrice = (.error e, m')) :
    m' = m ∧ ((∃ currentMin, e = .insufficientAtomicTxFee currentMin gasPrice) ∨
      e = .tooManyAtomicTx) := by
  unfold addTxSized at h
  split at h
  next =>
    split at h
    next =>
      split at h
      next minGasPrice _ =>
        split at h
        next =>
          obtain ⟨he, rfl⟩ := Prod.mk.inj h
          exact ⟨rfl, .inl ⟨minGasPrice, (Except.error.inj he).symm⟩⟩
        next => simp at h
    next =>
      obtain ⟨he, rfl⟩ := Prod.mk.inj h
      exact ⟨rfl, .inr (Except.error.inj he).symm⟩
  next => simp at h

/-- What a refused `addTx` leaves: the mempool as it was, unless the transaction outbid its
conflicts and the size check then refused it. The conflicts are removed, and stay removed. -/
theorem addTx_error {m m' : Mempool ID UTXO Asset} {tx : Tx ID UTXO Asset} {force : Bool}
    {e : AddTxError ID} (h : m.addTx tx force = (.error e, m')) :
    m' = m ∨ ∃ highestGasPrice highestID conflictingTxs,
      m.checkConflictTx tx = .ok (highestGasPrice, highestID, conflictingTxs) ∧
        conflictingTxs ≠ [] ∧ force = false ∧
        m' = conflictingTxs.foldl (fun m conflictTx => m.removeTx conflictTx true) m := by
  unfold addTx at h
  split at h
  next => exact .inl (Prod.mk.inj h).2.symm
  next =>
    split at h
    next => exact .inl (Prod.mk.inj h).2.symm
    next =>
      -- the gas price is bound once, before the conflict check
      dsimp only at h
      split at h
      next => exact .inl (Prod.mk.inj h).2.symm
      next highestGasPrice highestID conflictingTxs hconflict =>
        split at h
        next hforce =>
          split at h
          next => exact .inl (Prod.mk.inj h).2.symm
          next =>
            exact .inr ⟨highestGasPrice, highestID, conflictingTxs, hconflict, hforce.1, hforce.2,
              (addTxSized_error h).1⟩
        next => exact .inl (addTxSized_error h).1

/-- A refused transaction that conflicts with nothing leaves the mempool as it was. -/
theorem addTx_error_of_no_conflicts {m m' : Mempool ID UTXO Asset} {tx : Tx ID UTXO Asset}
    {force : Bool} {e : AddTxError ID} (h : m.addTx tx force = (.error e, m'))
    (hfree : ∀ highestGasPrice highestID conflictingTxs,
      m.checkConflictTx tx = .ok (highestGasPrice, highestID, conflictingTxs) →
        conflictingTxs = []) :
    m' = m := by
  rcases addTx_error h with h | ⟨_, _, _, hconflict, hne, -, -⟩
  · exact h
  · exact absurd (hfree _ _ _ hconflict) hne

/-- `AddTx` of a transaction that conflicts with nothing, when it is refused, only records it as
discarded. -/
theorem AddTx_error_of_no_conflicts {m m' : Mempool ID UTXO Asset} {tx : Tx ID UTXO Asset}
    {e : AddTxError ID} (h : m.AddTx tx = (.error e, m'))
    (hfree : ∀ highestGasPrice highestID conflictingTxs,
      m.checkConflictTx tx = .ok (highestGasPrice, highestID, conflictingTxs) →
        conflictingTxs = []) :
    m' = { m with discardedTxs := m.discardedTxs.put tx.id tx } := by
  unfold AddTx at h
  split at h
  next e' m'' hadd =>
    split at h
    next => simp at h
    next =>
      obtain ⟨-, rfl⟩ := Prod.mk.inj h
      rw [addTx_error_of_no_conflicts hadd hfree]
  next => simp at h

/-- A transaction with the given ID spending the given UTXOs, with one unit of gas and the given
burn of every asset, so that its gas price is the burn. -/
def sampleFeeTx (id : ℕ) (utxos : List ℕ) (burned : ℕ) : Tx ℕ ℕ Unit :=
  ⟨id, utxos, .ok 1, fun _ => .ok burned⟩

/-- A refused `AddTx` can still change the mempool. The first transaction is current, and the
third outbids it for UTXO 7, so `addTx` removes it, with its spender entry, before the size
check; the mempool is full of a pending transaction that pays more, and the size check refuses
the third transaction. The first transaction is then neither current nor pending. -/
theorem addTx_refused_after_evicting_current_conflict :
    let m : Mempool ℕ ℕ Unit := (NewMempool () 1 none fun _ => 0).calls
      [.addTx (sampleFeeTx 1 [7] 1), .nextTx, .addTx (sampleFeeTx 2 [8] 5)]
    (m.AddTx (sampleFeeTx 3 [7] 3)).1 = .error (.insufficientAtomicTxFee 5 3) ∧
      m.currentTxs.keys = [1] ∧ (m.AddTx (sampleFeeTx 3 [7] 3)).2.currentTxs.keys = [] ∧
      (m.utxoSpenders.lookup 7).map Tx.id = some 1 ∧
      ((m.AddTx (sampleFeeTx 3 [7] 3)).2.utxoSpenders.lookup 7).map Tx.id = none := by
  decide

/-! ## What the mempool is meant to keep -/

/-- The transactions the mempool holds: pending, current and issued. -/
def heldTxs (m : Mempool ID UTXO Asset) : List (Tx ID UTXO Asset) :=
  m.txHeap.maxHeap.items.map TxEntry.tx ++ m.currentTxs.entries.map Sigma.snd ++
    m.issuedTxs.entries.map Sigma.snd

/-- No ID is held twice, so the pending, current and issued IDs are pairwise disjoint. -/
def IdsDisjoint (m : Mempool ID UTXO Asset) : Prop := (m.heldTxs.map Tx.id).Nodup

/-- No two held transactions share an input. -/
def InputsDisjoint (m : Mempool ID UTXO Asset) : Prop :=
  m.heldTxs.Pairwise fun t t' => ∀ u ∈ t.inputUTXOs, u ∉ t'.inputUTXOs

/-- `utxoSpenders` maps exactly the inputs of the held transactions, each to its spender. -/
def SpendersExact (m : Mempool ID UTXO Asset) : Prop :=
  ∀ u t, m.utxoSpenders.lookup u = some t ↔ t ∈ m.heldTxs ∧ u ∈ t.inputUTXOs

/-- The conflict invariant of the mempool. -/
structure ConflictFree (m : Mempool ID UTXO Asset) : Prop where
  ids : IdsDisjoint m
  inputs : InputsDisjoint m
  spenders : SpendersExact m

omit [DecidableEq UTXO] in
@[simp] theorem heldTxs_NewMempool (juneAssetID : Asset) (maxSize : ℕ)
    (verify : Option (Tx ID UTXO Asset → Except String Unit)) (maxCountFor : ℕ → ℕ) :
    (NewMempool juneAssetID maxSize verify maxCountFor : Mempool ID UTXO Asset).heldTxs = [] :=
  rfl

theorem conflictFree_NewMempool (juneAssetID : Asset) (maxSize : ℕ)
    (verify : Option (Tx ID UTXO Asset → Except String Unit)) (maxCountFor : ℕ → ℕ) :
    (NewMempool juneAssetID maxSize verify maxCountFor : Mempool ID UTXO Asset).ConflictFree where
  ids := by simp [IdsDisjoint]
  inputs := by simp [InputsDisjoint]
  spenders := by
    intro u t
    rw [heldTxs_NewMempool]
    simp [NewMempool]

omit [DecidableEq ID] [DecidableEq UTXO] in
theorem inputsDisjoint_iff (m : Mempool ID UTXO Asset) :
    m.InputsDisjoint ↔
      (m.heldTxs.map Tx.inputUTXOs).Pairwise fun us us' => ∀ u ∈ us, u ∉ us' := by
  rw [InputsDisjoint, List.pairwise_map]

/-- `RemoveTx` of a transaction the mempool does not hold, but which spends an input of one it
holds, deletes that input from `utxoSpenders`; a later `AddTx` of a third transaction spending
it then finds no conflict, and the mempool holds two transactions spending one UTXO. -/
theorem removeTx_of_conflicting_tx_breaks_conflictFree :
    let m : Mempool ℕ ℕ Unit := NewMempool () 10 none fun _ => 0
    m.ConflictFree ∧
      ¬ (m.calls [.addTx (sampleTx 1 [7]), .removeTx (sampleTx 2 [7])]).SpendersExact ∧
      ¬ (m.calls [.addTx (sampleTx 1 [7]), .removeTx (sampleTx 2 [7]),
        .addTx (sampleTx 3 [7])]).InputsDisjoint := by
  intro m
  refine ⟨conflictFree_NewMempool _ _ _ _, ?_, ?_⟩
  · -- the first transaction is still held, but its input has no spender
    intro hspenders
    have hheld : (m.calls [.addTx (sampleTx 1 [7]), .removeTx (sampleTx 2 [7])]).heldTxs.map
        Tx.inputUTXOs = [[7]] := by decide
    have hlookup : (m.calls [.addTx (sampleTx 1 [7]),
        .removeTx (sampleTx 2 [7])]).utxoSpenders.lookup 7 = none := by
      rw [← Option.isNone_iff_eq_none]
      decide
    obtain ⟨t, ht, hinputs⟩ := List.mem_map.mp (hheld ▸ List.mem_singleton_self [7])
    have := (hspenders 7 t).mpr ⟨ht, by simp [hinputs]⟩
    rw [hlookup] at this
    exact absurd this (by simp)
  · -- both transactions spending UTXO 7 are held
    have hheld : (m.calls [.addTx (sampleTx 1 [7]), .removeTx (sampleTx 2 [7]),
        .addTx (sampleTx 3 [7])]).heldTxs.map Tx.inputUTXOs = [[7], [7]] := by decide
    rw [inputsDisjoint_iff, hheld]
    simp

end Mempool

end Jeth
