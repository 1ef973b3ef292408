import Jeth.Lib.Ancestry
import Jeth.Evm.AtomicRepository

/-!
# The chain of blocks and its atomic transactions

The VM of `plugin/evm/vm.go` and `plugin/evm/block.go`, as far as it decides which atomic
transactions a chain of blocks may hold. `Block.Verify` checks that the UTXOs of the block's
imports are in shared memory (`verifyUTXOsPresent`) and inserts the block on its parent's state
(`InsertBlockManual`). The insertion runs `onExtraStateChange`, and with it `verifyTxs`, which
semantically verifies every atomic transaction against the parent and refuses two that spend
one input. An import's `SemanticVerify` fetches its UTXOs from shared memory and walks the
processing ancestors with `conflicts`. An export's checks that its credentials sign for its
inputs, and its state transfer checks and bumps their nonces. `Accept`, on a processing block
whose parent is the last accepted one, applies the block's atomic operations to shared memory,
except for a bonus block; `Reject` marks a processing block rejected. A peer chain putting a
UTXO into shared memory is an event of its own.

What the VM calls outside this repository is a field of `ChainEnv`:
* the syntactic and predicate checks of a block;
* the checks of an import's transfers against its UTXOs;
* the address a credential recovers to;
* the execution of the block's Ethereum transactions, with one law: it never lowers the nonce of
  an address that signs.

Shared memory is seen from this chain: the values the peers have put for it and the keys it
has removed, which never come back. A UTXO's ID names the one chain whose memory may hold it
(`sourceOf`).
-/

namespace Jeth

variable {ID Address Owner : Type} [LinearOrder ID] [LinearOrder Address]

/-! ## What the chain reads of an atomic transaction -/

/-- `InputUTXOs()` of the unsigned transaction. -/
def UnsignedAtomicTx.InputUTXOs (ctx : AtomicContext ID Address Owner) :
    UnsignedAtomicTx ID Address Owner → List ID
  | .importTx utx => utx.InputUTXOs ctx
  | .exportTx utx => utx.InputUTXOs ctx

/-- `EVMStateTransfer(ctx, state)` of the unsigned transaction. -/
def UnsignedAtomicTx.EVMStateTransfer (ctx : AtomicContext ID Address Owner) :
    UnsignedAtomicTx ID Address Owner → EVMState ID Address → Except String (EVMState ID Address)
  | .importTx utx => utx.EVMStateTransfer ctx
  | .exportTx utx => utx.EVMStateTransfer ctx

namespace UnsignedImportTx

variable (ctx : AtomicContext ID Address Owner)

/-- Once bootstrapped, an import passes `SemanticVerify` only if its checks against shared
memory and the ancestors pass. -/
theorem utxoChecks_of_SemanticVerify [CheckedArith] [FlowChecker ID] {Cred : Type}
    {utxoChecks : Except String Unit} {utx : UnsignedImportTx ID Address} {creds : List Cred}
    {baseFee : Option ℕ} {rules : Rules}
    (h : utx.SemanticVerify ctx true utxoChecks creds baseFee rules = .ok ()) :
    utxoChecks = .ok () := by
  unfold SemanticVerify at h
  obtain ⟨_, -, h⟩ := except_bind_eq_ok.mp h
  obtain ⟨fee, -, h⟩ := except_bind_eq_ok.mp h
  -- a rejecting flow check throws, and nothing after it runs
  cases hflow : FlowChecker.verify (fee ++ utx.outAmounts) utx.inAmounts with
  | error err => simp [hflow] at h
  | ok u =>
    simp only [hflow] at h
    split_ifs at h
    · simp at h
    · simpa using h

/-- The credits of an import leave every nonce alone. -/
theorem nonce_foldl_credit (outs : List (EVMOutput ID Address)) (s : EVMState ID Address) :
    (outs.foldl (fun s out =>
      if out.assetID = ctx.chainAssetID then s.addBalance out.address (out.amount * x2cRate)
      else s.addBalanceMultiCoin out.address out.assetID out.amount) s).nonce = s.nonce := by
  induction outs generalizing s with
  | nil => rfl
  | cons out outs ih =>
    rw [List.foldl_cons, ih]
    split_ifs <;> rfl

/-- An import's state transfer leaves every nonce alone. -/
theorem nonce_EVMStateTransfer {utx : UnsignedImportTx ID Address} {s s' : EVMState ID Address}
    (h : utx.EVMStateTransfer ctx s = .ok s') : s'.nonce = s.nonce := by
  cases h
  exact nonce_foldl_credit ctx utx.outs s

end UnsignedImportTx

namespace UnsignedExportTx

variable (ctx : AtomicContext ID Address Owner)

/-- An export passes `SemanticVerify` only with one credential per input, each recovering to its
input's address. -/
theorem verifyCreds_of_SemanticVerify [CheckedArith] [FlowChecker ID] {Cred : Type}
    {credAddress : Cred → Except String Address} {utx : UnsignedExportTx ID Address Owner}
    {creds : List Cred} {baseFee : Option ℕ} {rules : Rules}
    (h : utx.SemanticVerify ctx credAddress creds baseFee rules = .ok ()) :
    utx.ins.length = creds.length ∧ verifyCreds credAddress utx.ins creds = .ok () := by
  unfold SemanticVerify at h
  obtain ⟨_, -, h⟩ := except_bind_eq_ok.mp h
  obtain ⟨fee, -, h⟩ := except_bind_eq_ok.mp h
  cases hflow : FlowChecker.verify (fee ++ utx.outAmounts) utx.inAmounts with
  | error err => simp [hflow] at h
  | ok u =>
    simp only [hflow] at h
    split_ifs at h with hlen
    · simp at h
    · exact ⟨not_not.mp hlen, h⟩

omit [LinearOrder ID] in
/-- With as many credentials as inputs, `verifyCreds` passes only if a credential signs for each
input's address. -/
theorem signer_of_verifyCreds {Cred : Type} (credAddress : Cred → Except String Address) :
    ∀ (ins : List (EVMInput ID Address)) (creds : List Cred), ins.length = creds.length →
      verifyCreds credAddress ins creds = .ok () →
      ∀ input ∈ ins, ∃ cred, credAddress cred = .ok input.address
  | [], _, _, _ => by simp
  | _ :: _, [], hlen, _ => by simp at hlen
  | input :: ins, cred :: creds, hlen, h => by
    unfold verifyCreds at h
    obtain ⟨address, haddress, h⟩ := except_bind_eq_ok.mp h
    split_ifs at h with hne
    · simp at h
    have heq : input.address = address := not_not.mp hne
    intro input' hmem
    rcases List.mem_cons.mp hmem with rfl | hmem
    · exact ⟨cred, heq ▸ haddress⟩
    · exact signer_of_verifyCreds credAddress ins creds (by simpa using hlen) (by simpa using h)
        input' hmem

/-- The loop of `EVMStateTransfer` keeps the nonces of the state, finds each input naming its
address's nonce, and records that nonce for each input's address. -/
theorem nonce_transferLoop : ∀ (ins : List (EVMInput ID Address)) (s : EVMState ID Address)
    (addrs : AList fun _ : Address => ℕ) {s₁ : EVMState ID Address}
    {addrs₁ : AList fun _ : Address => ℕ}, transferLoop ctx ins s addrs = .ok (s₁, addrs₁) →
    s₁.nonce = s.nonce ∧ (∀ input ∈ ins, s.nonce input.address = input.nonce) ∧
      ∀ a, addrs₁.lookup a =
        if a ∈ ins.map EVMInput.address then some (s.nonce a) else addrs.lookup a
  | [], s, addrs, _, _, h => by
    cases h
    simp
  | input :: ins, s, addrs, s₁, addrs₁, h => by
    simp only [transferLoop] at h
    split at h
    · cases h
    · next sd hdebit =>
      -- a debit touches balances only
      have hsd : sd.nonce = s.nonce := by
        split_ifs at hdebit <;> cases hdebit <;> rfl
      split_ifs at h with hnonce
      have hin : s.nonce input.address = input.nonce := by rw [← hsd]; exact not_not.mp hnonce
      obtain ⟨hs₁, hins, hlookup⟩ := nonce_transferLoop ins sd _ h
      refine ⟨hs₁.trans hsd, ?_, fun a => ?_⟩
      · intro input' hmem
        rcases List.mem_cons.mp hmem with rfl | hmem
        · exact hin
        · rw [← hsd]; exact hins input' hmem
      · rw [hlookup a, hsd]
        by_cases ha : a = input.address
        · subst ha
          split_ifs <;> simp_all
        · simp [ha, AList.lookup_insert_ne ha]

omit [LinearOrder ID] in
/-- Bumping the nonces of the recorded addresses, an entry each. -/
theorem nonce_foldl_setNonce : ∀ (entries : List (Sigma fun _ : Address => ℕ)),
    entries.NodupKeys → ∀ (s : EVMState ID Address) (a : Address),
    (entries.foldl (fun s e => s.setNonce e.1 (e.2 + 1)) s).nonce a =
      ((entries.dlookup a).map (· + 1)).getD (s.nonce a)
  | [], _, s, a => rfl
  | ⟨k, n⟩ :: entries, hnodup, s, a => by
    rw [List.nodupKeys_cons] at hnodup
    rw [List.foldl_cons, nonce_foldl_setNonce entries hnodup.2]
    by_cases ha : a = k
    · -- the key `k` is not among the later entries
      subst ha
      have hnone : entries.dlookup a = none := List.dlookup_eq_none.mpr hnodup.1
      simp [hnone, List.dlookup_cons_eq, EVMState.setNonce]
    · simp [List.dlookup_cons_ne entries ⟨k, n⟩ ha, EVMState.setNonce, Function.update_of_ne ha]

/-- An export's state transfer: each input names its address's nonce, and the nonce of each
input's address goes up by one. -/
theorem nonce_EVMStateTransfer {utx : UnsignedExportTx ID Address Owner}
    {s s' : EVMState ID Address} (h : utx.EVMStateTransfer ctx s = .ok s') :
    (∀ input ∈ utx.ins, s.nonce input.address = input.nonce) ∧
      ∀ a, s'.nonce a = if a ∈ utx.ins.map EVMInput.address then s.nonce a + 1 else s.nonce a := by
  unfold EVMStateTransfer at h
  split at h
  · cases h
  · next s₁ addrs hloop =>
    cases h
    obtain ⟨hs₁, hins, hlookup⟩ := nonce_transferLoop ctx utx.ins s ∅ hloop
    refine ⟨hins, fun a => ?_⟩
    have hentries : addrs.entries.dlookup a = addrs.lookup a := rfl
    rw [nonce_foldl_setNonce addrs.entries addrs.nodupKeys, hentries, hlookup a, hs₁]
    split_ifs <;> simp

end UnsignedExportTx

namespace UnsignedAtomicTx

variable (ctx : AtomicContext ID Address Owner)

/-- An atomic transaction's state transfer never lowers a nonce, and raises the nonce each input
of an export names. -/
theorem nonce_EVMStateTransfer {tx : UnsignedAtomicTx ID Address Owner}
    {s s' : EVMState ID Address} (h : tx.EVMStateTransfer ctx s = .ok s') :
    (∀ a, s.nonce a ≤ s'.nonce a) ∧
      ∀ utx, tx = .exportTx utx → ∀ input ∈ utx.ins,
        s.nonce input.address = input.nonce ∧ input.nonce < s'.nonce input.address := by
  cases tx with
  | importTx utx =>
    have hnonce := UnsignedImportTx.nonce_EVMStateTransfer ctx h
    exact ⟨fun a => by rw [hnonce], fun _ h => by cases h⟩
  | exportTx utx =>
    obtain ⟨hins, hnonce⟩ := UnsignedExportTx.nonce_EVMStateTransfer ctx h
    refine ⟨fun a => ?_, fun utx' hutx input hmem => ?_⟩
    · rw [hnonce a]
      split_ifs <;> omega
    · cases hutx
      have hmap : input.address ∈ utx.ins.map EVMInput.address := List.mem_map_of_mem hmem
      rw [hnonce input.address, if_pos hmap, ← hins input hmem]
      exact ⟨rfl, Nat.lt_succ_self _⟩

end UnsignedAtomicTx

omit [LinearOrder Address] in
/-- An import removes its UTXOs under its source chain, so the operations `mergeAtomicOps` merges
for a block remove them there too. -/
theorem mem_removeRequests_mergeAtomicOps (hex : ID → String)
    (ctx : AtomicContext ID Address Owner) {txs : List (AtomicTx ID Address Owner)}
    {tx : AtomicTx ID Address Owner} (htx : tx ∈ txs) {utx : UnsignedImportTx ID Address}
    (hutx : tx.unsignedAtomicTx = .importTx utx) {k : ID} (hk : k ∈ utx.InputUTXOs ctx) :
    utx.sourceChain ∈ (mergeAtomicOps hex ctx txs).chains ∧
      k ∈ ((mergeAtomicOps hex ctx txs).requests utx.sourceChain).removeRequests := by
  have hmem : tx ∈ sortedTxs hex txs := (sortedTxs_perm hex txs).mem_iff.mpr htx
  obtain ⟨pre, post, hsplit⟩ := List.append_of_mem hmem
  unfold mergeAtomicOps
  rw [hsplit, List.foldl_append, List.foldl_cons]
  -- the merge only adds chains and appends requests, so what one transaction adds stays
  refine List.foldlRecOn (motive := fun output : AtomicOpsMap ID ID _ =>
    utx.sourceChain ∈ output.chains ∧ k ∈ (output.requests utx.sourceChain).removeRequests)
    post _ ?_ fun output h tx' _ => ?_
  swap
  · rcases tx'.unsignedAtomicTx.AtomicOps ctx tx'.id with ⟨chainID, requests⟩
    simp only [AtomicOpsMap.merge, mergeAtomicOpsToMap_apply, Requests.append_removeRequests]
    constructor
    · split_ifs <;> simp [h.1]
    · exact List.mem_append_left _ h.2
  have hops :
      tx.unsignedAtomicTx.AtomicOps ctx tx.id = (utx.sourceChain, ⟨utx.InputUTXOs ctx, []⟩) := by
    rw [hutx]
    rfl
  simp only [hops, AtomicOpsMap.merge, mergeAtomicOpsToMap_apply, Requests.append_removeRequests]
  constructor
  · split_ifs with h <;> simp [h]
  · exact List.mem_append_right _ hk

namespace AtomicChain

open Ancestry

/-! ## Blocks, shared memory and the VM -/

/-- `choices.Status`. -/
inductive Status
  | Unknown
  | Processing
  | Rejected
  | Accepted
  deriving DecidableEq, Repr

/-- `Tx`: the unsigned transaction with its ID, and its credentials. -/
structure SignedTx (ID Address Owner Cred : Type) where
  tx : AtomicTx ID Address Owner
  creds : List Cred

/-- `tx.InputUTXOs()`. -/
def SignedTx.InputUTXOs {Cred : Type} (ctx : AtomicContext ID Address Owner)
    (atomicTx : SignedTx ID Address Owner Cred) : List ID :=
  atomicTx.tx.unsignedAtomicTx.InputUTXOs ctx

omit [LinearOrder ID] [LinearOrder Address] in
theorem SignedTx.InputUTXOs_of_importTx {Cred : Type} (ctx : AtomicContext ID Address Owner)
    {atomicTx : SignedTx ID Address Owner Cred} {utx : UnsignedImportTx ID Address}
    (h : atomicTx.tx.unsignedAtomicTx = .importTx utx) :
    atomicTx.InputUTXOs ctx = utx.InputUTXOs ctx := by
  rw [SignedTx.InputUTXOs, h]
  rfl

omit [LinearOrder ID] [LinearOrder Address] in
theorem SignedTx.InputUTXOs_of_exportTx {Cred : Type} (ctx : AtomicContext ID Address Owner)
    {atomicTx : SignedTx ID Address Owner Cred} {utx : UnsignedExportTx ID Address Owner}
    (h : atomicTx.tx.unsignedAtomicTx = .exportTx utx) :
    atomicTx.InputUTXOs ctx = utx.InputUTXOs ctx := by
  rw [SignedTx.InputUTXOs, h]
  rfl

/-- What the VM reads of a `Block`: `ID()`, `Parent()`, `Height()`, the header's base fee, the
rules at its number and time, and its atomic transactions. -/
structure Block (ID Address Owner Cred : Type) where
  id : ID
  parent : ID
  height : ℕ
  baseFee : Option ℕ
  rules : Rules
  atomicTxs : List (SignedTx ID Address Owner Cred)

/-- This chain's side of `ctx.SharedMemory`: the value a peer chain has put for it under each
key, and the keys it has removed. A UTXO's ID hashes the transaction that made it, so only one
chain, `sourceOf key`, holds a key. A removed key is gone for good: shared memory keeps it so
that a later put of it is dropped. -/
structure SharedMemory (ID V : Type) (sourceOf : ID → ID) where
  values : ID → ID → Option V
  removed : ID → ID → Bool
  values_source : ∀ c k v, values c k = some v → c = sourceOf k
  values_removed : ∀ c k, removed c k = true → values c k = none

/-- `database.ErrNotFound`. -/
def errNotFound : String := "not found"

namespace SharedMemory

variable {V : Type} {sourceOf : ID → ID} (m : SharedMemory ID V sourceOf)

/-- `Get(peerChainID, keys)`: the values of the keys, or an error for one that is missing. -/
def Get (peerChainID : ID) (keys : List ID) : Except String (List V) :=
  keys.mapM fun key =>
    match m.values peerChainID key with
    | some value => .ok value
    | none => .error errNotFound

/-- The `RemoveRequests` of `peerChainID` applied. -/
def remove (peerChainID : ID) (keys : List ID) : SharedMemory ID V sourceOf where
  values c k := if c = peerChainID ∧ k ∈ keys then none else m.values c k
  removed c k := m.removed c k || decide (c = peerChainID ∧ k ∈ keys)
  values_source c k v h := by
    split_ifs at h
    exact m.values_source c k v h
  values_removed c k h := by
    split_ifs with hk
    · rfl
    · simp only [Bool.or_eq_true, decide_eq_true_eq, hk, or_false] at h
      exact m.values_removed c k h

/-- `Apply(requests, batch)` seen from this chain: the removes of every chain of the map. The
puts go to the peers' side, which this chain does not read. -/
def Apply {E : Type} (requests : AtomicOpsMap ID ID E) : SharedMemory ID V sourceOf :=
  requests.chains.foldl
    (fun m chainID => m.remove chainID (requests.requests chainID).removeRequests) m

/-- A peer chain's `Apply` putting `value` under `key` for this chain; a removed key stays
removed. -/
def Put (key : ID) (value : V) : SharedMemory ID V sourceOf :=
  if hremoved : m.removed (sourceOf key) key = true then m
  else
    { values := fun c k => if c = sourceOf key ∧ k = key then some value else m.values c k
      removed := m.removed
      values_source := fun c k v h => by
        split_ifs at h with hk
        · rw [hk.1, hk.2]
        · exact m.values_source c k v h
      values_removed := fun c k h => by
        split_ifs with hk
        · rw [hk.1, hk.2] at h
          exact absurd h hremoved
        · exact m.values_removed c k h }

omit [LinearOrder ID] in
/-- `Get` succeeds only when every key has a value. -/
theorem values_of_Get {peerChainID : ID} :
    ∀ {keys : List ID} {vs : List V}, m.Get peerChainID keys = .ok vs →
      ∀ k ∈ keys, m.values peerChainID k ≠ none
  | [], _, _ => by simp
  | key :: keys, vs, h => by
    unfold Get at h
    rw [List.mapM_cons] at h
    obtain ⟨value, hvalue, h⟩ := except_bind_eq_ok.mp h
    obtain ⟨values, hvalues, -⟩ := except_bind_eq_ok.mp h
    intro k hk
    rcases List.mem_cons.mp hk with rfl | hk
    · split at hvalue
      · simp_all
      · cases hvalue
    · exact values_of_Get hvalues k hk

@[simp] theorem removed_remove (peerChainID : ID) (keys : List ID) (c k : ID) :
    (m.remove peerChainID keys).removed c k = (m.removed c k || decide (c = peerChainID ∧ k ∈ keys)) :=
  rfl

/-- After `Apply`, the removed keys are those removed before and those the map removes. -/
theorem removed_Apply {E : Type} (requests : AtomicOpsMap ID ID E) (c k : ID) :
    (m.Apply requests).removed c k = true ↔
      m.removed c k = true ∨ (c ∈ requests.chains ∧ k ∈ (requests.requests c).removeRequests) := by
  unfold Apply
  -- the fold over the map's chains, with the memory generalized
  suffices h : ∀ (chains : List ID) (m : SharedMemory ID V sourceOf),
      (chains.foldl (fun m chainID => m.remove chainID (requests.requests chainID).removeRequests)
        m).removed c k = true ↔
        m.removed c k = true ∨ (c ∈ chains ∧ k ∈ (requests.requests c).removeRequests) from
    h requests.chains m
  intro chains
  induction chains with
  | nil => simp
  | cons chainID chains ih =>
    intro m
    rw [List.foldl_cons, ih, removed_remove]
    by_cases hc : c = chainID
    · subst hc
      simp only [Bool.or_eq_true, decide_eq_true_eq, true_and, List.mem_cons, true_or]
      tauto
    · simp [hc]

@[simp] theorem removed_Put (key : ID) (value : V) : (m.Put key value).removed = m.removed := by
  unfold Put
  split_ifs <;> rfl

end SharedMemory

/-- What the VM reads outside this model. -/
structure ChainEnv (ID Address Owner Cred V : Type) where
  ctx : AtomicContext ID Address Owner
  /-- `vm.bootstrapped`. -/
  bootstrapped : Bool
  /-- `ids.ID.Hex()`, by which `Tx.Compare` sorts. -/
  hex : ID → String
  /-- `atomicBackend.IsBonus(height, hash)`. -/
  isBonus : Block ID Address Owner Cred → Bool
  /-- `b.syntacticVerify()`. -/
  syntacticVerify : Block ID Address Owner Cred → Except String Unit
  /-- `b.verifyPredicates(predicateContext)`. -/
  verifyPredicates : Block ID Address Owner Cred → Except String Unit
  /-- The loop of an import's `SemanticVerify` over its UTXOs, given their values in shared
  memory: unmarshal each, check its asset and `fx.VerifyTransfer` it with its credential. -/
  verifyTransfers : UnsignedImportTx ID Address → List Cred → List V → Except String Unit
  /-- The address the one signature of a credential recovers to. -/
  credAddress : Cred → Except String Address
  /-- `processor.Process`: the block's Ethereum transactions on the parent's state. -/
  execute : Block ID Address Owner Cred → EVMState ID Address →
    Except String (EVMState ID Address)
  /-- The EVM never lowers the nonce of an address a credential signs for: such an account is
  owned by a key and has no code that could destroy it. -/
  execute_nonce : ∀ b s s' a, execute b s = .ok s' → (∃ cred, credAddress cred = .ok a) →
    s.nonce a ≤ s'.nonce a

/-- What the VM holds: `GetBlockInternal` and `Status()` of each block ID, the state after each
inserted block, this chain's side of shared memory, and the last accepted block. -/
structure VM (ID Address Owner Cred V : Type) (sourceOf : ID → ID) where
  blocks : ID → Option (Block ID Address Owner Cred)
  status : ID → Status
  states : ID → Option (EVMState ID Address)
  sharedMemory : SharedMemory ID V sourceOf
  lastAccepted : ID

/-- `errRejectedParent`. -/
def errRejectedParent : String := "rejected parent"

/-- `errMissingUTXOs`. -/
def errMissingUTXOs : String := "missing UTXOs"

/-- `consensus.ErrUnknownAncestor`. -/
def ErrUnknownAncestor : String := "unknown ancestor"

/-- `consensus.ErrInvalidNumber`. -/
def ErrInvalidNumber : String := "invalid block number"

/-- The events of a run: the engine verifies, accepts or rejects a block, or a peer chain puts a
UTXO into shared memory. -/
inductive Event (ID Address Owner Cred V : Type)
  | verify (b : Block ID Address Owner Cred)
  | accept (blkID : ID)
  | reject (blkID : ID)
  | put (key : ID) (value : V)

namespace VM

variable {Cred V : Type} {sourceOf : ID → ID} (env : ChainEnv ID Address Owner Cred V)
  [CheckedArith] [FlowChecker ID]

/-! ## Verification -/

/-- The loop of `vm.conflicts(inputs, ancestor)`, with `fuel` blocks left to walk: up from
`ancestor` while it is not accepted, failing on a transaction of a walked block that spends one
of `inputs`. -/
def conflictsLoop (vm : VM ID Address Owner Cred V sourceOf) (inputs : List ID) :
    ℕ → Block ID Address Owner Cred → Except String Unit
  | 0, _ => throw errRejectedParent
  | fuel + 1, ancestor =>
    if vm.status ancestor.id = .Accepted then pure ()
    else if ancestor.atomicTxs.any fun atomicTx => overlaps inputs (atomicTx.InputUTXOs env.ctx)
    then throw errConflictingAtomicInputs
    else
      match vm.blocks ancestor.parent with
      | none => throw errRejectedParent
      | some nextAncestor =>
        if vm.status ancestor.parent = .Unknown ∨ vm.status ancestor.parent = .Rejected then
          throw errRejectedParent
        else conflictsLoop vm inputs fuel nextAncestor

/-- `vm.conflicts(inputs, ancestor)`. The source's walk ends at the first accepted block, at the
latest at the genesis block; the model walks at most the blocks from the ancestor down to
height `0`. -/
def conflicts (vm : VM ID Address Owner Cred V sourceOf) (inputs : List ID)
    (ancestor : Block ID Address Owner Cred) : Except String Unit :=
  vm.conflictsLoop env inputs (ancestor.height + 1) ancestor

/-- What an import's `SemanticVerify` checks once bootstrapped: its UTXOs are in the source
chain's shared memory, its transfers verify against them, and no processing ancestor spends
them. -/
def importUTXOChecks (vm : VM ID Address Owner Cred V sourceOf)
    (parent : Block ID Address Owner Cred) (utx : UnsignedImportTx ID Address)
    (creds : List Cred) : Except String Unit :=
  match vm.sharedMemory.Get utx.sourceChain (utx.InputUTXOs env.ctx) with
  | .error err =>
    throw ("failed to fetch import UTXOs from " ++ env.ctx.idString utx.sourceChain ++
      " due to: " ++ err)
  | .ok allUTXOs => do
    env.verifyTransfers utx creds allUTXOs
    vm.conflicts env (utx.InputUTXOs env.ctx) parent

/-- `utx.SemanticVerify(vm, tx, parent, baseFee, rules)`. -/
def SemanticVerify (vm : VM ID Address Owner Cred V sourceOf)
    (parent : Block ID Address Owner Cred) (atomicTx : SignedTx ID Address Owner Cred)
    (baseFee : Option ℕ) (rules : Rules) : Except String Unit :=
  match atomicTx.tx.unsignedAtomicTx with
  | .importTx utx =>
    utx.SemanticVerify env.ctx env.bootstrapped (vm.importUTXOChecks env parent utx atomicTx.creds)
      atomicTx.creds baseFee rules
  | .exportTx utx => utx.SemanticVerify env.ctx env.credAddress atomicTx.creds baseFee rules

/-- One transaction of the loop of `verifyTxs`, where `inputs` are the inputs of the ones before
it. -/
def verifyTxsStep (vm : VM ID Address Owner Cred V sourceOf)
    (ancestor : Block ID Address Owner Cred) (baseFee : Option ℕ) (height : ℕ) (rules : Rules)
    (inputs : List ID) (atomicTx : SignedTx ID Address Owner Cred) : Except String (List ID) := do
  match vm.SemanticVerify env ancestor atomicTx baseFee rules with
  | .error err =>
    throw ("invalid block due to failed semanatic verify: " ++ err ++ " at height " ++
      toString height)
  | .ok () => pure ()
  let txInputs := atomicTx.InputUTXOs env.ctx
  if overlaps inputs txInputs then throw errConflictingAtomicInputs
  pure (inputs ++ txInputs)

/-- `vm.verifyTxs(txs, parentHash, baseFee, height, rules)`: the parent is a block at the height
below, neither unknown nor rejected, and the transactions verify against it and spend distinct
inputs. -/
def verifyTxs (vm : VM ID Address Owner Cred V sourceOf)
    (txs : List (SignedTx ID Address Owner Cred)) (parentHash : ID) (baseFee : Option ℕ)
    (height : ℕ) (rules : Rules) : Except String Unit :=
  match vm.blocks parentHash with
  | none => throw errRejectedParent
  | some ancestor =>
    if ancestor.height + 1 ≠ height ∨ vm.status parentHash = .Unknown ∨
        vm.status parentHash = .Rejected then
      throw errRejectedParent
    else do
      let _ ← txs.foldlM (vm.verifyTxsStep env ancestor baseFee height rules) []
      pure ()

/-- `b.verifyUTXOsPresent()`: once bootstrapped, and but for a bonus block, the UTXOs every
transaction removes are in shared memory. -/
def verifyUTXOsPresent (vm : VM ID Address Owner Cred V sourceOf)
    (b : Block ID Address Owner Cred) : Except String Unit :=
  if env.isBonus b then pure ()
  else if !env.bootstrapped then pure ()
  else
    b.atomicTxs.forM fun atomicTx =>
      let (chainID, requests) := atomicTx.tx.unsignedAtomicTx.AtomicOps env.ctx atomicTx.tx.id
      match vm.sharedMemory.Get chainID requests.removeRequests with
      | .ok _ => pure ()
      | .error err => throw (errMissingUTXOs ++ ": " ++ err)

/-- The atomic part of `onExtraStateChange(block, state)`: the transactions are verified against
the parent unless the block is a bonus block, and their state transfers applied. -/
def onExtraStateChange (vm : VM ID Address Owner Cred V sourceOf)
    (b : Block ID Address Owner Cred) (state : EVMState ID Address) :
    Except String (EVMState ID Address) := do
  if !env.isBonus b then vm.verifyTxs env b.atomicTxs b.parent b.baseFee b.height b.rules
  b.atomicTxs.foldlM
    (fun state atomicTx => atomicTx.tx.unsignedAtomicTx.EVMStateTransfer env.ctx state) state

/-- The VM with `b` stored, processing, and `state` its state. -/
def insert (vm : VM ID Address Owner Cred V sourceOf) (b : Block ID Address Owner Cred)
    (state : EVMState ID Address) : VM ID Address Owner Cred V sourceOf :=
  { vm with
    blocks := Function.update vm.blocks b.id (some b)
    status := Function.update vm.status b.id .Processing
    states := Function.update vm.states b.id (some state) }

omit [LinearOrder Address] [CheckedArith] [FlowChecker ID] in
@[simp] theorem insert_blocks (vm : VM ID Address Owner Cred V sourceOf)
    (b : Block ID Address Owner Cred) (state : EVMState ID Address) :
    (vm.insert b state).blocks = Function.update vm.blocks b.id (some b) := rfl

omit [LinearOrder Address] [CheckedArith] [FlowChecker ID] in
@[simp] theorem insert_status (vm : VM ID Address Owner Cred V sourceOf)
    (b : Block ID Address Owner Cred) (state : EVMState ID Address) :
    (vm.insert b state).status = Function.update vm.status b.id .Processing := rfl

omit [LinearOrder Address] [CheckedArith] [FlowChecker ID] in
@[simp] theorem insert_states (vm : VM ID Address Owner Cred V sourceOf)
    (b : Block ID Address Owner Cred) (state : EVMState ID Address) :
    (vm.insert b state).states = Function.update vm.states b.id (some state) := rfl

omit [LinearOrder Address] [CheckedArith] [FlowChecker ID] in
@[simp] theorem insert_sharedMemory (vm : VM ID Address Owner Cred V sourceOf)
    (b : Block ID Address Owner Cred) (state : EVMState ID Address) :
    (vm.insert b state).sharedMemory = vm.sharedMemory := rfl

omit [LinearOrder Address] [CheckedArith] [FlowChecker ID] in
@[simp] theorem insert_lastAccepted (vm : VM ID Address Owner Cred V sourceOf)
    (b : Block ID Address Owner Cred) (state : EVMState ID Address) :
    (vm.insert b state).lastAccepted = vm.lastAccepted := rfl

omit [LinearOrder Address] [CheckedArith] [FlowChecker ID] in
/-- Inserting a block whose ID was free keeps every stored block. -/
theorem insert_blocks_of_some {vm : VM ID Address Owner Cred V sourceOf}
    {b : Block ID Address Owner Cred} (state : EVMState ID Address) (hfree : vm.blocks b.id = none)
    {i : ID} {x : Block ID Address Owner Cred} (hx : vm.blocks i = some x) :
    (vm.insert b state).blocks i = some x := by
  have hne : i ≠ b.id := fun heq => by rw [heq, hfree] at hx; cases hx
  rw [insert_blocks, Function.update_of_ne hne, hx]

/-- `blockChain.InsertBlockManual(b.ethBlock, true)`: the header is checked against the parent,
the block runs on the parent's state, and it is then processing with its state. -/
def InsertBlockManual (vm : VM ID Address Owner Cred V sourceOf)
    (b : Block ID Address Owner Cred) : Except String (VM ID Address Owner Cred V sourceOf) :=
  match vm.blocks b.parent, vm.states b.parent with
  | some parent, some parentState =>
    if parent.height + 1 ≠ b.height then throw ErrInvalidNumber
    else do
      let state ← env.execute b parentState
      let state ← vm.onExtraStateChange env b state
      pure (vm.insert b state)
  | _, _ => throw ErrUnknownAncestor

/-- `b.Verify()`. A block already known is left as it is: the source returns at once for a
processing block, and the engine verifies no decided one. -/
def Verify (vm : VM ID Address Owner Cred V sourceOf) (b : Block ID Address Owner Cred) :
    Except String (VM ID Address Owner Cred V sourceOf) := do
  match env.syntacticVerify b with
  | .error err => throw ("syntactic block verification failed: " ++ err)
  | .ok () => pure ()
  vm.verifyUTXOsPresent env b
  if env.bootstrapped then
    match env.verifyPredicates b with
    | .error err => throw ("failed to verify predicates: " ++ err)
    | .ok () => pure ()
  if vm.status b.id ≠ .Unknown then pure vm
  else vm.InsertBlockManual env b

/-! ## Decisions -/

/-- `b.Accept()` as the engine calls it: on a processing block whose parent is the last accepted
block, which `blockChain.Accept` checks. Unless the block is a bonus block, its atomic operations
are applied to shared memory, atomically with the write of the last accepted block. -/
def Accept (vm : VM ID Address Owner Cred V sourceOf) (blkID : ID) :
    Option (VM ID Address Owner Cred V sourceOf) :=
  match vm.blocks blkID with
  | none => none
  | some b =>
    if vm.status blkID = .Processing ∧ b.parent = vm.lastAccepted then
      some { vm with
        status := Function.update vm.status blkID .Accepted
        lastAccepted := blkID
        sharedMemory :=
          if env.isBonus b then vm.sharedMemory
          else vm.sharedMemory.Apply (mergeAtomicOps env.hex env.ctx (b.atomicTxs.map SignedTx.tx)) }
    else none

/-- `b.Reject()` as the engine calls it: on a processing block. -/
def Reject (vm : VM ID Address Owner Cred V sourceOf) (blkID : ID) :
    Option (VM ID Address Owner Cred V sourceOf) :=
  if vm.status blkID = .Processing then
    some { vm with status := Function.update vm.status blkID .Rejected }
  else none

/-- One event; a call that fails leaves the VM as it was. -/
def step (vm : VM ID Address Owner Cred V sourceOf) :
    Event ID Address Owner Cred V → VM ID Address Owner Cred V sourceOf
  | .verify b =>
    match vm.Verify env b with
    | .ok vm' => vm'
    | .error _ => vm
  | .accept blkID => (vm.Accept env blkID).getD vm
  | .reject blkID => (vm.Reject blkID).getD vm
  | .put key value => { vm with sharedMemory := vm.sharedMemory.Put key value }

/-- The VM after a list of events. -/
def run (vm : VM ID Address Owner Cred V sourceOf) (events : List (Event ID Address Owner Cred V)) :
    VM ID Address Owner Cred V sourceOf :=
  events.foldl (step env) vm

/-- The genesis block: height `0`, no atomic transactions, and the empty ID as its parent. -/
def genesis (genesisID : ID) (rules : Rules) : Block ID Address Owner Cred :=
  ⟨genesisID, env.ctx.emptyID, 0, none, rules, []⟩

/-- The VM after initialization: the genesis block accepted with its state, and what the peers
have put into shared memory so far. -/
def init (genesisID : ID) (rules : Rules) (state : EVMState ID Address)
    (sharedMemory : SharedMemory ID V sourceOf) : VM ID Address Owner Cred V sourceOf where
  blocks id := if id = genesisID then some (genesis env genesisID rules) else none
  status id := if id = genesisID then .Accepted else .Unknown
  states id := if id = genesisID then some state else none
  sharedMemory := sharedMemory
  lastAccepted := genesisID

/-! ## What each call does

One lemma per call, read off a call that succeeds; the invariants of the run cite these and
never unfold the calls. -/

variable {env} {vm vm' : VM ID Address Owner Cred V sourceOf}

omit [LinearOrder ID] [LinearOrder Address] [CheckedArith] [FlowChecker ID] in
/-- An ancestor of a stored accepted block is a stored accepted block, where the blocks are stored
under their IDs and the parent of an accepted block is accepted. -/
theorem accepted_of_inChain (hid : ∀ i x, vm.blocks i = some x → x.id = i)
    (hacc : ∀ i x, vm.blocks i = some x → vm.status i = .Accepted → x.height ≠ 0 →
      vm.status x.parent = .Accepted)
    {c b : Block ID Address Owner Cred} (h : InChain Block.parent Block.height vm.blocks c b)
    (hb : vm.blocks b.id = some b) (hbacc : vm.status b.id = .Accepted) :
    vm.status c.id = .Accepted := by
  refine (h.of_parent (fun x => vm.blocks x.id = some x ∧ vm.status x.id = .Accepted)
    (fun x p hx hne hp => ?_) ⟨hb, hbacc⟩).2
  rw [hid _ _ hp]
  exact ⟨hp, hacc _ _ hx.1 hx.2 hne⟩

omit [LinearOrder Address] [CheckedArith] [FlowChecker ID] in
/-- From a stored ancestor, `conflicts` passes only if no block it walks, every ancestor that is
not accepted, spends one of `inputs`. -/
theorem conflictsLoop_eq_ok (hid : ∀ i x, vm.blocks i = some x → x.id = i)
    (hacc : ∀ i x, vm.blocks i = some x → vm.status i = .Accepted → x.height ≠ 0 →
      vm.status x.parent = .Accepted) {inputs : List ID} :
    ∀ (fuel : ℕ) (ancestor : Block ID Address Owner Cred), vm.blocks ancestor.id = some ancestor →
      vm.conflictsLoop env inputs fuel ancestor = .ok () →
      ∀ c, InChain Block.parent Block.height vm.blocks c ancestor → vm.status c.id ≠ .Accepted →
        ∀ atomicTx ∈ c.atomicTxs, ∀ k ∈ atomicTx.InputUTXOs env.ctx, k ∉ inputs
  | 0, _, _, h => by cases h
  | fuel + 1, ancestor, hstored, h => by
    intro c hc hcacc
    unfold conflictsLoop at h
    by_cases hancestor : vm.status ancestor.id = .Accepted
    · exact absurd (accepted_of_inChain hid hacc hc hstored hancestor) hcacc
    rw [if_neg hancestor] at h
    by_cases hany :
        (ancestor.atomicTxs.any fun atomicTx => overlaps inputs (atomicTx.InputUTXOs env.ctx)) = true
    · rw [if_pos hany] at h
      simp at h
    rw [if_neg hany] at h
    -- the walked block is `ancestor` itself, or one of its parent's chain
    rcases inChain_iff.mp hc with rfl | ⟨p, -, hp, hcp⟩
    · intro atomicTx hmem k hk hkin
      have hover := List.any_eq_false.mp (Bool.not_eq_true _ ▸ hany) atomicTx hmem
      exact hover (by simpa [overlaps] using ⟨k, hk, hkin⟩)
    · simp only [hp] at h
      by_cases hstatus :
          vm.status ancestor.parent = .Unknown ∨ vm.status ancestor.parent = .Rejected
      · rw [if_pos hstatus] at h
        simp at h
      · rw [if_neg hstatus] at h
        have hpstored : vm.blocks p.id = some p := by rw [hid _ _ hp]; exact hp
        exact conflictsLoop_eq_ok hid hacc fuel p hpstored h c hcp hcacc

omit [LinearOrder Address] [CheckedArith] [FlowChecker ID] in
/-- Once bootstrapped, an import's checks pass only if its UTXOs are in the source chain's shared
memory and the walk of `conflicts` passes. -/
theorem importUTXOChecks_eq_ok {parent : Block ID Address Owner Cred}
    {utx : UnsignedImportTx ID Address} {creds : List Cred}
    (h : vm.importUTXOChecks env parent utx creds = .ok ()) :
    (∀ k ∈ utx.InputUTXOs env.ctx, vm.sharedMemory.values utx.sourceChain k ≠ none) ∧
      vm.conflicts env (utx.InputUTXOs env.ctx) parent = .ok () := by
  unfold importUTXOChecks at h
  split at h
  · simp at h
  · next allUTXOs hget =>
    obtain ⟨_, -, h⟩ := except_bind_eq_ok.mp h
    exact ⟨vm.sharedMemory.values_of_Get hget, h⟩

/-- A bootstrapped VM's `SemanticVerify` of an import passes only if its checks against shared
memory and the ancestors pass. -/
theorem SemanticVerify_importTx (hboot : env.bootstrapped = true)
    {parent : Block ID Address Owner Cred} {atomicTx : SignedTx ID Address Owner Cred}
    {baseFee : Option ℕ} {rules : Rules} {utx : UnsignedImportTx ID Address}
    (hutx : atomicTx.tx.unsignedAtomicTx = .importTx utx)
    (h : vm.SemanticVerify env parent atomicTx baseFee rules = .ok ()) :
    vm.importUTXOChecks env parent utx atomicTx.creds = .ok () := by
  unfold SemanticVerify at h
  rw [hutx, hboot] at h
  exact UnsignedImportTx.utxoChecks_of_SemanticVerify env.ctx h

/-- `SemanticVerify` of an export passes only if a credential signs for each input's address. -/
theorem SemanticVerify_exportTx {parent : Block ID Address Owner Cred}
    {atomicTx : SignedTx ID Address Owner Cred} {baseFee : Option ℕ} {rules : Rules}
    {utx : UnsignedExportTx ID Address Owner} (hutx : atomicTx.tx.unsignedAtomicTx = .exportTx utx)
    (h : vm.SemanticVerify env parent atomicTx baseFee rules = .ok ()) :
    ∀ input ∈ utx.ins, ∃ cred, env.credAddress cred = .ok input.address := by
  unfold SemanticVerify at h
  rw [hutx] at h
  obtain ⟨hlen, hcreds⟩ := UnsignedExportTx.verifyCreds_of_SemanticVerify env.ctx h
  exact UnsignedExportTx.signer_of_verifyCreds env.credAddress utx.ins atomicTx.creds hlen hcreds

/-- One step of the loop of `verifyTxs` passes only if the transaction verifies and spends none
of the inputs before it, which it then joins. -/
theorem verifyTxsStep_eq_ok {ancestor : Block ID Address Owner Cred} {baseFee : Option ℕ}
    {height : ℕ} {rules : Rules} {inputs inputs' : List ID}
    {atomicTx : SignedTx ID Address Owner Cred}
    (h : vm.verifyTxsStep env ancestor baseFee height rules inputs atomicTx = .ok inputs') :
    vm.SemanticVerify env ancestor atomicTx baseFee rules = .ok () ∧
      (∀ k ∈ atomicTx.InputUTXOs env.ctx, k ∉ inputs) ∧
      inputs' = inputs ++ atomicTx.InputUTXOs env.ctx := by
  unfold verifyTxsStep at h
  cases hsv : vm.SemanticVerify env ancestor atomicTx baseFee rules with
  | error err => simp [hsv] at h
  | ok u =>
    simp only [hsv] at h
    by_cases hover : overlaps inputs (atomicTx.InputUTXOs env.ctx) = true
    · rw [if_pos hover] at h
      simp at h
    · rw [if_neg hover] at h
      refine ⟨rfl, fun k hk hkin => hover ?_, by simpa using h.symm⟩
      simpa [overlaps] using ⟨k, hk, hkin⟩

/-- The loop of `verifyTxs` passes only if every transaction verifies, none spends one of
`inputs`, and they spend pairwise distinct inputs. -/
theorem foldlM_verifyTxsStep_eq_ok {ancestor : Block ID Address Owner Cred} {baseFee : Option ℕ}
    {height : ℕ} {rules : Rules} :
    ∀ (txs : List (SignedTx ID Address Owner Cred)) (inputs : List ID) {res : List ID},
      txs.foldlM (vm.verifyTxsStep env ancestor baseFee height rules) inputs = .ok res →
      (∀ atomicTx ∈ txs, vm.SemanticVerify env ancestor atomicTx baseFee rules = .ok ()) ∧
      (∀ atomicTx ∈ txs, ∀ k ∈ atomicTx.InputUTXOs env.ctx, k ∉ inputs) ∧
      txs.Pairwise fun t t' => (t.InputUTXOs env.ctx).Disjoint (t'.InputUTXOs env.ctx)
  | [], _, _, _ => by simp
  | atomicTx :: txs, inputs, res, h => by
    rw [List.foldlM_cons] at h
    obtain ⟨inputs', hstep, h⟩ := except_bind_eq_ok.mp h
    obtain ⟨hsv, hfresh, rfl⟩ := verifyTxsStep_eq_ok hstep
    obtain ⟨hsvs, hfreshs, hpair⟩ := foldlM_verifyTxsStep_eq_ok txs _ h
    refine ⟨?_, ?_, List.pairwise_cons.mpr ⟨?_, hpair⟩⟩
    · intro t ht
      rcases List.mem_cons.mp ht with rfl | ht
      · exact hsv
      · exact hsvs t ht
    · intro t ht k hk hkin
      rcases List.mem_cons.mp ht with rfl | ht
      · exact hfresh k hk hkin
      · exact hfreshs t ht k hk (List.mem_append_left _ hkin)
    · -- a later transaction spends none of the inputs this one joined
      intro t' ht' k hk hk'
      exact hfreshs t' ht' k hk' (List.mem_append_right _ hk)

/-- `verifyTxs` passes only on a parent one height lower, neither unknown nor rejected, against
which every transaction verifies, with pairwise distinct inputs. -/
theorem verifyTxs_eq_ok {txs : List (SignedTx ID Address Owner Cred)} {parentHash : ID}
    {baseFee : Option ℕ} {height : ℕ} {rules : Rules}
    (h : vm.verifyTxs env txs parentHash baseFee height rules = .ok ()) :
    ∃ ancestor, vm.blocks parentHash = some ancestor ∧ ancestor.height + 1 = height ∧
      vm.status parentHash ≠ .Unknown ∧ vm.status parentHash ≠ .Rejected ∧
      (∀ atomicTx ∈ txs, vm.SemanticVerify env ancestor atomicTx baseFee rules = .ok ()) ∧
      txs.Pairwise fun t t' => (t.InputUTXOs env.ctx).Disjoint (t'.InputUTXOs env.ctx) := by
  unfold verifyTxs at h
  split at h
  · simp at h
  · next ancestor hancestor =>
    by_cases hparent : ancestor.height + 1 ≠ height ∨ vm.status parentHash = .Unknown ∨
        vm.status parentHash = .Rejected
    · rw [if_pos hparent] at h
      simp at h
    rw [if_neg hparent] at h
    obtain ⟨res, hloop, -⟩ := except_bind_eq_ok.mp h
    obtain ⟨hsv, -, hpair⟩ := foldlM_verifyTxsStep_eq_ok txs [] hloop
    push Not at hparent
    exact ⟨ancestor, hancestor, hparent.1, hparent.2.1, hparent.2.2, hsv, hpair⟩

/-- The atomic part of `onExtraStateChange` passes only if, but for a bonus block, `verifyTxs`
passes, and the state transfers succeed. -/
theorem onExtraStateChange_eq_ok {b : Block ID Address Owner Cred}
    {state state' : EVMState ID Address} (h : vm.onExtraStateChange env b state = .ok state') :
    (env.isBonus b = false →
        vm.verifyTxs env b.atomicTxs b.parent b.baseFee b.height b.rules = .ok ()) ∧
      b.atomicTxs.foldlM
        (fun state atomicTx => atomicTx.tx.unsignedAtomicTx.EVMStateTransfer env.ctx state)
        state = .ok state' := by
  unfold onExtraStateChange at h
  -- a bonus block skips `verifyTxs`
  cases hbonus : env.isBonus b with
  | true =>
    simp only [hbonus, Bool.not_true] at h
    exact ⟨fun h' => (by cases h'), by simpa using h⟩
  | false =>
    simp only [hbonus, Bool.not_false, if_true] at h
    obtain ⟨_, hverify, h⟩ := except_bind_eq_ok.mp h
    exact ⟨fun _ => hverify, h⟩

omit [CheckedArith] [FlowChecker ID] in
/-- The state transfers of a block's atomic transactions never lower a nonce, and each input of
an export names a nonce between the one before the block and the one after it. -/
theorem nonce_foldlM_EVMStateTransfer :
    ∀ (txs : List (SignedTx ID Address Owner Cred)) (s : EVMState ID Address)
      {s' : EVMState ID Address},
      txs.foldlM (fun state atomicTx => atomicTx.tx.unsignedAtomicTx.EVMStateTransfer env.ctx state)
        s = .ok s' →
      (∀ a, s.nonce a ≤ s'.nonce a) ∧
        ∀ atomicTx ∈ txs, ∀ utx, atomicTx.tx.unsignedAtomicTx = .exportTx utx →
          ∀ input ∈ utx.ins, s.nonce input.address ≤ input.nonce ∧
            input.nonce < s'.nonce input.address
  | [], s, s', h => by
    cases h
    simp
  | atomicTx :: txs, s, s', h => by
    rw [List.foldlM_cons] at h
    obtain ⟨s₁, htransfer, h⟩ := except_bind_eq_ok.mp h
    obtain ⟨hmono₁, hexport₁⟩ := UnsignedAtomicTx.nonce_EVMStateTransfer env.ctx htransfer
    obtain ⟨hmono, hexport⟩ := nonce_foldlM_EVMStateTransfer txs s₁ h
    refine ⟨fun a => (hmono₁ a).trans (hmono a), ?_⟩
    intro t ht utx hutx input hinput
    rcases List.mem_cons.mp ht with rfl | ht
    · obtain ⟨heq, hlt⟩ := hexport₁ utx hutx input hinput
      exact ⟨heq.le, lt_of_lt_of_le hlt (hmono input.address)⟩
    · obtain ⟨hle, hlt⟩ := hexport t ht utx hutx input hinput
      exact ⟨(hmono₁ input.address).trans hle, hlt⟩

/-- `InsertBlockManual` passes only on a stored parent one height lower with a state, on which
the block runs; the block is then stored, processing, with the state it leaves. -/
theorem InsertBlockManual_eq_ok {b : Block ID Address Owner Cred}
    (h : vm.InsertBlockManual env b = .ok vm') :
    ∃ parent parentState state₁ state, vm.blocks b.parent = some parent ∧
      vm.states b.parent = some parentState ∧ parent.height + 1 = b.height ∧
      env.execute b parentState = .ok state₁ ∧ vm.onExtraStateChange env b state₁ = .ok state ∧
      vm' = vm.insert b state := by
  unfold InsertBlockManual at h
  split at h
  · next parent parentState hparent hstate =>
    by_cases hheight : parent.height + 1 ≠ b.height
    · rw [if_pos hheight] at h
      simp at h
    rw [if_neg hheight] at h
    obtain ⟨state₁, hexecute, h⟩ := except_bind_eq_ok.mp h
    obtain ⟨state, hextra, h⟩ := except_bind_eq_ok.mp h
    exact ⟨parent, parentState, state₁, state, hparent, hstate, not_not.mp hheight, hexecute,
      hextra, by cases h; rfl⟩
  · simp at h

/-- `Verify` leaves the VM as it is, or inserts a block whose status was unknown. -/
theorem Verify_eq_ok {b : Block ID Address Owner Cred} (h : vm.Verify env b = .ok vm') :
    vm' = vm ∨ (vm.status b.id = .Unknown ∧ vm.InsertBlockManual env b = .ok vm') := by
  unfold Verify at h
  -- the checks before the insertion only throw
  cases hsyntactic : env.syntacticVerify b with
  | error err => simp [hsyntactic] at h
  | ok u =>
    simp only [hsyntactic] at h
    obtain ⟨_, -, h⟩ := except_bind_eq_ok.mp h
    -- the predicate check only throws
    have hinsert : (if vm.status b.id ≠ .Unknown then pure vm else vm.InsertBlockManual env b) =
        .ok vm' := by
      split at h
      · split at h
        · simp at h
        · exact h
      · exact h
    by_cases hknown : vm.status b.id ≠ .Unknown
    · rw [if_pos hknown] at hinsert
      cases hinsert
      exact .inl rfl
    · rw [if_neg hknown] at hinsert
      exact .inr ⟨not_not.mp hknown, hinsert⟩

omit [LinearOrder Address] [CheckedArith] [FlowChecker ID] in
/-- `Accept` passes only on a stored processing block whose parent is the last accepted block. -/
theorem Accept_eq_some {blkID : ID} (h : vm.Accept env blkID = some vm') :
    ∃ b, vm.blocks blkID = some b ∧ vm.status blkID = .Processing ∧ b.parent = vm.lastAccepted ∧
      vm' = { vm with
        status := Function.update vm.status blkID .Accepted
        lastAccepted := blkID
        sharedMemory :=
          if env.isBonus b then vm.sharedMemory
          else vm.sharedMemory.Apply
            (mergeAtomicOps env.hex env.ctx (b.atomicTxs.map SignedTx.tx)) } := by
  unfold Accept at h
  split at h
  · cases h
  · next b hb =>
    by_cases hdecide : vm.status blkID = .Processing ∧ b.parent = vm.lastAccepted
    · rw [if_pos hdecide] at h
      cases h
      exact ⟨b, hb, hdecide.1, hdecide.2, rfl⟩
    · rw [if_neg hdecide] at h
      cases h

omit [LinearOrder Address] [CheckedArith] [FlowChecker ID] in
/-- `Reject` passes only on a processing block. -/
theorem Reject_eq_some {blkID : ID} (h : vm.Reject blkID = some vm') :
    vm.status blkID = .Processing ∧
      vm' = { vm with status := Function.update vm.status blkID .Rejected } := by
  unfold Reject at h
  by_cases hprocessing : vm.status blkID = .Processing
  · rw [if_pos hprocessing] at h
    cases h
    exact ⟨hprocessing, rfl⟩
  · rw [if_neg hprocessing] at h
    cases h

end VM

end AtomicChain

end Jeth
