import Jeth.Evm.Mempool
import Jeth.Evm.AtomicTx

/-!
# Building and verifying the atomic batch of a block

From Apricot Phase 5 on, a block carries a batch of atomic transactions in its extra data.
The builder, `postBatchOnFinalizeAndAssemble` of `plugin/evm/vm.go`, takes transactions from
the mempool one at a time. It stops at the size soft limit or at the atomic gas limit, and
drops a transaction that spends an input the batch already spends or that fails `verifyTx`.
It applies the state transfer of every transaction it keeps, and sums their block fee
contributions and their gas. The verifier, `onExtraStateChange`, parses the batch back, checks
it with `verifyTxs`, applies every state transfer and sums the contributions and the gas again.
`SyntacticVerify` checks the gas the header records.

The two compute the same quantities in different orders: the builder verifies and applies one
transaction after the other, the verifier verifies all of them and then applies all of them.
They agree because `SemanticVerify` does not read the EVM state, which the model states by
giving `AtomicBlockEnv.semanticVerify` no state argument. `onExtraStateChange_agrees_with_build`
is the result: from Apricot Phase 5 on, the block the builder assembles passes the verifier,
which returns the same contribution, gas and state, and it passes the gas checks of
`SyntacticVerify`.

What both read of the node for one block (the parent block, shared memory, the transactions'
own checks and state transfers, the codec) is a field of `AtomicBlockEnv` or `AtomicTxCodec`.
-/

namespace Jeth

/-! ## Constants and errors -/

/-- `defaultMempoolSize` of `plugin/evm/vm.go`, the size the VM gives its mempool. -/
def defaultMempoolSize : ℕ := 4096

/-- `params.AtomicGasLimit`. -/
def AtomicGasLimit : ℕ := 100000

/-- `targetAtomicTxsSize`, the soft limit on the size of a block's atomic transactions. -/
def targetAtomicTxsSize : ℕ := 40 * 1024

/-- `errEmptyBlock`. -/
def errEmptyBlock : String := "empty block"
/-- `errConflictingAtomicInputs`. -/
def errConflictingAtomicInputs : String := "invalid block due to conflicting atomic inputs"
/-- `errMissingAtomicTxs`. -/
def errMissingAtomicTxs : String :=
  "cannot build a block with non-empty extra data and zero atomic transactions"
/-- `errNilExtDataGasUsedApricotPhase4`. -/
def errNilExtDataGasUsedApricotPhase4 : String :=
  "nil extDataGasUsed is invalid after apricotPhase4"

/-- `set.Set.Overlaps`: the two sets share an element. -/
def overlaps {UTXO : Type} [DecidableEq UTXO] (s t : List UTXO) : Bool :=
  t.any fun u => s.contains u

/-! ## Blocks and the codec -/

/-- The fields of a header the atomic batch reads. -/
structure Header where
  /-- `vm.chainConfig.Rules(header.Number, header.Time)`. -/
  rules : Rules
  number : ℕ
  /-- `BaseFee`; `none` is nil. -/
  baseFee : Option ℕ
  /-- `ExtDataGasUsed`; `none` is nil. -/
  extDataGasUsed : Option ℕ

/-- A block: its header, its extra data, and the hex text of its hash. -/
structure Block (β : Type) where
  header : Header
  extData : List β
  hashHex : String

/-- The block `FinalizeAndAssemble` assembles from Apricot Phase 4 on: the extra data the builder
returned, and `ExtDataGasUsed` set to its gas, zero for nil. -/
def assembleBlock {β : Type} (header : Header) (result : Option (List β × ℕ × ℕ))
    (hashHex : String) : Block β where
  header := { header with extDataGasUsed := some ((result.map fun r => r.2.2).getD 0) }
  extData := (result.map Prod.fst).getD []
  hashHex := hashHex

/-- The codec's encoding of atomic transactions, bytes being lists of `β`. That decoding a
batch inverts its encoding is a field: the codec of the node library is outside this model. -/
structure AtomicTxCodec (α β : Type) where
  /-- `Marshal(codecVersion, txs)` of a batch. -/
  marshalBatch : List α → Except String (List β)
  /-- `Unmarshal(bytes, &txs)` of a batch. -/
  unmarshalBatch : List β → Except String (List α)
  /-- `Unmarshal(bytes, tx)` of one transaction, before Apricot Phase 5. -/
  unmarshal : List β → Except String α
  unmarshalBatch_marshalBatch :
    ∀ txs bytes, marshalBatch txs = .ok bytes → unmarshalBatch bytes = .ok txs
  /-- An encoding starts with the codec version, so it is never empty. -/
  marshalBatch_ne_nil : ∀ txs bytes, marshalBatch txs = .ok bytes → bytes ≠ []

section Extract

variable {α β : Type} (codec : AtomicTxCodec α β)

/-- `ExtractAtomicTx(atomicTxBytes, codec)`. `Sign(codec, nil)` only encodes the transaction
again, and is taken not to fail. -/
def ExtractAtomicTx (atomicTxBytes : List β) : Except String α :=
  match codec.unmarshal atomicTxBytes with
  | .error err => .error ("failed to unmarshal atomic transaction (pre-AP5): " ++ err)
  | .ok atomicTx => .ok atomicTx

/-- `ExtractAtomicTxsBatch(atomicTxBytes, codec)`. -/
def ExtractAtomicTxsBatch (atomicTxBytes : List β) : Except String (List α) := do
  let atomicTxs ← match codec.unmarshalBatch atomicTxBytes with
    | .error err => throw ("failed to unmarshal atomic tx (AP5) due to " ++ err)
    | .ok atomicTxs => pure atomicTxs
  if atomicTxs.isEmpty then throw errMissingAtomicTxs
  pure atomicTxs

/-- `ExtractAtomicTxs(atomicTxBytes, batch, codec)`. -/
def ExtractAtomicTxs (atomicTxBytes : List β) (batch : Bool) : Except String (List α) :=
  if atomicTxBytes.isEmpty then .ok []
  else if !batch then (ExtractAtomicTx codec atomicTxBytes).map fun tx => [tx]
  else ExtractAtomicTxsBatch codec atomicTxBytes

/-- The extra data of a batch the codec encoded decodes to the batch. -/
theorem ExtractAtomicTxs_of_marshalBatch {txs : List α} {bytes : List β}
    (h : codec.marshalBatch txs = .ok bytes) (hne : txs ≠ []) :
    ExtractAtomicTxs codec bytes true = .ok txs := by
  have hbytes : bytes.isEmpty = false := List.isEmpty_eq_false_iff.mpr
    (codec.marshalBatch_ne_nil txs bytes h)
  simp [ExtractAtomicTxs, ExtractAtomicTxsBatch, hbytes,
    codec.unmarshalBatch_marshalBatch txs bytes h, hne]

end Extract

/-- What `onExtraStateChange` reads of `vm.atomicBackend` for a block. -/
structure AtomicBackend (α : Type) where
  /-- `IsBonus(block.NumberU64(), block.Hash())`. -/
  isBonus : Bool
  /-- The outcome of `InsertTxs(block.Hash(), block.NumberU64(), block.ParentHash(), txs)`, which
  writes the batch's operations into the atomic trie. -/
  insertTxs : List α → Except String Unit

/-! ## What the two sides read of the node -/

/-- What building and verifying the atomic batch of one block read of the node and of the
transactions, beyond the mempool's view of them. The parent block, the base fee and the rules
are the block's. -/
structure AtomicBlockEnv (ID UTXO Asset State : Type) where
  /-- `vm.ctx.ChainAssetID`. -/
  chainAssetID : Asset
  /-- `tx.GasUsed(fixedFee)`. -/
  gasUsed : Tx ID UTXO Asset → Bool → Except String ℕ
  /-- The mempool's view of a transaction holds its gas with the fixed fee. -/
  gasUsed_true : ∀ tx, gasUsed tx true = tx.gasUsed
  /-- `len(tx.SignedBytes())`. -/
  signedBytesLen : Tx ID UTXO Asset → ℕ
  /-- `vm.GetBlockInternal` of the parent and its type check, as `verifyTx` makes them. -/
  getParentBlock : Except String Unit
  /-- The checks `verifyTxs` makes of the parent: `HasBlock`, `GetBlockInternal` and its
  status. -/
  parentVerified : Except String Unit
  /-- `SemanticVerify(vm, tx, parent, baseFee, rules)`: against the parent, its ancestors and
  shared memory. It does not read the EVM state. -/
  semanticVerify : Tx ID UTXO Asset → Except String Unit
  /-- `EVMStateTransfer(ctx, state)`. -/
  evmStateTransfer : Tx ID UTXO Asset → State → Except String State

/-! ## The builder's state -/

/-- What `postBatchOnFinalizeAndAssemble` has collected: the mempool, the state, the batch, its
inputs, contribution, gas and size. -/
structure BuildState (ID UTXO Asset State : Type) where
  mempool : Mempool ID UTXO Asset
  state : State
  batchAtomicTxs : List (Tx ID UTXO Asset)
  batchAtomicUTXOs : List UTXO
  batchContribution : ℕ
  batchGasUsed : ℕ
  size : ℕ

/-- How one pass of the builder's loop ends. -/
inductive BuildStep (ID UTXO Asset State : Type)
  /-- `continue`, or the end of the pass. -/
  | next (b : BuildState ID UTXO Asset State)
  /-- `break`. -/
  | stop (b : BuildState ID UTXO Asset State)
  /-- `return nil, nil, nil, err`. -/
  | abort (err : String) (b : BuildState ID UTXO Asset State)

namespace AtomicBlockEnv

variable {ID UTXO Asset State β : Type} [DecidableEq ID] [DecidableEq UTXO]
  (env : AtomicBlockEnv ID UTXO Asset State)

/-- `tx.BlockFeeContribution(fixedFee, assetID, baseFee)`: what the transaction burns of the
asset beyond its fee, in wei, and its gas. -/
def BlockFeeContribution (tx : Tx ID UTXO Asset) (fixedFee : Bool) (assetID : Asset)
    (baseFee : Option ℕ) : Except String (ℕ × ℕ) :=
  match baseFee with
  | none => .error errNilBaseFee
  | some baseFee =>
    if baseFee = 0 then .error ("cannot calculate tip with base fee " ++ toString baseFee ++ " <= 0")
    else do
      let gasUsed ← env.gasUsed tx fixedFee
      let txFee ← CalculateDynamicFee gasUsed (some baseFee)
      let burned ← tx.burned assetID
      if txFee > burned then
        throw ("insufficient AVAX burned (" ++ toString burned ++ ") to cover import tx fee (" ++
          toString txFee ++ ")")
      else pure ((burned - txFee) * x2cRate, gasUsed)

omit [DecidableEq ID] [DecidableEq UTXO] in
/-- The gas a contribution reports is the transaction's. -/
theorem gasUsed_of_BlockFeeContribution {tx : Tx ID UTXO Asset} {fixedFee : Bool}
    {assetID : Asset} {baseFee : Option ℕ} {contribution gas : ℕ}
    (h : env.BlockFeeContribution tx fixedFee assetID baseFee = .ok (contribution, gas)) :
    env.gasUsed tx fixedFee = .ok gas := by
  unfold BlockFeeContribution at h
  split at h
  · cases h
  · split_ifs at h
    obtain ⟨gasUsed, hgas, h⟩ := except_bind_eq_ok.mp h
    obtain ⟨_, -, h⟩ := except_bind_eq_ok.mp h
    obtain ⟨_, -, h⟩ := except_bind_eq_ok.mp h
    split_ifs at h
    cases h
    exact hgas

/-! ## The verifier -/

/-- One transaction of the loop of `verifyTxs`, where `inputs` are the inputs of the ones
before it. -/
def verifyTxsStep (height : ℕ) (inputs : List UTXO) (atomicTx : Tx ID UTXO Asset) :
    Except String (List UTXO) := do
  match env.semanticVerify atomicTx with
  | .error err =>
    throw ("invalid block due to failed semanatic verify: " ++ err ++ " at height " ++
      toString height)
  | .ok () => pure ()
  if overlaps inputs atomicTx.inputUTXOs then throw errConflictingAtomicInputs
  pure (inputs ++ atomicTx.inputUTXOs)

/-- `vm.verifyTxs(txs, parentHash, baseFee, height, rules)`. -/
def verifyTxs (txs : List (Tx ID UTXO Asset)) (height : ℕ) : Except String Unit := do
  env.parentVerified
  let _ ← txs.foldlM (env.verifyTxsStep height) []
  pure ()

/-- One transaction of the loop of `onExtraStateChange`: apply its state transfer, add its
contribution and its gas from Apricot Phase 4 on, and check the atomic gas limit from Apricot
Phase 5 on. -/
def onExtraStateChangeStep (block : Block β) (acc : State × ℕ × ℕ) (tx : Tx ID UTXO Asset) :
    Except String (State × ℕ × ℕ) := do
  let rules := block.header.rules
  let state ← env.evmStateTransfer tx acc.1
  let (batchContribution, batchGasUsed) ←
    if rules.isApricotPhase4 then do
      let (contribution, gasUsed) ←
        env.BlockFeeContribution tx rules.isApricotPhase5 env.chainAssetID block.header.baseFee
      pure (acc.2.1 + contribution, acc.2.2 + gasUsed)
    else pure acc.2
  if rules.isApricotPhase5 ∧ batchGasUsed > AtomicGasLimit then
    throw ("atomic gas used (" ++ toString batchGasUsed ++ ") by block (" ++ block.hashHex ++
      "), exceeds atomic gas limit (" ++ toString AtomicGasLimit ++ ")")
  pure (state, batchContribution, batchGasUsed)

/-- `vm.onExtraStateChange(block, state)`: the contribution and the gas of the block's atomic
transactions (`none` for nil), and the state after their transfers. -/
def onExtraStateChange (codec : AtomicTxCodec (Tx ID UTXO Asset) β)
    (backend : Option (AtomicBackend (Tx ID UTXO Asset))) (block : Block β) (state : State) :
    Except String (Option (ℕ × ℕ) × State) := do
  let rules := block.header.rules
  let txs ← ExtractAtomicTxs codec block.extData rules.isApricotPhase5
  match backend with
  | some atomicBackend =>
    -- a bonus block is not verified, but its operations still go into the atomic trie
    if !atomicBackend.isBonus then env.verifyTxs txs block.header.number
    atomicBackend.insertTxs txs
  | none => pure ()
  if txs.isEmpty then pure (none, state)
  else do
    let (state, batchContribution, batchGasUsed) ←
      txs.foldlM (env.onExtraStateChangeStep block) (state, 0, 0)
    pure (some (batchContribution, batchGasUsed), state)

/-- One transaction of the sum of gas of `SyntacticVerify`. -/
def totalGasUsedStep [CheckedArith] (fixedFee : Bool) (totalGasUsed : ℕ)
    (atomicTx : Tx ID UTXO Asset) : Except String ℕ := do
  let gasUsed ← env.gasUsed atomicTx fixedFee
  add64 totalGasUsed gasUsed

/-- The checks of `blockValidator.SyntacticVerify` on `ExtDataGasUsed`, from Apricot Phase 4
on, for the block's atomic transactions `atomicTxs`. -/
def syntacticVerifyExtDataGasUsed [CheckedArith] (block : Block β)
    (atomicTxs : List (Tx ID UTXO Asset)) : Except String Unit := do
  let rules := block.header.rules
  if rules.isApricotPhase4 then
    match block.header.extDataGasUsed with
    | none => throw errNilExtDataGasUsedApricotPhase4
    | some extDataGasUsed => do
      if rules.isApricotPhase5 then
        if extDataGasUsed > AtomicGasLimit then
          throw ("too large extDataGasUsed: " ++ toString extDataGasUsed)
      else if ¬ extDataGasUsed < 2 ^ 64 then
        throw ("too large extDataGasUsed: " ++ toString extDataGasUsed)
      let totalGasUsed ← atomicTxs.foldlM (env.totalGasUsedStep rules.isApricotPhase5) 0
      if extDataGasUsed ≠ totalGasUsed then
        throw ("invalid extDataGasUsed: have " ++ toString extDataGasUsed ++ ", want " ++
          toString totalGasUsed)

/-! ## The builder -/

/-- `vm.verifyTx(tx, parentHash, baseFee, state, rules)`. -/
def verifyTx (tx : Tx ID UTXO Asset) (state : State) : Except String State := do
  env.getParentBlock
  env.semanticVerify tx
  env.evmStateTransfer tx state

omit [DecidableEq ID] [DecidableEq UTXO] in
theorem verifyTx_eq_ok {tx : Tx ID UTXO Asset} {state state' : State}
    (h : env.verifyTx tx state = .ok state') :
    env.semanticVerify tx = .ok () ∧ env.evmStateTransfer tx state = .ok state' := by
  obtain ⟨_, -, h⟩ := except_bind_eq_ok.mp h
  obtain ⟨_, hsv, h⟩ := except_bind_eq_ok.mp h
  exact ⟨hsv, h⟩

/-- One pass of the loop of `postBatchOnFinalizeAndAssemble`. -/
def postBatchStep (baseFee : Option ℕ) (b : BuildState ID UTXO Asset State) :
    BuildStep ID UTXO Asset State :=
  match b.mempool.NextTx with
  | (none, mempool) => .stop { b with mempool }
  | (some tx, mempool) =>
    -- the size soft limit and the gas limit send the transaction back to the heap
    if b.size + env.signedBytesLen tx > targetAtomicTxsSize then
      .stop { b with mempool := mempool.CancelCurrentTx tx.id }
    else
      match env.BlockFeeContribution tx true env.chainAssetID baseFee with
      | .error err => .abort err { b with mempool }
      | .ok (txContribution, txGasUsed) =>
        if b.batchGasUsed + txGasUsed > AtomicGasLimit then
          .stop { b with mempool := mempool.CancelCurrentTx tx.id }
        else if overlaps b.batchAtomicUTXOs tx.inputUTXOs then
          .next { b with mempool := mempool.DiscardCurrentTx tx.id }
        else
          match env.verifyTx tx b.state with
          -- the state goes back to the snapshot taken before `verifyTx`
          | .error _ => .next { b with mempool := mempool.DiscardCurrentTx tx.id }
          | .ok state =>
            .next { b with
              mempool, state,
              batchAtomicTxs := b.batchAtomicTxs ++ [tx],
              batchAtomicUTXOs := b.batchAtomicUTXOs ++ tx.inputUTXOs,
              batchGasUsed := b.batchGasUsed + txGasUsed,
              batchContribution := b.batchContribution + txContribution,
              size := b.size + env.signedBytesLen tx }

/-- The loop of `postBatchOnFinalizeAndAssemble`, for at most `fuel` passes: the build, and the
error that ended it. -/
def postBatchLoop (baseFee : Option ℕ) :
    ℕ → BuildState ID UTXO Asset State → BuildState ID UTXO Asset State × Option String
  | 0, b => (b, none)
  | fuel + 1, b =>
    match env.postBatchStep baseFee b with
    | .next b => postBatchLoop baseFee fuel b
    | .stop b => (b, none)
    | .abort err b => (b, some err)

/-- `vm.postBatchOnFinalizeAndAssemble(header, state, txs)`, where `regularTxs` is `len(txs)`:
the extra data, the contribution and the gas (`none` for nil), and the build at its end. Each
pass of the loop takes a transaction off the heap or ends the loop, so one pass more than the
heap holds is as many as the source makes (`postBatchLoop_succ`). -/
def postBatchOnFinalizeAndAssemble (codec : AtomicTxCodec (Tx ID UTXO Asset) β)
    (header : Header) (mempool : Mempool ID UTXO Asset) (state : State) (regularTxs : ℕ) :
    Except String (Option (List β × ℕ × ℕ)) × BuildState ID UTXO Asset State :=
  match env.postBatchLoop header.baseFee (mempool.txHeap.len + 1)
      ⟨mempool, state, [], [], 0, 0, 0⟩ with
  | (b, some err) => (.error err, b)
  | (b, none) =>
    if b.batchAtomicTxs.isEmpty then
      if regularTxs = 0 then (.error errEmptyBlock, b) else (.ok none, b)
    else
      match codec.marshalBatch b.batchAtomicTxs with
      | .error err =>
        (.error ("failed to marshal batch of atomic transactions due to " ++ err),
          { b with mempool := b.mempool.DiscardCurrentTxs })
      | .ok atomicTxBytes => (.ok (some (atomicTxBytes, b.batchContribution, b.batchGasUsed)), b)

/-! ## One transaction on each side -/

omit [DecidableEq ID] in
theorem verifyTxsStep_of_semanticVerify {height : ℕ} {inputs : List UTXO}
    {tx : Tx ID UTXO Asset} (hsv : env.semanticVerify tx = .ok ())
    (hover : overlaps inputs tx.inputUTXOs = false) :
    env.verifyTxsStep height inputs tx = .ok (inputs ++ tx.inputUTXOs) := by
  simp [verifyTxsStep, hsv, hover]

omit [DecidableEq ID] [DecidableEq UTXO] in
theorem onExtraStateChangeStep_of_ok {block : Block β} {tx : Tx ID UTXO Asset}
    {state state' : State} {batchContribution batchGasUsed txContribution txGasUsed : ℕ}
    (hAP4 : block.header.rules.isApricotPhase4 = true)
    (hAP5 : block.header.rules.isApricotPhase5 = true)
    (htransfer : env.evmStateTransfer tx state = .ok state')
    (hfee : env.BlockFeeContribution tx true env.chainAssetID block.header.baseFee =
      .ok (txContribution, txGasUsed))
    (hlimit : batchGasUsed + txGasUsed ≤ AtomicGasLimit) :
    env.onExtraStateChangeStep block (state, batchContribution, batchGasUsed) tx =
      .ok (state', batchContribution + txContribution, batchGasUsed + txGasUsed) := by
  simp [onExtraStateChangeStep, hAP4, hAP5, htransfer, hfee, Nat.not_lt.mpr hlimit]

omit [DecidableEq ID] [DecidableEq UTXO] in
theorem totalGasUsedStep_of_BlockFeeContribution [CheckedArith] {tx : Tx ID UTXO Asset}
    {assetID : Asset} {baseFee : Option ℕ} {totalGasUsed txContribution txGasUsed : ℕ}
    (hfee : env.BlockFeeContribution tx true assetID baseFee = .ok (txContribution, txGasUsed))
    (hlimit : totalGasUsed + txGasUsed ≤ AtomicGasLimit) :
    env.totalGasUsedStep true totalGasUsed tx = .ok (totalGasUsed + txGasUsed) := by
  have hlt : totalGasUsed + txGasUsed < 2 ^ 64 := by
    unfold AtomicGasLimit at hlimit
    omega
  simp [totalGasUsedStep, env.gasUsed_of_BlockFeeContribution hfee, add64_of_lt hlt]

/-! ## What a build has collected agrees with the verifier -/

/-- What the verifier computes of the batch a build has collected, from the state `state₀` the
build started in, agrees with the build: the loop of `verifyTxs` passes it, the loop of
`onExtraStateChange` ends in the build's state, contribution and gas, the sum of gas of
`SyntacticVerify` is the build's, and that is within the atomic gas limit. -/
structure Agrees [CheckedArith] (block : Block β) (state₀ : State)
    (b : BuildState ID UTXO Asset State) : Prop where
  verified :
    b.batchAtomicTxs.foldlM (env.verifyTxsStep block.header.number) [] = .ok b.batchAtomicUTXOs
  applied : b.batchAtomicTxs.foldlM (env.onExtraStateChangeStep block) (state₀, 0, 0) =
    .ok (b.state, b.batchContribution, b.batchGasUsed)
  gasSummed : b.batchAtomicTxs.foldlM (env.totalGasUsedStep true) 0 = .ok b.batchGasUsed
  gasLimit : b.batchGasUsed ≤ AtomicGasLimit

variable {block : Block β} {state₀ : State} {b b' : BuildState ID UTXO Asset State}

omit [DecidableEq ID] in
theorem agrees_init [CheckedArith] (mempool : Mempool ID UTXO Asset) :
    env.Agrees block state₀ ⟨mempool, state₀, [], [], 0, 0, 0⟩ :=
  ⟨rfl, rfl, rfl, Nat.zero_le _⟩

omit [DecidableEq ID] in
/-- Keeping a transaction that passes the builder's checks keeps the agreement: the verifier
checks it against the same inputs and applies it to the same state. -/
theorem Agrees.keep [CheckedArith] (hb : env.Agrees block state₀ b)
    (hAP4 : block.header.rules.isApricotPhase4 = true)
    (hAP5 : block.header.rules.isApricotPhase5 = true) {tx : Tx ID UTXO Asset}
    {txContribution txGasUsed : ℕ} {state : State} (mempool : Mempool ID UTXO Asset) (size : ℕ)
    (hfee : env.BlockFeeContribution tx true env.chainAssetID block.header.baseFee =
      .ok (txContribution, txGasUsed))
    (hlimit : b.batchGasUsed + txGasUsed ≤ AtomicGasLimit)
    (hover : overlaps b.batchAtomicUTXOs tx.inputUTXOs = false)
    (hverify : env.verifyTx tx b.state = .ok state) :
    env.Agrees block state₀ { b with
      mempool, state, size,
      batchAtomicTxs := b.batchAtomicTxs ++ [tx],
      batchAtomicUTXOs := b.batchAtomicUTXOs ++ tx.inputUTXOs,
      batchGasUsed := b.batchGasUsed + txGasUsed,
      batchContribution := b.batchContribution + txContribution } := by
  obtain ⟨hsv, htransfer⟩ := env.verifyTx_eq_ok hverify
  refine ⟨?_, ?_, ?_, hlimit⟩
  · dsimp only
    rw [List.foldlM_append, hb.verified]
    simp [env.verifyTxsStep_of_semanticVerify hsv hover]
  · dsimp only
    rw [List.foldlM_append, hb.applied]
    simp [env.onExtraStateChangeStep_of_ok hAP4 hAP5 htransfer hfee hlimit]
  · dsimp only
    rw [List.foldlM_append, hb.gasSummed]
    simp [env.totalGasUsedStep_of_BlockFeeContribution hfee hlimit]

/-! ## What one pass of the builder does -/

omit [DecidableEq ID] in
/-- The agreement does not look at the mempool. -/
theorem Agrees.with_mempool [CheckedArith] (hb : env.Agrees block state₀ b)
    (mempool : Mempool ID UTXO Asset) :
    env.Agrees block state₀ { b with mempool } :=
  ⟨hb.verified, hb.applied, hb.gasSummed, hb.gasLimit⟩

/-- A pass that ends the loop without an error changes only the mempool. -/
theorem postBatchStep_stop {baseFee : Option ℕ} (h : env.postBatchStep baseFee b = .stop b') :
    ∃ mempool, b' = { b with mempool } := by
  unfold postBatchStep at h
  -- every `break` sends the current transaction back, or there is none
  split at h
  · cases h
    exact ⟨_, rfl⟩
  · split at h
    · cases h
      exact ⟨_, rfl⟩
    · split at h
      · cases h
      · split at h
        · cases h
          exact ⟨_, rfl⟩
        · split at h
          · cases h
          · split at h <;> cases h

/-- A pass that goes on takes a transaction off the heap, and either drops it or keeps it after
its checks. -/
theorem postBatchStep_next {baseFee : Option ℕ} (h : env.postBatchStep baseFee b = .next b') :
    ∃ tx mempool, b.mempool.NextTx = (some tx, mempool) ∧
      (b' = { b with mempool := mempool.DiscardCurrentTx tx.id } ∨
        ∃ txContribution txGasUsed state,
          env.BlockFeeContribution tx true env.chainAssetID baseFee =
            .ok (txContribution, txGasUsed) ∧
          b.batchGasUsed + txGasUsed ≤ AtomicGasLimit ∧
          overlaps b.batchAtomicUTXOs tx.inputUTXOs = false ∧
          env.verifyTx tx b.state = .ok state ∧
          b' = { b with
            mempool, state,
            batchAtomicTxs := b.batchAtomicTxs ++ [tx],
            batchAtomicUTXOs := b.batchAtomicUTXOs ++ tx.inputUTXOs,
            batchGasUsed := b.batchGasUsed + txGasUsed,
            batchContribution := b.batchContribution + txContribution,
            size := b.size + env.signedBytesLen tx }) := by
  unfold postBatchStep at h
  split at h
  · cases h
  · next tx mempool hnext =>
    refine ⟨tx, mempool, hnext, ?_⟩
    split at h
    · cases h
    · split at h
      · cases h
      · next txContribution txGasUsed hfee =>
        split at h
        · cases h
        · next hgas =>
          split at h
          · -- a transaction that spends an input of the batch is dropped
            cases h
            exact .inl rfl
          · next hover =>
            split at h
            · cases h
              exact .inl rfl
            · next state hverify =>
              cases h
              exact .inr ⟨txContribution, txGasUsed, state, hfee, Nat.le_of_not_lt hgas,
                by simpa using hover, hverify, rfl⟩

theorem agrees_of_postBatchStep_stop [CheckedArith] (hb : env.Agrees block state₀ b)
    (h : env.postBatchStep block.header.baseFee b = .stop b') : env.Agrees block state₀ b' := by
  obtain ⟨mempool, rfl⟩ := env.postBatchStep_stop h
  exact hb.with_mempool env mempool

theorem agrees_of_postBatchStep_next [CheckedArith]
    (hAP4 : block.header.rules.isApricotPhase4 = true)
    (hAP5 : block.header.rules.isApricotPhase5 = true) (hb : env.Agrees block state₀ b)
    (h : env.postBatchStep block.header.baseFee b = .next b') : env.Agrees block state₀ b' := by
  obtain ⟨tx, mempool, -, rfl | ⟨_, _, _, hfee, hlimit, hover, hverify, rfl⟩⟩ :=
    env.postBatchStep_next h
  · exact hb.with_mempool env _
  · exact hb.keep env hAP4 hAP5 mempool _ hfee hlimit hover hverify

/-- A loop that ends without an error keeps the agreement, whatever the mempool hands it. -/
theorem agrees_postBatchLoop [CheckedArith] (hAP4 : block.header.rules.isApricotPhase4 = true)
    (hAP5 : block.header.rules.isApricotPhase5 = true) (fuel : ℕ)
    (hb : env.Agrees block state₀ b)
    (h : env.postBatchLoop block.header.baseFee fuel b = (b', none)) :
    env.Agrees block state₀ b' := by
  induction fuel generalizing b with
  | zero =>
    cases h
    exact hb
  | succ fuel ih =>
    simp only [postBatchLoop] at h
    split at h
    · next b'' hstep => exact ih (env.agrees_of_postBatchStep_next hAP4 hAP5 hb hstep) h
    · next b'' hstep =>
      cases h
      exact env.agrees_of_postBatchStep_stop hb hstep
    · cases h

/-! ## The builder's loop ends -/

/-- A pass that goes on leaves one transaction fewer on the heap. -/
theorem len_postBatchStep_next {baseFee : Option ℕ}
    (h : env.postBatchStep baseFee b = .next b') :
    b'.mempool.txHeap.len < b.mempool.txHeap.len := by
  obtain ⟨tx, mempool, hnext, rfl | ⟨_, _, _, -, -, -, -, rfl⟩⟩ := env.postBatchStep_next h
  · have := Mempool.len_NextTx hnext
    simp only [Mempool.txHeap_DiscardCurrentTx]
    omega
  · have := Mempool.len_NextTx hnext
    dsimp only
    omega

/-- Passes beyond one more than the heap holds change nothing: `postBatchOnFinalizeAndAssemble`
runs the loop to its end. -/
theorem postBatchLoop_succ {baseFee : Option ℕ} {fuel : ℕ}
    (h : b.mempool.txHeap.len < fuel) :
    env.postBatchLoop baseFee (fuel + 1) b = env.postBatchLoop baseFee fuel b := by
  induction fuel generalizing b with
  | zero => omega
  | succ fuel ih =>
    -- both sides make the same first pass; one that goes on leaves a smaller heap
    simp only [postBatchLoop]
    split
    · next b' hstep =>
      have := env.len_postBatchStep_next hstep
      exact ih (by omega)
    · rfl
    · rfl

/-! ## The verifier on an agreeing batch -/

omit [DecidableEq ID] in
theorem verifyTxs_of_agrees [CheckedArith] (hb : env.Agrees block state₀ b)
    (hparent : env.parentVerified = .ok ()) :
    env.verifyTxs b.batchAtomicTxs block.header.number = .ok () := by
  simp [verifyTxs, hparent, hb.verified]

omit [DecidableEq ID] in
/-- `onExtraStateChange` returns, on a batch a build agrees with, the build's contribution, gas
and state. -/
theorem onExtraStateChange_of_agrees [CheckedArith] (codec : AtomicTxCodec (Tx ID UTXO Asset) β)
    (backend : Option (AtomicBackend (Tx ID UTXO Asset))) (hb : env.Agrees block state₀ b)
    (hparent : env.parentVerified = .ok ())
    (hinsert : ∀ atomicBackend ∈ backend, atomicBackend.insertTxs b.batchAtomicTxs = .ok ())
    (hextract : ExtractAtomicTxs codec block.extData block.header.rules.isApricotPhase5 =
      .ok b.batchAtomicTxs) :
    env.onExtraStateChange codec backend block state₀ =
      .ok (if b.batchAtomicTxs.isEmpty then none else some (b.batchContribution, b.batchGasUsed),
        b.state) := by
  have hverify := env.verifyTxs_of_agrees hb hparent
  cases htxs : b.batchAtomicTxs.isEmpty
  · -- the loop over a batch ends in the build's state, contribution and gas; the checks of
    -- the atomic backend pass, bonus block or not
    have hne : b.batchAtomicTxs ≠ [] := List.isEmpty_eq_false_iff.mp htxs
    cases backend with
    | none => simp [onExtraStateChange, hextract, hne, hb.applied]
    | some atomicBackend =>
      cases hbonus : atomicBackend.isBonus <;>
        simp [onExtraStateChange, hextract, hne, hb.applied, hverify, hbonus,
          hinsert atomicBackend rfl]
  · -- an empty batch leaves the state as it was
    have hstate : state₀ = b.state := by
      have happlied := hb.applied
      rw [List.isEmpty_iff.mp htxs] at happlied
      simp only [List.foldlM_nil, except_pure_eq_ok, Except.ok.injEq, Prod.mk.injEq] at happlied
      exact happlied.1
    rw [List.isEmpty_iff.mp htxs] at hverify hextract hinsert
    cases backend with
    | none => simp [onExtraStateChange, hextract, ← hstate]
    | some atomicBackend =>
      cases hbonus : atomicBackend.isBonus <;>
        simp [onExtraStateChange, hextract, ← hstate, hverify, hbonus, hinsert atomicBackend rfl]

omit [DecidableEq ID] in
theorem syntacticVerifyExtDataGasUsed_of_agrees [CheckedArith] (hb : env.Agrees block state₀ b)
    (hAP4 : block.header.rules.isApricotPhase4 = true)
    (hAP5 : block.header.rules.isApricotPhase5 = true)
    (hgas : block.header.extDataGasUsed = some b.batchGasUsed) :
    env.syntacticVerifyExtDataGasUsed block b.batchAtomicTxs = .ok () := by
  simp [syntacticVerifyExtDataGasUsed, hAP4, hAP5, hgas, hb.gasSummed,
    Nat.not_lt.mpr hb.gasLimit]

/-! ## Building agrees with verifying -/

/-- What a build that succeeds returns: its loop ended without an error, and it returns nil
for an empty batch and the batch's encoding, contribution and gas otherwise. -/
theorem postBatchOnFinalizeAndAssemble_eq_ok {codec : AtomicTxCodec (Tx ID UTXO Asset) β}
    {header : Header} {mempool : Mempool ID UTXO Asset} {state : State} {regularTxs : ℕ}
    {result : Option (List β × ℕ × ℕ)}
    (h : env.postBatchOnFinalizeAndAssemble codec header mempool state regularTxs =
      (.ok result, b)) :
    env.postBatchLoop header.baseFee (mempool.txHeap.len + 1) ⟨mempool, state, [], [], 0, 0, 0⟩ =
        (b, none) ∧
      ((b.batchAtomicTxs = [] ∧ result = none) ∨
        (b.batchAtomicTxs ≠ [] ∧ ∃ bytes, codec.marshalBatch b.batchAtomicTxs = .ok bytes ∧
          result = some (bytes, b.batchContribution, b.batchGasUsed))) := by
  unfold postBatchOnFinalizeAndAssemble at h
  split at h
  · cases h
  · next b₁ hloop =>
    split_ifs at h with hempty hregular
    · cases h
    · cases h
      exact ⟨hloop, .inl ⟨List.isEmpty_iff.mp hempty, rfl⟩⟩
    · split at h
      · cases h
      · next bytes hmarshal =>
        cases h
        exact ⟨hloop, .inr ⟨by simpa using hempty, bytes, hmarshal, rfl⟩⟩

/-- Block builder and block verifier agree on atomic transactions. From Apricot Phase 5 on, if
`postBatchOnFinalizeAndAssemble` succeeds, then on the block `FinalizeAndAssemble` assembles
from its result, `onExtraStateChange` from the same state succeeds and returns the same
contribution and gas and the builder's state, and the block passes the checks of
`SyntacticVerify` on `ExtDataGasUsed`. What is assumed of the node: the parent block passes the
checks `verifyTxs` makes of it, and the atomic trie takes the batch. -/
theorem onExtraStateChange_agrees_with_build [CheckedArith]
    (codec : AtomicTxCodec (Tx ID UTXO Asset) β)
    (backend : Option (AtomicBackend (Tx ID UTXO Asset))) (header : Header)
    (hAP4 : header.rules.isApricotPhase4 = true) (hAP5 : header.rules.isApricotPhase5 = true)
    (hparent : env.parentVerified = .ok ()) (mempool : Mempool ID UTXO Asset) (state : State)
    (regularTxs : ℕ) (result : Option (List β × ℕ × ℕ)) (b : BuildState ID UTXO Asset State)
    (hashHex : String)
    (hbuild : env.postBatchOnFinalizeAndAssemble codec header mempool state regularTxs =
      (.ok result, b))
    (hinsert : ∀ atomicBackend ∈ backend, atomicBackend.insertTxs b.batchAtomicTxs = .ok ()) :
    env.onExtraStateChange codec backend (assembleBlock header result hashHex) state =
        .ok (result.map Prod.snd, b.state) ∧
      ∃ atomicTxs,
        ExtractAtomicTxs codec (assembleBlock header result hashHex).extData true =
          .ok atomicTxs ∧
        env.syntacticVerifyExtDataGasUsed (assembleBlock header result hashHex) atomicTxs =
          .ok () := by
  obtain ⟨hloop, hresult⟩ := env.postBatchOnFinalizeAndAssemble_eq_ok hbuild
  -- the batch the loop collected agrees with what the verifier computes of it
  have hb : env.Agrees (assembleBlock header result hashHex) state b :=
    env.agrees_postBatchLoop hAP4 hAP5 _ (env.agrees_init mempool) hloop
  have hextract : ExtractAtomicTxs codec (assembleBlock header result hashHex).extData true =
      .ok b.batchAtomicTxs := by
    rcases hresult with ⟨hnil, rfl⟩ | ⟨hne, bytes, hmarshal, rfl⟩
    · rw [hnil]
      rfl
    · exact ExtractAtomicTxs_of_marshalBatch codec hmarshal hne
  have hgas : (assembleBlock header result hashHex).header.extDataGasUsed =
      some b.batchGasUsed := by
    rcases hresult with ⟨hnil, rfl⟩ | ⟨-, bytes, -, rfl⟩
    · -- an empty batch has used no gas
      have hsum := hb.gasSummed
      rw [hnil, List.foldlM_nil, except_pure_eq_ok, Except.ok.injEq] at hsum
      rw [← hsum]
      rfl
    · rfl
  refine ⟨?_, b.batchAtomicTxs, hextract,
    env.syntacticVerifyExtDataGasUsed_of_agrees hb hAP4 hAP5 hgas⟩
  have hextract' : ExtractAtomicTxs codec (assembleBlock header result hashHex).extData
      (assembleBlock header result hashHex).header.rules.isApricotPhase5 = .ok b.batchAtomicTxs :=
    hAP5 ▸ hextract
  rw [env.onExtraStateChange_of_agrees codec backend hb hparent hinsert hextract']
  rcases hresult with ⟨hnil, rfl⟩ | ⟨hne, bytes, -, rfl⟩
  · simp [hnil]
  · simp [List.isEmpty_eq_false_iff.mpr hne]

end AtomicBlockEnv

section Reference

attribute [local instance] CheckedArith.reference FlowChecker.reference


/-- A transaction with gas 1 that spends UTXO 7 and burns 3 of the chain's asset. -/
def sampleBatchTx : Tx ℕ ℕ Unit := ⟨1, [7], .ok 1, fun _ => .ok 3⟩

/-- A node on which every check passes and each state transfer adds one to a counter. -/
def sampleBlockEnv : AtomicBlockEnv ℕ ℕ Unit ℕ where
  chainAssetID := ()
  gasUsed := fun tx _ => tx.gasUsed
  gasUsed_true := fun _ => rfl
  signedBytesLen := fun _ => 100
  getParentBlock := .ok ()
  parentVerified := .ok ()
  semanticVerify := fun _ => .ok ()
  evmStateTransfer := fun _ state => .ok (state + 1)

/-- A codec that writes a version marker, then the transactions. -/
def sampleCodec : AtomicTxCodec (Tx ℕ ℕ Unit) (Option (Tx ℕ ℕ Unit)) where
  marshalBatch := fun txs => .ok (none :: txs.map some)
  unmarshalBatch := fun bytes => .ok (bytes.filterMap id)
  unmarshal := fun _ => .error errMissingAtomicTxs
  unmarshalBatch_marshalBatch := by
    rintro txs bytes ⟨⟩
    simp [List.filterMap_map]
  marshalBatch_ne_nil := by
    rintro txs bytes ⟨⟩
    simp

/-- A header with every fork on and a base fee of 25 wei. -/
def sampleHeader : Header := ⟨⟨true, true, true, true, true, true⟩, 1, some 25, none⟩

/-- A mempool holding `sampleBatchTx`. -/
def sampleBatchMempool : Mempool ℕ ℕ Unit :=
  (NewMempool () 10 none fun _ => 0).calls [.addTx sampleBatchTx]

/-- What the builder returns on the sample: the batch of `sampleBatchTx` after the version
marker, a contribution of two nAVAX in wei, and one unit of gas. -/
def sampleBuildResult : Option (List (Option (Tx ℕ ℕ Unit)) × ℕ × ℕ) :=
  some ([none, some sampleBatchTx], 2 * x2cRate, 1)

/-- The builder succeeds on the sample, and the block it assembles passes the verifier. -/
theorem onExtraStateChange_agrees_with_build_sample :
    sampleHeader.rules.isApricotPhase4 = true ∧ sampleHeader.rules.isApricotPhase5 = true ∧
      sampleBlockEnv.parentVerified = .ok () ∧
      sampleBlockEnv.postBatchOnFinalizeAndAssemble sampleCodec sampleHeader sampleBatchMempool 0 0 =
        (.ok sampleBuildResult, (sampleBlockEnv.postBatchOnFinalizeAndAssemble sampleCodec
          sampleHeader sampleBatchMempool 0 0).2) ∧
      (∀ atomicBackend ∈ (none : Option (AtomicBackend (Tx ℕ ℕ Unit))),
        atomicBackend.insertTxs (sampleBlockEnv.postBatchOnFinalizeAndAssemble sampleCodec
          sampleHeader sampleBatchMempool 0 0).2.batchAtomicTxs = .ok ()) ∧
      sampleBlockEnv.onExtraStateChange sampleCodec none
          (assembleBlock sampleHeader sampleBuildResult "0x01") 0 =
        .ok (sampleBuildResult.map Prod.snd, (sampleBlockEnv.postBatchOnFinalizeAndAssemble
          sampleCodec sampleHeader sampleBatchMempool 0 0).2.state) ∧
      ∃ atomicTxs, ExtractAtomicTxs sampleCodec
          (assembleBlock sampleHeader sampleBuildResult "0x01").extData true = .ok atomicTxs ∧
        sampleBlockEnv.syntacticVerifyExtDataGasUsed
          (assembleBlock sampleHeader sampleBuildResult "0x01") atomicTxs = .ok () := by
  have hbuild : sampleBlockEnv.postBatchOnFinalizeAndAssemble sampleCodec sampleHeader
      sampleBatchMempool 0 0 = (.ok sampleBuildResult, (sampleBlockEnv.postBatchOnFinalizeAndAssemble
        sampleCodec sampleHeader sampleBatchMempool 0 0).2) :=
    Prod.ext rfl rfl
  have hinsert : ∀ atomicBackend ∈ (none : Option (AtomicBackend (Tx ℕ ℕ Unit))),
      atomicBackend.insertTxs (sampleBlockEnv.postBatchOnFinalizeAndAssemble sampleCodec
        sampleHeader sampleBatchMempool 0 0).2.batchAtomicTxs = .ok () := by simp
  exact ⟨rfl, rfl, rfl, hbuild, hinsert,
    AtomicBlockEnv.onExtraStateChange_agrees_with_build sampleBlockEnv sampleCodec none sampleHeader
      rfl rfl rfl sampleBatchMempool 0 0 sampleBuildResult _ "0x01" hbuild hinsert⟩


/-! ## The fee asset of the mempool -/

/-- A chain whose asset, 8, is not the JUNE asset, 7, as on a supernet other than the primary
network. -/
def sampleSupernetContext : AtomicContext ℕ (Fin 2) Unit :=
  { sampleContext with chainAssetID := 8 }

/-- An import of two milli-units of the chain's asset that burns `burned` of them. -/
def sampleSupernetImportTx (burned : ℕ) : UnsignedImportTx ℕ (Fin 2) :=
  ⟨1, 0, 5, [⟨3, 0, 8, 2000000, [0]⟩], [⟨0, 2000000 - burned, 8⟩], 200⟩

/-- The VM's mempool, `NewMempool(chainCtx, …)`, prices an atomic transaction by its burn of
`ctx.JUNEAssetID`, while `SemanticVerify` and `BlockFeeContribution` charge the fee in
`ctx.ChainAssetID`. On a chain where the two differ, two valid imports of the same UTXO that
burn 1000000 and 1500000 of the chain's asset for 11200 gas both price at zero, and the one
paying more is refused as a conflict of the one paying less. -/
theorem atomicTxGasPrice_ignores_chainAssetID :
    let ctx : AtomicContext ℕ (Fin 2) Unit := sampleSupernetContext
    let mempool : Mempool ℕ ℕ ℕ := NewMempool ctx.juneAssetID defaultMempoolSize none fun _ => 0
    let tx₁ := (sampleSupernetImportTx 1000000).mempoolTx ctx 1
    let tx₂ := (sampleSupernetImportTx 1500000).mempoolTx ctx 2
    ctx.chainAssetID ≠ ctx.juneAssetID ∧
      (sampleSupernetImportTx 1000000).SemanticVerify ctx false (.ok ()) [()] (some 25)
        sampleHeader.rules = .ok () ∧
      (sampleSupernetImportTx 1500000).SemanticVerify ctx false (.ok ()) [()] (some 25)
        sampleHeader.rules = .ok () ∧
      tx₁.gasUsed = .ok 11200 ∧ tx₁.burned ctx.chainAssetID = .ok 1000000 ∧
      tx₂.gasUsed = .ok 11200 ∧ tx₂.burned ctx.chainAssetID = .ok 1500000 ∧
      mempool.atomicTxGasPrice tx₁ = .ok 0 ∧ mempool.atomicTxGasPrice tx₂ = .ok 0 ∧
      ((mempool.AddTx tx₁).2.AddTx tx₂).1 = .error (.conflictingAtomicTx 2 0 none 0 1) := by
  decide

end Reference

end Jeth
