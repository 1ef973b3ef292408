import Mathlib
import Jeth.Lib.FlowChecker
import Jeth.Evm.StateObject
import Jeth.Atomic.SharedMemory
import Jeth.Evm.TxHeap

/-!
# Import and export transactions

`UnsignedImportTx` of `plugin/evm/import_tx.go` and `UnsignedExportTx` of
`plugin/evm/export_tx.go`: the two atomic transactions, which move funds between this chain's
EVM state and the shared memory of another chain. An import consumes UTXOs of the source chain
and credits EVM balances; an export debits EVM balances and puts UTXOs into the shared memory
of the destination chain. Both pay a fee in the chain's asset, which `SemanticVerify` charges
through a flow check.

The model keeps the checks of `Verify` and `SemanticVerify` in their order, with their error
texts. What they call outside this repository is a field of `AtomicContext`: the fields of
`snow.Context`, the ID arithmetic and the verification of the node library's inputs and
outputs. The checks `SemanticVerify` makes against shared memory and the signatures are
parameters of it. The EVM state is seen through `EVMState`: the native and multicoin balances
and the nonces, the only parts of a `StateDB` that `EVMStateTransfer` reads or writes.

The main result, `atomicTx_conserves_value`, is that an atomic transaction that passes
`SemanticVerify` from Apricot Phase 3 on never creates value: an import credits at most what
it consumes less the fee, and an export puts into shared memory at most what it debits less
the fee.
-/

namespace Jeth

open FlowChecker

/-! ## Constants, rules and context -/

/-- `x2cRate`: the wei of one nAVAX. -/
def x2cRate : ℕ := 1000000000

/-- `TxBytesGas`. -/
def TxBytesGas : ℕ := 1

/-- `secp256k1fx.CostPerSignature`. -/
def CostPerSignature : ℕ := 1000

/-- `params.AtomicTxBaseCost`. -/
def AtomicTxBaseCost : ℕ := 10000

/-- `params.AvalancheAtomicTxFee`, one milli-AVAX in nAVAX. -/
def AvalancheAtomicTxFee : ℕ := 1000000

/-- `params.Rules`, the forks the atomic transactions test. -/
structure Rules where
  isApricotPhase1 : Bool
  isApricotPhase2 : Bool
  isApricotPhase3 : Bool
  isApricotPhase4 : Bool
  isApricotPhase5 : Bool
  isBanff : Bool

/-- `avax.TransferableInput` with a `secp256k1fx.TransferInput`: the UTXO it spends, its asset,
its amount and its signature indices. -/
structure TransferableInput (ID : Type) where
  txID : ID
  outputIndex : ℕ
  assetID : ID
  amount : ℕ
  sigIndices : List ℕ

/-- `secp256k1fx.TransferOutput`. -/
structure TransferOutput (Owner : Type) where
  amount : ℕ
  locktime : ℕ
  threshold : ℕ
  addrs : List Owner

/-- `avax.TransferableOutput`. -/
structure TransferableOutput (ID Owner : Type) where
  assetID : ID
  out : TransferOutput Owner

/-- `avax.UTXO`. -/
structure UTXO (ID Owner : Type) where
  txID : ID
  outputIndex : ℕ
  assetID : ID
  out : TransferOutput Owner

/-- `atomic.Element`, with the UTXO in place of its encoding. -/
structure Element (ID Owner : Type) where
  key : ID
  value : UTXO ID Owner
  traits : List Owner

/-- What the atomic transactions read of the node outside this repository. -/
structure AtomicContext (ID Address Owner : Type) where
  networkID : ℕ
  chainID : ID
  jvmChainID : ID
  juneChainID : ID
  chainAssetID : ID
  juneAssetID : ID
  /-- `constants.PlatformChainID`. -/
  platformChainID : ID
  /-- `ids.Empty`. -/
  emptyID : ID
  /-- `ids.ID.String()`. -/
  idString : ID → String
  /-- `UTXOID.InputID()` of output `outputIndex` of transaction `txID`. -/
  inputID : ID → ℕ → ID
  /-- The ID an export input packs from its nonce and address. -/
  packNonceAddress : ℕ → Address → ID
  /-- `verify.SameSupernet(ctx, chainID)` succeeds. -/
  sameSupernet : ID → Bool
  /-- `params.IsPrimaryAssetID(ctx.NetworkID, assetID.String())`. -/
  isPrimaryAssetID : ID → Bool
  /-- `in.Verify()` of a transferable input. -/
  verifyInput : TransferableInput ID → Except String Unit
  /-- `out.Verify()` of a transferable output. -/
  verifyOutput : TransferableOutput ID Owner → Except String Unit
  /-- `avax.IsSortedTransferableOutputs(outs, Codec)`. -/
  isSortedTransferableOutputs : List (TransferableOutput ID Owner) → Bool

/-! ## Errors -/

/-- `errNilBaseFee`. -/
def errNilBaseFee : String := "cannot calculate dynamic fee with nil baseFee"
/-- `errFeeOverflow`. -/
def errFeeOverflow : String := "overflow occurred while calculating the fee"
/-- `errNoValueOutput`. -/
def errNoValueOutput : String := "output has no value"
/-- `errNoValueInput`. -/
def errNoValueInput : String := "input has no value"
/-- `errEmptyAssetID`. -/
def errEmptyAssetID : String := "empty asset ID is not valid"
/-- `errWrongNetworkID`. -/
def errWrongNetworkID : String := "tx was issued with a different network ID"
/-- `errWrongBlockchainID`. -/
def errWrongBlockchainID : String := "wrong blockchain ID provided"
/-- `errWrongChainID`. -/
def errWrongChainID : String := "tx has wrong chain ID"
/-- `errNoImportInputs`. -/
def errNoImportInputs : String := "tx has no imported inputs"
/-- `errNoExportOutputs`. -/
def errNoExportOutputs : String := "tx has no export outputs"
/-- `errNoEVMOutputs`. -/
def errNoEVMOutputs : String := "tx has no EVM outputs"
/-- `errInputsNotSortedUnique`. -/
def errInputsNotSortedUnique : String := "inputs not sorted and unique"
/-- `errOutputsNotSortedUnique`. -/
def errOutputsNotSortedUnique : String := "outputs not sorted and unique"
/-- `errOutputsNotSorted`. -/
def errOutputsNotSorted : String := "tx outputs not sorted"
/-- `errImportNonAVAXInputBanff`. -/
def errImportNonAVAXInputBanff : String := "import input cannot contain non-native asset in Banff"
/-- `errImportNonAVAXOutputBanff`. -/
def errImportNonAVAXOutputBanff : String :=
  "import output cannot contain non-native asset in Banff"
/-- `errExportNonAVAXInputBanff`. -/
def errExportNonAVAXInputBanff : String := "export input cannot contain non-native asset in Banff"
/-- `errExportNonAVAXOutputBanff`. -/
def errExportNonAVAXOutputBanff : String :=
  "export output cannot contain non-native asset in Banff"
/-- `errPublicKeySignatureMismatch`. -/
def errPublicKeySignatureMismatch : String := "signature doesn't match public key"
/-- `errInsufficientFunds`. -/
def errInsufficientFunds : String := "insufficient funds"
/-- `errInvalidNonce`. -/
def errInvalidNonce : String := "invalid nonce"

/-- The text of a flow check's error, as the node library formats it. -/
def FlowError.message {ID : Type} (idString : ID → String) : FlowError ID → String
  | .overflow => errOverflow
  | .insufficientFunds assetID consumed produced =>
    "insufficient funds " ++ idString assetID ++ ". Consumed " ++ toString consumed ++
      " but produced " ++ toString produced

/-- The text of a count mismatch between inputs and credentials. -/
def mismatchedCredentials (kind : String) (ins creds : ℕ) : String :=
  kind ++ " tx contained mismatched number of inputs/credentials (" ++ toString ins ++ " vs. " ++
    toString creds ++ ")"

/-! ## Fees and sorting -/

/-- `CalculateDynamicFee(cost, baseFee)`: the fee in nAVAX, rounded up; `none` is a nil
`baseFee`. -/
def CalculateDynamicFee (cost : ℕ) (baseFee : Option ℕ) : Except String ℕ :=
  match baseFee with
  | none => .error errNilBaseFee
  | some baseFee =>
    let feeInNAVAX := (cost * baseFee + (x2cRate - 1)) / x2cRate
    if feeInNAVAX < 2 ^ 64 then .ok feeInNAVAX else .error errFeeOverflow

/-- `calcBytesCost(len)`. -/
def calcBytesCost (len : ℕ) : ℕ := len * TxBytesGas

/-- `utils.IsSortedAndUnique` under a comparison: every element before the next. -/
def isSortedAndUnique {α : Type} (cmp : α → α → Ordering) : List α → Bool
  | x :: y :: rest => cmp x y == .lt && isSortedAndUnique cmp (y :: rest)
  | _ => true

/-- `slices.IsSortedFunc`: no element before the one preceding it. -/
def isSortedFunc {α : Type} (cmp : α → α → Ordering) : List α → Bool
  | x :: y :: rest => cmp y x != .lt && isSortedFunc cmp (y :: rest)
  | _ => true

/-- The part of a `StateDB` the atomic transactions read and write. -/
structure EVMState (ID Address : Type) where
  /-- `GetBalance`, in wei. -/
  balance : Address → ℕ
  /-- `GetBalanceMultiCoin`. -/
  balanceMultiCoin : Address → ID → ℕ
  /-- `GetNonce`. -/
  nonce : Address → ℕ

variable {ID Address Owner : Type} [DecidableEq ID] [DecidableEq Address]

namespace EVMState

/-- `AddBalance`. -/
def addBalance (s : EVMState ID Address) (a : Address) (amount : ℕ) : EVMState ID Address :=
  { s with balance := Function.update s.balance a (s.balance a + amount) }

/-- `SubBalance`, after its caller has checked the balance. -/
def subBalance (s : EVMState ID Address) (a : Address) (amount : ℕ) : EVMState ID Address :=
  { s with balance := Function.update s.balance a (s.balance a - amount) }

/-- `AddBalanceMultiCoin`. -/
def addBalanceMultiCoin (s : EVMState ID Address) (a : Address) (coin : ID) (amount : ℕ) :
    EVMState ID Address :=
  let coins := Function.update (s.balanceMultiCoin a) coin (s.balanceMultiCoin a coin + amount)
  { s with balanceMultiCoin := Function.update s.balanceMultiCoin a coins }

/-- `SubBalanceMultiCoin`, after its caller has checked the balance. -/
def subBalanceMultiCoin (s : EVMState ID Address) (a : Address) (coin : ID) (amount : ℕ) :
    EVMState ID Address :=
  let coins := Function.update (s.balanceMultiCoin a) coin (s.balanceMultiCoin a coin - amount)
  { s with balanceMultiCoin := Function.update s.balanceMultiCoin a coins }

/-- `SetNonce`. -/
def setNonce (s : EVMState ID Address) (a : Address) (nonce : ℕ) : EVMState ID Address :=
  { s with nonce := Function.update s.nonce a nonce }

/-! Each operation leaves the other kind of balance alone. -/

omit [DecidableEq ID] in
@[simp] theorem balanceMultiCoin_addBalance (s : EVMState ID Address) (a : Address) (amount : ℕ) :
    (s.addBalance a amount).balanceMultiCoin = s.balanceMultiCoin := rfl

omit [DecidableEq ID] in
@[simp] theorem balanceMultiCoin_subBalance (s : EVMState ID Address) (a : Address) (amount : ℕ) :
    (s.subBalance a amount).balanceMultiCoin = s.balanceMultiCoin := rfl

@[simp] theorem balance_addBalanceMultiCoin (s : EVMState ID Address) (a : Address) (coin : ID)
    (amount : ℕ) : (s.addBalanceMultiCoin a coin amount).balance = s.balance := rfl

@[simp] theorem balance_subBalanceMultiCoin (s : EVMState ID Address) (a : Address) (coin : ID)
    (amount : ℕ) : (s.subBalanceMultiCoin a coin amount).balance = s.balance := rfl

end EVMState

/-! ## Inputs and outputs of the EVM side -/

/-- `EVMOutput`: a credit of an import. -/
structure EVMOutput (ID Address : Type) where
  address : Address
  amount : ℕ
  assetID : ID

/-- `EVMInput`: a debit of an export. -/
structure EVMInput (ID Address : Type) where
  address : Address
  amount : ℕ
  assetID : ID
  nonce : ℕ

deriving instance DecidableEq for EVMInput

/-- `EVMOutput.Verify()`. -/
def EVMOutput.Verify (emptyID : ID) (out : EVMOutput ID Address) : Except String Unit :=
  if out.amount = 0 then .error errNoValueOutput
  else if out.assetID = emptyID then .error errEmptyAssetID
  else .ok ()

/-- `EVMInput.Verify()`. -/
def EVMInput.Verify (emptyID : ID) (input : EVMInput ID Address) : Except String Unit :=
  if input.amount = 0 then .error errNoValueInput
  else if input.assetID = emptyID then .error errEmptyAssetID
  else .ok ()

section Compare

variable [LinearOrder ID] [LinearOrder Address]

/-- `EVMOutput.Compare`: by address, then by asset. -/
def EVMOutput.compare (o o' : EVMOutput ID Address) : Ordering :=
  (Ord.compare o.address o'.address).then (Ord.compare o.assetID o'.assetID)

/-- `EVMInput.Compare`: by address, then by asset. -/
def EVMInput.compare (i i' : EVMInput ID Address) : Ordering :=
  (Ord.compare i.address i'.address).then (Ord.compare i.assetID i'.assetID)

/-- `TransferableInput.Compare`: by the UTXO's transaction, then by its output index. -/
def TransferableInput.compare (i i' : TransferableInput ID) : Ordering :=
  (Ord.compare i.txID i'.txID).then (Ord.compare i.outputIndex i'.outputIndex)

end Compare

/-- `in.In.Cost()`: one signature check per signature index. -/
def TransferableInput.Cost [CheckedArith] (input : TransferableInput ID) : Except String ℕ :=
  mul64 input.sigIndices.length CostPerSignature

/-! ## Import transactions -/

/-- `UnsignedImportTx`; `bytesLen` is `len(utx.Bytes())`, the length of its encoding. -/
structure UnsignedImportTx (ID Address : Type) where
  networkID : ℕ
  blockchainID : ID
  sourceChain : ID
  importedInputs : List (TransferableInput ID)
  outs : List (EVMOutput ID Address)
  bytesLen : ℕ

namespace UnsignedImportTx

variable (ctx : AtomicContext ID Address Owner) [CheckedArith] [FlowChecker ID]

/-- `InputUTXOs()`, in the order of the inputs. -/
def InputUTXOs (utx : UnsignedImportTx ID Address) : List ID :=
  utx.importedInputs.map fun input => ctx.inputID input.txID input.outputIndex

/-- The checks of `Verify` on one output. -/
def verifyOut (rules : Rules) (out : EVMOutput ID Address) : Except String Unit := do
  match out.Verify ctx.emptyID with
  | .error err => throw ("EVM Output failed verification: " ++ err)
  | .ok () => pure ()
  if rules.isBanff ∧ out.assetID ≠ ctx.chainAssetID then
    if ctx.chainID ≠ ctx.juneChainID then throw errImportNonAVAXOutputBanff
    if !ctx.isPrimaryAssetID out.assetID then throw errImportNonAVAXOutputBanff

/-- The checks of `Verify` on one input. -/
def verifyInput (rules : Rules) (input : TransferableInput ID) : Except String Unit := do
  match ctx.verifyInput input with
  | .error err => throw ("atomic input failed verification: " ++ err)
  | .ok () => pure ()
  if rules.isBanff ∧ input.assetID ≠ ctx.chainAssetID then
    if ctx.chainID ≠ ctx.juneChainID then throw errImportNonAVAXInputBanff
    if !ctx.isPrimaryAssetID input.assetID then throw errImportNonAVAXInputBanff

/-- `Verify(ctx, rules)`. -/
def Verify [LinearOrder ID] [LinearOrder Address] (rules : Rules)
    (utx : UnsignedImportTx ID Address) : Except String Unit := do
  if utx.importedInputs = [] then throw errNoImportInputs
  if utx.networkID ≠ ctx.networkID then throw errWrongNetworkID
  if ctx.chainID ≠ utx.blockchainID then throw errWrongBlockchainID
  if rules.isApricotPhase3 ∧ utx.outs = [] then throw errNoEVMOutputs
  if rules.isApricotPhase5 then
    if !ctx.sameSupernet utx.sourceChain then throw errWrongChainID
  else if utx.sourceChain ≠ ctx.jvmChainID then throw errWrongChainID
  utx.outs.forM (verifyOut ctx rules)
  utx.importedInputs.forM (verifyInput ctx rules)
  if !isSortedAndUnique TransferableInput.compare utx.importedInputs then
    throw errInputsNotSortedUnique
  if rules.isApricotPhase2 then
    if !isSortedAndUnique EVMOutput.compare utx.outs then throw errOutputsNotSortedUnique
  else if rules.isApricotPhase1 then
    if !isSortedFunc EVMOutput.compare utx.outs then throw errOutputsNotSorted

/-- `GasUsed(fixedFee)`: the bytes, one signature check per signature index, and the base cost
when the fee is fixed. -/
def GasUsed (utx : UnsignedImportTx ID Address) (fixedFee : Bool) : Except String ℕ := do
  let cost ← utx.importedInputs.foldlM
    (fun cost input => do let inCost ← input.Cost; add64 cost inCost) (calcBytesCost utx.bytesLen)
  if fixedFee then add64 cost AtomicTxBaseCost else pure cost

/-- `Burned(assetID)`: what the inputs of the asset hold beyond its outputs. -/
def Burned (utx : UnsignedImportTx ID Address) (assetID : ID) : Except String ℕ := do
  let spent ← (utx.outs.filter fun out => out.assetID = assetID).foldlM
    (fun spent out => add64 spent out.amount) 0
  let input ← (utx.importedInputs.filter fun input => input.assetID = assetID).foldlM
    (fun input i => add64 input i.amount) 0
  sub64 input spent

/-- The amounts of the outputs, by asset. -/
def outAmounts (utx : UnsignedImportTx ID Address) : List (ID × ℕ) :=
  utx.outs.map fun out => (out.assetID, out.amount)

/-- The amounts of the inputs, by asset: what the UTXOs the import consumes hold. -/
def inAmounts (utx : UnsignedImportTx ID Address) : List (ID × ℕ) :=
  utx.importedInputs.map fun input => (input.assetID, input.amount)

/-- The fee the flow check of `SemanticVerify` produces: dynamic from Apricot Phase 3, fixed in
Apricot Phase 2, none before. -/
def feeProduced (rules : Rules) (baseFee : Option ℕ) (utx : UnsignedImportTx ID Address) :
    Except String (List (ID × ℕ)) :=
  if rules.isApricotPhase3 then do
    let gasUsed ← utx.GasUsed rules.isApricotPhase5
    let txFee ← CalculateDynamicFee gasUsed baseFee
    pure [(ctx.chainAssetID, txFee)]
  else if rules.isApricotPhase2 then pure [(ctx.chainAssetID, AvalancheAtomicTxFee)]
  else pure []

/-- `SemanticVerify(vm, stx, parent, baseFee, rules)`. Once bootstrapped, the source fetches the
inputs' UTXOs from shared memory, checks their assets and transfers, and looks for conflicts
with the ancestors; `utxoChecks` is the outcome of these checks. -/
def SemanticVerify [LinearOrder ID] [LinearOrder Address] {Cred : Type} (bootstrapped : Bool)
    (utxoChecks : Except String Unit) (utx : UnsignedImportTx ID Address) (creds : List Cred)
    (baseFee : Option ℕ) (rules : Rules) : Except String Unit := do
  utx.Verify ctx rules
  let fee ← utx.feeProduced ctx rules baseFee
  match FlowChecker.verify (fee ++ utx.outAmounts) utx.inAmounts with
  | .error err => throw ("import tx flow check failed due to: " ++ err.message ctx.idString)
  | .ok () => pure ()
  if creds.length ≠ utx.importedInputs.length then
    throw (mismatchedCredentials "import" utx.importedInputs.length creds.length)
  if bootstrapped then utxoChecks

/-- `AtomicOps()`: remove the consumed UTXOs from the source chain's shared memory. -/
def AtomicOps (utx : UnsignedImportTx ID Address) : ID × Requests ID (Element ID Owner) :=
  (utx.sourceChain, ⟨utx.InputUTXOs ctx, []⟩)

/-- `EVMStateTransfer(ctx, state)`: credit every output, the chain's asset in wei. -/
def EVMStateTransfer (utx : UnsignedImportTx ID Address) (s : EVMState ID Address) :
    Except String (EVMState ID Address) :=
  .ok (utx.outs.foldl (fun s out =>
    if out.assetID = ctx.chainAssetID then s.addBalance out.address (out.amount * x2cRate)
    else s.addBalanceMultiCoin out.address out.assetID out.amount) s)

/-- What the mempool reads of the import: `tx.ID()` (here given), its inputs, its gas and its
burns. -/
def mempoolTx (txID : ID) (utx : UnsignedImportTx ID Address) : Tx ID ID ID :=
  ⟨txID, utx.InputUTXOs ctx, utx.GasUsed true, utx.Burned⟩

end UnsignedImportTx

/-! ## Export transactions -/

/-- `UnsignedExportTx`; `bytesLen` is `len(utx.Bytes())`. -/
structure UnsignedExportTx (ID Address Owner : Type) where
  networkID : ℕ
  blockchainID : ID
  destinationChain : ID
  ins : List (EVMInput ID Address)
  exportedOutputs : List (TransferableOutput ID Owner)
  bytesLen : ℕ

namespace UnsignedExportTx

variable (ctx : AtomicContext ID Address Owner) [CheckedArith] [FlowChecker ID]

/-- `InputUTXOs()`: one ID per input, packed from its nonce and address. -/
def InputUTXOs (utx : UnsignedExportTx ID Address Owner) : List ID :=
  utx.ins.map fun input => ctx.packNonceAddress input.nonce input.address

/-- The checks of `Verify` on one input. -/
def verifyInput (rules : Rules) (input : EVMInput ID Address) : Except String Unit := do
  input.Verify ctx.emptyID
  if rules.isBanff ∧ input.assetID ≠ ctx.chainAssetID then
    if ctx.chainID ≠ ctx.juneChainID then throw errExportNonAVAXInputBanff
    if !ctx.isPrimaryAssetID input.assetID then throw errExportNonAVAXInputBanff

/-- The checks of `Verify` on one output. A non-native output off the JUNE chain is refused with
the import's error, as the source has it. -/
def verifyOut (rules : Rules) (destinationChain : ID) (out : TransferableOutput ID Owner) :
    Except String Unit := do
  ctx.verifyOutput out
  if out.assetID ≠ ctx.juneAssetID ∧ destinationChain = ctx.platformChainID then
    throw errWrongChainID
  if rules.isBanff ∧ out.assetID ≠ ctx.chainAssetID then
    if ctx.chainID ≠ ctx.juneChainID then throw errImportNonAVAXOutputBanff
    if !ctx.isPrimaryAssetID out.assetID then throw errExportNonAVAXOutputBanff

/-- `Verify(ctx, rules)`. -/
def Verify [LinearOrder ID] [LinearOrder Address] (rules : Rules)
    (utx : UnsignedExportTx ID Address Owner) : Except String Unit := do
  if utx.exportedOutputs = [] then throw errNoExportOutputs
  if utx.networkID ≠ ctx.networkID then throw errWrongNetworkID
  if ctx.chainID ≠ utx.blockchainID then throw errWrongBlockchainID
  if rules.isApricotPhase5 then
    if !ctx.sameSupernet utx.destinationChain then throw errWrongChainID
  else if utx.destinationChain ≠ ctx.jvmChainID then throw errWrongChainID
  utx.ins.forM (verifyInput ctx rules)
  utx.exportedOutputs.forM (verifyOut ctx rules utx.destinationChain)
  if !ctx.isSortedTransferableOutputs utx.exportedOutputs then throw errOutputsNotSorted
  if rules.isApricotPhase1 ∧ !isSortedAndUnique EVMInput.compare utx.ins then
    throw errInputsNotSortedUnique

/-- `GasUsed(fixedFee)`: the bytes, one signature per input, and the base cost when the fee is
fixed. -/
def GasUsed (utx : UnsignedExportTx ID Address Owner) (fixedFee : Bool) : Except String ℕ := do
  let sigCost ← mul64 utx.ins.length CostPerSignature
  let cost ← add64 (calcBytesCost utx.bytesLen) sigCost
  if fixedFee then add64 cost AtomicTxBaseCost else pure cost

/-- `Burned(assetID)`: what the inputs of the asset hold beyond its outputs. -/
def Burned (utx : UnsignedExportTx ID Address Owner) (assetID : ID) : Except String ℕ := do
  let spent ← (utx.exportedOutputs.filter fun out => out.assetID = assetID).foldlM
    (fun spent out => add64 spent out.out.amount) 0
  let input ← (utx.ins.filter fun input => input.assetID = assetID).foldlM
    (fun input i => add64 input i.amount) 0
  sub64 input spent

/-- The amounts of the inputs, by asset: what the export debits. -/
def inAmounts (utx : UnsignedExportTx ID Address Owner) : List (ID × ℕ) :=
  utx.ins.map fun input => (input.assetID, input.amount)

/-- The amounts of the exported outputs, by asset. -/
def outAmounts (utx : UnsignedExportTx ID Address Owner) : List (ID × ℕ) :=
  utx.exportedOutputs.map fun out => (out.assetID, out.out.amount)

/-- The fee the flow check of `SemanticVerify` produces: dynamic from Apricot Phase 3, and
fixed before. -/
def feeProduced (rules : Rules) (baseFee : Option ℕ) (utx : UnsignedExportTx ID Address Owner) :
    Except String (List (ID × ℕ)) :=
  if rules.isApricotPhase3 then do
    let gasUsed ← utx.GasUsed rules.isApricotPhase5
    let txFee ← CalculateDynamicFee gasUsed baseFee
    pure [(ctx.chainAssetID, txFee)]
  else pure [(ctx.chainAssetID, AvalancheAtomicTxFee)]

/-- The signature check of `SemanticVerify` for each input: `credAddress` is the address the
credential's one signature recovers to, or the error of the credential. -/
def verifyCreds {Cred : Type} (credAddress : Cred → Except String Address) :
    List (EVMInput ID Address) → List Cred → Except String Unit
  | input :: ins, cred :: creds => do
    let address ← credAddress cred
    if input.address ≠ address then throw errPublicKeySignatureMismatch
    verifyCreds credAddress ins creds
  | _, _ => pure ()

/-- `SemanticVerify(vm, stx, parent, baseFee, rules)`. -/
def SemanticVerify [LinearOrder ID] [LinearOrder Address] {Cred : Type}
    (credAddress : Cred → Except String Address) (utx : UnsignedExportTx ID Address Owner)
    (creds : List Cred) (baseFee : Option ℕ) (rules : Rules) : Except String Unit := do
  utx.Verify ctx rules
  let fee ← utx.feeProduced ctx rules baseFee
  match FlowChecker.verify (fee ++ utx.outAmounts) utx.inAmounts with
  | .error err => throw ("export tx flow check failed due to: " ++ err.message ctx.idString)
  | .ok () => pure ()
  if utx.ins.length ≠ creds.length then
    throw (mismatchedCredentials "export" utx.ins.length creds.length)
  verifyCreds credAddress utx.ins creds

/-- `AtomicOps()`: put one UTXO per exported output into the destination chain's shared memory,
keyed by its input ID and traced by the output's owners. -/
def AtomicOps (txID : ID) (utx : UnsignedExportTx ID Address Owner) :
    ID × Requests ID (Element ID Owner) :=
  (utx.destinationChain,
    ⟨[], utx.exportedOutputs.mapIdx fun i out =>
      ⟨ctx.inputID txID i, ⟨txID, i, out.assetID, out.out⟩, out.out.addrs⟩⟩)

/-- The loop of `EVMStateTransfer` over the inputs: check and debit each balance, check each
nonce, and record the nonce of each address. -/
def transferLoop : List (EVMInput ID Address) → EVMState ID Address →
    AList (fun _ : Address => ℕ) → Except String (EVMState ID Address × AList (fun _ : Address => ℕ))
  | [], s, addrs => .ok (s, addrs)
  | input :: ins, s, addrs =>
    let debited : Except String (EVMState ID Address) :=
      if input.assetID = ctx.chainAssetID then
        if s.balance input.address < input.amount * x2cRate then .error errInsufficientFunds
        else .ok (s.subBalance input.address (input.amount * x2cRate))
      else if s.balanceMultiCoin input.address input.assetID < input.amount then
        .error errInsufficientFunds
      else .ok (s.subBalanceMultiCoin input.address input.assetID input.amount)
    match debited with
    | .error err => .error err
    | .ok s =>
      if s.nonce input.address ≠ input.nonce then .error errInvalidNonce
      else transferLoop ins s (addrs.insert input.address input.nonce)

/-- `EVMStateTransfer(ctx, state)`: debit every input, then bump the nonce of every address. -/
def EVMStateTransfer (utx : UnsignedExportTx ID Address Owner) (s : EVMState ID Address) :
    Except String (EVMState ID Address) :=
  match transferLoop ctx utx.ins s ∅ with
  | .error err => .error err
  | .ok (s, addrs) => .ok (addrs.entries.foldl (fun s e => s.setNonce e.1 (e.2 + 1)) s)

/-- What the mempool reads of the export. -/
def mempoolTx (txID : ID) (utx : UnsignedExportTx ID Address Owner) : Tx ID ID ID :=
  ⟨txID, utx.InputUTXOs ctx, utx.GasUsed true, utx.Burned⟩

end UnsignedExportTx

/-! ## Balances over all accounts -/

section Sums

variable {ι : Type} [Fintype ι] [DecidableEq ι]

theorem sum_update_add (f : ι → ℕ) (a : ι) (c : ℕ) :
    ∑ x, Function.update f a (f a + c) x = ∑ x, f x + c := by
  rw [Finset.sum_update_of_mem (Finset.mem_univ a), Finset.sdiff_singleton_eq_erase,
    ← Finset.add_sum_erase _ f (Finset.mem_univ a)]
  omega

theorem sum_update_sub (f : ι → ℕ) {a : ι} {c : ℕ} (h : c ≤ f a) :
    ∑ x, Function.update f a (f a - c) x + c = ∑ x, f x := by
  rw [Finset.sum_update_of_mem (Finset.mem_univ a), Finset.sdiff_singleton_eq_erase,
    ← Finset.add_sum_erase _ f (Finset.mem_univ a)]
  omega

end Sums

namespace EVMState

variable [Fintype Address] (s : EVMState ID Address)

omit [DecidableEq ID] in
theorem sum_balance_addBalance (a : Address) (amount : ℕ) :
    ∑ x, (s.addBalance a amount).balance x = ∑ x, s.balance x + amount :=
  sum_update_add s.balance a amount

omit [DecidableEq ID] in
theorem sum_balance_subBalance {a : Address} {amount : ℕ} (h : amount ≤ s.balance a) :
    ∑ x, (s.subBalance a amount).balance x + amount = ∑ x, s.balance x :=
  sum_update_sub s.balance h

omit [Fintype Address] in
/-- The holdings of one coin over all accounts, as a function of the account. -/
theorem multiCoin_update_apply (a : Address) (coin b : ID) (v : ℕ) (x : Address) :
    Function.update s.balanceMultiCoin a (Function.update (s.balanceMultiCoin a) coin v) x b =
      Function.update (fun y => s.balanceMultiCoin y b) a
        (if coin = b then v else s.balanceMultiCoin a b) x := by
  by_cases hx : x = a
  · subst hx
    by_cases hb : coin = b
    · subst hb; simp
    · simp [hb, Function.update_of_ne (Ne.symm hb)]
  · simp [Function.update_of_ne hx]

theorem sum_multiCoin_addBalanceMultiCoin (a : Address) (coin b : ID) (amount : ℕ) :
    ∑ x, (s.addBalanceMultiCoin a coin amount).balanceMultiCoin x b =
      ∑ x, s.balanceMultiCoin x b + if coin = b then amount else 0 := by
  simp only [addBalanceMultiCoin, multiCoin_update_apply]
  split_ifs with hb
  · subst hb; exact sum_update_add (fun y => s.balanceMultiCoin y coin) a amount
  · simp

theorem sum_multiCoin_subBalanceMultiCoin {a : Address} {coin : ID} {amount : ℕ}
    (h : amount ≤ s.balanceMultiCoin a coin) (b : ID) :
    ∑ x, (s.subBalanceMultiCoin a coin amount).balanceMultiCoin x b +
      (if coin = b then amount else 0) = ∑ x, s.balanceMultiCoin x b := by
  simp only [subBalanceMultiCoin, multiCoin_update_apply]
  split_ifs with hb
  · subst hb; exact sum_update_sub (fun y => s.balanceMultiCoin y coin) h
  · simp

end EVMState

/-! ## Conservation -/

/-- The amounts an export's requests put into shared memory, by asset. -/
def putAmounts (r : Requests ID (Element ID Owner)) : List (ID × ℕ) :=
  r.putRequests.map fun e => (e.value.assetID, e.value.out.amount)

theorem map_mapIdx_eq_map {α β γ : Type} (l : List α) (f : ℕ → α → β) (g : β → γ) (k : α → γ)
    (hfg : ∀ i a, g (f i a) = k a) : (l.mapIdx f).map g = l.map k := by
  induction l generalizing f with
  | nil => rfl
  | cons a l ih =>
    rw [List.mapIdx_cons, List.map_cons, List.map_cons, hfg, ih _ fun i a => hfg (i + 1) a]

omit [DecidableEq ID] [DecidableEq Address] in
/-- An export puts into shared memory exactly its exported outputs. -/
theorem putAmounts_AtomicOps (ctx : AtomicContext ID Address Owner) (txID : ID)
    (utx : UnsignedExportTx ID Address Owner) :
    putAmounts (utx.AtomicOps ctx txID).2 = utx.outAmounts :=
  map_mapIdx_eq_map _ _ _ _ fun _ _ => rfl

theorem total_singleton (a b : ID) (x : ℕ) :
    total [(a, x)] b = if a = b then x else 0 := by
  simp [total_cons]

/-- A flow check that accepts the fee and the outputs against the inputs bounds every asset's
outputs by its inputs, less the fee for the chain's asset. -/
theorem total_le_of_flow [FlowChecker ID] {outs ins : List (ID × ℕ)} {chainAssetID : ID}
    {txFee : ℕ} (h : FlowChecker.verify ([(chainAssetID, txFee)] ++ outs) ins = .ok ()) :
    total outs chainAssetID + txFee ≤ total ins chainAssetID ∧
      ∀ a, a ≠ chainAssetID → total outs a ≤ total ins a := by
  refine ⟨?_, fun a ha => ?_⟩
  · have := verify_run_le h chainAssetID
    rw [total_append, total_singleton, if_pos rfl] at this
    omega
  · have := verify_run_le h a
    rw [total_append, total_singleton, if_neg (Ne.symm ha)] at this
    omega

/-- From Apricot Phase 3 on the fee a flow check produces is the dynamic fee of the gas; a
check that accepts it bounds every asset's outputs by its inputs, less that fee for the chain's
asset. -/
theorem totals_of_dynamicFee_flow [FlowChecker ID] {fee outs ins : List (ID × ℕ)}
    {baseFee : Option ℕ} {gasUsed : Except String ℕ} {chainAssetID : ID}
    (hfee : (do
      let gasUsed ← gasUsed
      let txFee ← CalculateDynamicFee gasUsed baseFee
      pure [(chainAssetID, txFee)] : Except String (List (ID × ℕ))) = .ok fee)
    (hflow : FlowChecker.verify (fee ++ outs) ins = .ok ()) :
    ∃ txFee, (gasUsed >>= fun gas => CalculateDynamicFee gas baseFee) = .ok txFee ∧
      total outs chainAssetID + txFee ≤ total ins chainAssetID ∧
      ∀ a, a ≠ chainAssetID → total outs a ≤ total ins a := by
  obtain ⟨gas, hgas, h⟩ := except_bind_eq_ok.mp hfee
  obtain ⟨txFee, htxFee, h⟩ := except_bind_eq_ok.mp h
  cases h
  exact ⟨txFee, by rw [hgas]; exact htxFee, total_le_of_flow hflow⟩

namespace UnsignedImportTx

variable [Fintype Address] (ctx : AtomicContext ID Address Owner)

/-- The credits of an import, summed over all accounts: the chain's asset in wei. -/
theorem sum_balance_foldl_credit (outs : List (EVMOutput ID Address)) (s : EVMState ID Address) :
    let s' := outs.foldl (fun s out =>
      if out.assetID = ctx.chainAssetID then s.addBalance out.address (out.amount * x2cRate)
      else s.addBalanceMultiCoin out.address out.assetID out.amount) s
    ∑ x, s'.balance x =
        ∑ x, s.balance x + x2cRate * total (outs.map fun out => (out.assetID, out.amount))
          ctx.chainAssetID ∧
      ∀ b, b ≠ ctx.chainAssetID → ∑ x, s'.balanceMultiCoin x b =
        ∑ x, s.balanceMultiCoin x b + total (outs.map fun out => (out.assetID, out.amount)) b := by
  induction outs generalizing s with
  | nil => simp
  | cons out outs ih =>
    obtain ⟨ihb, ihm⟩ := ih
      (if out.assetID = ctx.chainAssetID then s.addBalance out.address (out.amount * x2cRate)
        else s.addBalanceMultiCoin out.address out.assetID out.amount)
    refine ⟨?_, fun b hb => ?_⟩
    · rw [List.foldl_cons, ihb, List.map_cons, total_cons]
      -- a credit of the chain's asset moves the native balances, any other the multicoin ones
      split_ifs with hc
      · rw [EVMState.sum_balance_addBalance]; ring
      · simp [EVMState.addBalanceMultiCoin]
    · rw [List.foldl_cons, ihm b hb, List.map_cons, total_cons]
      split_ifs with hc hcb hcb
      · exact absurd (hc.symm.trans hcb) (Ne.symm hb)
      · simp [EVMState.addBalance]
      · rw [EVMState.sum_multiCoin_addBalanceMultiCoin, if_pos hcb]; ring
      · rw [EVMState.sum_multiCoin_addBalanceMultiCoin, if_neg hcb]; ring

omit [DecidableEq Address] [Fintype Address] in
/-- Its flow check is what an accepting `SemanticVerify` leaves of an import. -/
theorem flow_of_SemanticVerify [LinearOrder ID] [LinearOrder Address] [CheckedArith]
    [FlowChecker ID] {Cred : Type}
    {bootstrapped : Bool} {utxoChecks : Except String Unit} {utx : UnsignedImportTx ID Address}
    {creds : List Cred} {baseFee : Option ℕ} {rules : Rules}
    (h : utx.SemanticVerify ctx bootstrapped utxoChecks creds baseFee rules = .ok ()) :
    ∃ fee, utx.feeProduced ctx rules baseFee = .ok fee ∧
      FlowChecker.verify (fee ++ utx.outAmounts) utx.inAmounts = .ok () := by
  unfold SemanticVerify at h
  obtain ⟨_, -, h⟩ := except_bind_eq_ok.mp h
  obtain ⟨fee, hfee, h⟩ := except_bind_eq_ok.mp h
  refine ⟨fee, hfee, ?_⟩
  -- a rejecting flow check throws, and nothing after it runs
  cases hflow : FlowChecker.verify (fee ++ utx.outAmounts) utx.inAmounts with
  | error err => simp [hflow] at h
  | ok u => rfl

omit [DecidableEq Address] [Fintype Address] in
/-- From Apricot Phase 3 on, an import that passes `SemanticVerify` outputs of every asset at
most what it consumes, less the dynamic fee for the chain's asset. -/
theorem totals_of_SemanticVerify [LinearOrder ID] [LinearOrder Address] [CheckedArith]
    [FlowChecker ID] {Cred : Type}
    {bootstrapped : Bool} {utxoChecks : Except String Unit} {utx : UnsignedImportTx ID Address}
    {creds : List Cred} {baseFee : Option ℕ} {rules : Rules}
    (hAP3 : rules.isApricotPhase3 = true)
    (h : utx.SemanticVerify ctx bootstrapped utxoChecks creds baseFee rules = .ok ()) :
    ∃ txFee, (utx.GasUsed rules.isApricotPhase5 >>= fun gas => CalculateDynamicFee gas baseFee) =
        .ok txFee ∧
      total utx.outAmounts ctx.chainAssetID + txFee ≤ total utx.inAmounts ctx.chainAssetID ∧
      ∀ a, a ≠ ctx.chainAssetID → total utx.outAmounts a ≤ total utx.inAmounts a := by
  obtain ⟨fee, hfee, hflow⟩ := flow_of_SemanticVerify ctx h
  rw [feeProduced, if_pos hAP3] at hfee
  exact totals_of_dynamicFee_flow hfee hflow

end UnsignedImportTx

namespace UnsignedExportTx

variable [Fintype Address] (ctx : AtomicContext ID Address Owner)

/-- The debits of an export's inputs, summed over all accounts, when every check passes. -/
theorem sum_balance_transferLoop (ins : List (EVMInput ID Address)) (s : EVMState ID Address)
    (addrs : AList (fun _ : Address => ℕ)) {s' : EVMState ID Address}
    {addrs' : AList (fun _ : Address => ℕ)} (h : transferLoop ctx ins s addrs = .ok (s', addrs')) :
    ∑ x, s.balance x = ∑ x, s'.balance x +
        x2cRate * total (ins.map fun input => (input.assetID, input.amount)) ctx.chainAssetID ∧
      ∀ b, b ≠ ctx.chainAssetID → ∑ x, s.balanceMultiCoin x b =
        ∑ x, s'.balanceMultiCoin x b + total (ins.map fun input => (input.assetID, input.amount)) b := by
  induction ins generalizing s addrs with
  | nil => cases h; simp
  | cons input ins ih =>
    simp only [transferLoop] at h
    -- the debit of the chain's asset comes off the native balances, any other off the
    -- multicoin ones; each is checked against the balance first
    by_cases hc : input.assetID = ctx.chainAssetID
    · rw [if_pos hc] at h
      split_ifs at h with hlt
      simp only at h
      split_ifs at h with hnonce
      obtain ⟨ihb, ihm⟩ := ih _ _ h
      have hle : input.amount * x2cRate ≤ s.balance input.address := Nat.le_of_not_lt hlt
      refine ⟨?_, fun b hb => ?_⟩
      · rw [List.map_cons, total_cons, if_pos hc, ← EVMState.sum_balance_subBalance s hle, ihb]
        ring
      · rw [List.map_cons, total_cons, if_neg (by rw [hc]; exact Ne.symm hb), Nat.zero_add,
          ← ihm b hb, EVMState.balanceMultiCoin_subBalance]
    · rw [if_neg hc] at h
      split_ifs at h with hlt
      simp only at h
      split_ifs at h with hnonce
      obtain ⟨ihb, ihm⟩ := ih _ _ h
      have hle : input.amount ≤ s.balanceMultiCoin input.address input.assetID :=
        Nat.le_of_not_lt hlt
      refine ⟨?_, fun b hb => ?_⟩
      · rw [List.map_cons, total_cons, if_neg hc, Nat.zero_add,
          ← ihb, EVMState.balance_subBalanceMultiCoin]
      · rw [List.map_cons, total_cons, ← EVMState.sum_multiCoin_subBalanceMultiCoin s hle b,
          ihm b hb]
        ring

omit [DecidableEq ID] [Fintype Address] in
/-- Bumping the nonces leaves every balance alone. -/
theorem foldl_setNonce_balances (entries : List (Sigma fun _ : Address => ℕ))
    (s : EVMState ID Address) :
    (entries.foldl (fun s e => s.setNonce e.1 (e.2 + 1)) s).balance = s.balance ∧
      (entries.foldl (fun s e => s.setNonce e.1 (e.2 + 1)) s).balanceMultiCoin =
        s.balanceMultiCoin := by
  induction entries generalizing s with
  | nil => exact ⟨rfl, rfl⟩
  | cons e entries ih => exact ih _

/-- The debits of an export, summed over all accounts. -/
theorem sum_balance_EVMStateTransfer {utx : UnsignedExportTx ID Address Owner}
    {s s' : EVMState ID Address} (h : utx.EVMStateTransfer ctx s = .ok s') :
    ∑ x, s.balance x = ∑ x, s'.balance x + x2cRate * total utx.inAmounts ctx.chainAssetID ∧
      ∀ b, b ≠ ctx.chainAssetID →
        ∑ x, s.balanceMultiCoin x b = ∑ x, s'.balanceMultiCoin x b + total utx.inAmounts b := by
  unfold EVMStateTransfer at h
  split at h
  · cases h
  · next s₁ addrs hloop =>
    cases h
    obtain ⟨hbal, hmulti⟩ := foldl_setNonce_balances addrs.entries s₁
    rw [hbal, hmulti]
    exact sum_balance_transferLoop ctx utx.ins s ∅ hloop

omit [Fintype Address] in
/-- Its flow check is what an accepting `SemanticVerify` leaves of an export. -/
theorem flow_of_SemanticVerify [LinearOrder ID] [LinearOrder Address] [CheckedArith]
    [FlowChecker ID] {Cred : Type}
    {credAddress : Cred → Except String Address} {utx : UnsignedExportTx ID Address Owner}
    {creds : List Cred} {baseFee : Option ℕ} {rules : Rules}
    (h : utx.SemanticVerify ctx credAddress creds baseFee rules = .ok ()) :
    ∃ fee, utx.feeProduced ctx rules baseFee = .ok fee ∧
      FlowChecker.verify (fee ++ utx.outAmounts) utx.inAmounts = .ok () := by
  unfold SemanticVerify at h
  obtain ⟨_, -, h⟩ := except_bind_eq_ok.mp h
  obtain ⟨fee, hfee, h⟩ := except_bind_eq_ok.mp h
  refine ⟨fee, hfee, ?_⟩
  -- a rejecting flow check throws, and nothing after it runs
  cases hflow : FlowChecker.verify (fee ++ utx.outAmounts) utx.inAmounts with
  | error err => simp [hflow] at h
  | ok u => rfl

omit [Fintype Address] in
/-- From Apricot Phase 3 on, an export that passes `SemanticVerify` exports of every asset at
most what it debits, less the dynamic fee for the chain's asset. -/
theorem totals_of_SemanticVerify [LinearOrder ID] [LinearOrder Address] [CheckedArith]
    [FlowChecker ID] {Cred : Type}
    {credAddress : Cred → Except String Address} {utx : UnsignedExportTx ID Address Owner}
    {creds : List Cred} {baseFee : Option ℕ} {rules : Rules}
    (hAP3 : rules.isApricotPhase3 = true)
    (h : utx.SemanticVerify ctx credAddress creds baseFee rules = .ok ()) :
    ∃ txFee, (utx.GasUsed rules.isApricotPhase5 >>= fun gas => CalculateDynamicFee gas baseFee) =
        .ok txFee ∧
      total utx.outAmounts ctx.chainAssetID + txFee ≤ total utx.inAmounts ctx.chainAssetID ∧
      ∀ a, a ≠ ctx.chainAssetID → total utx.outAmounts a ≤ total utx.inAmounts a := by
  obtain ⟨fee, hfee, hflow⟩ := flow_of_SemanticVerify ctx h
  rw [feeProduced, if_pos hAP3] at hfee
  exact totals_of_dynamicFee_flow hfee hflow

end UnsignedExportTx

/-- Atomic transactions never create value. From Apricot Phase 3 on, an import that passes
`SemanticVerify` credits, over all accounts, exactly its outputs (the chain's asset in wei),
and these are at most what its inputs consume less the fee for the chain's asset; an export
that passes `SemanticVerify` and whose state transfer succeeds debits exactly its inputs, and
puts into shared memory at most these less the fee. -/
theorem atomicTx_conserves_value [LinearOrder ID] [LinearOrder Address] [Fintype Address]
    [CheckedArith] [FlowChecker ID] {Cred : Type} (ctx : AtomicContext ID Address Owner)
    (rules : Rules) (baseFee : Option ℕ) :
    (∀ (utx : UnsignedImportTx ID Address) (bootstrapped : Bool)
        (utxoChecks : Except String Unit) (creds : List Cred) (s s' : EVMState ID Address),
      rules.isApricotPhase3 = true →
      utx.SemanticVerify ctx bootstrapped utxoChecks creds baseFee rules = .ok () →
      utx.EVMStateTransfer ctx s = .ok s' →
      ∃ fee, (utx.GasUsed rules.isApricotPhase5 >>= fun gas => CalculateDynamicFee gas baseFee) =
          .ok fee ∧
        ∑ x, s'.balance x = ∑ x, s.balance x + x2cRate * total utx.outAmounts ctx.chainAssetID ∧
        total utx.outAmounts ctx.chainAssetID + fee ≤ total utx.inAmounts ctx.chainAssetID ∧
        ∀ a, a ≠ ctx.chainAssetID →
          ∑ x, s'.balanceMultiCoin x a = ∑ x, s.balanceMultiCoin x a + total utx.outAmounts a ∧
          total utx.outAmounts a ≤ total utx.inAmounts a) ∧
    (∀ (utx : UnsignedExportTx ID Address Owner) (txID : ID)
        (credAddress : Cred → Except String Address) (creds : List Cred)
        (s s' : EVMState ID Address),
      rules.isApricotPhase3 = true →
      utx.SemanticVerify ctx credAddress creds baseFee rules = .ok () →
      utx.EVMStateTransfer ctx s = .ok s' →
      ∃ fee, (utx.GasUsed rules.isApricotPhase5 >>= fun gas => CalculateDynamicFee gas baseFee) =
          .ok fee ∧
        ∑ x, s.balance x = ∑ x, s'.balance x + x2cRate * total utx.inAmounts ctx.chainAssetID ∧
        total (putAmounts (utx.AtomicOps ctx txID).2) ctx.chainAssetID + fee ≤
          total utx.inAmounts ctx.chainAssetID ∧
        ∀ a, a ≠ ctx.chainAssetID →
          ∑ x, s.balanceMultiCoin x a = ∑ x, s'.balanceMultiCoin x a + total utx.inAmounts a ∧
          total (putAmounts (utx.AtomicOps ctx txID).2) a ≤ total utx.inAmounts a) := by
  refine ⟨fun utx _ _ _ s s' hAP3 hverify htransfer => ?_,
    fun utx txID _ _ s s' hAP3 hverify htransfer => ?_⟩
  · obtain ⟨txFee, htxFee, hchain, hother⟩ :=
      UnsignedImportTx.totals_of_SemanticVerify ctx hAP3 hverify
    cases htransfer
    obtain ⟨hbal, hmulti⟩ := UnsignedImportTx.sum_balance_foldl_credit ctx utx.outs s
    exact ⟨txFee, htxFee, hbal, hchain, fun a ha => ⟨hmulti a ha, hother a ha⟩⟩
  · obtain ⟨txFee, htxFee, hchain, hother⟩ :=
      UnsignedExportTx.totals_of_SemanticVerify ctx hAP3 hverify
    obtain ⟨hbal, hmulti⟩ := UnsignedExportTx.sum_balance_EVMStateTransfer ctx htransfer
    rw [putAmounts_AtomicOps]
    exact ⟨txFee, htxFee, hbal, hchain, fun a ha => ⟨hmulti a ha, hother a ha⟩⟩

/-! ## A sample import -/

/-- A context in which every check outside this repository passes. -/
def sampleContext : AtomicContext ℕ (Fin 2) Unit where
  networkID := 1
  chainID := 0
  jvmChainID := 5
  juneChainID := 0
  chainAssetID := 7
  juneAssetID := 7
  platformChainID := 9
  emptyID := 100
  idString := fun _ => ""
  inputID := fun txID i => txID * 10 + i
  packNonceAddress := fun nonce _ => nonce
  sameSupernet := fun _ => true
  isPrimaryAssetID := fun _ => true
  verifyInput := fun _ => .ok ()
  verifyOutput := fun _ => .ok ()
  isSortedTransferableOutputs := fun _ => true

/-- An import of two milli-AVAX that credits one, at every fork. -/
def sampleImportTx : UnsignedImportTx ℕ (Fin 2) :=
  ⟨1, 0, 5, [⟨3, 0, 7, 2000000, [0]⟩], [⟨0, 1000000, 7⟩], 200⟩

/-- An export of one milli-AVAX that debits two from address `0`, at every fork. -/
def sampleExportTx : UnsignedExportTx ℕ (Fin 2) Unit :=
  ⟨1, 0, 5, [⟨0, 2000000, 7, 0⟩], [⟨7, ⟨1000000, 0, 1, [()]⟩⟩], 200⟩

/-- Every fork active. -/
def latestRules : Rules := ⟨true, true, true, true, true, true⟩

/-- Two milli-AVAX, in wei, at each address. -/
def sampleState : EVMState ℕ (Fin 2) := ⟨fun _ => 2000000 * x2cRate, fun _ _ => 0, fun _ => 0⟩

section Reference

attribute [local instance] CheckedArith.reference FlowChecker.reference

/-- Both samples pass `SemanticVerify` at a base fee of 25 wei, for a fee of one nAVAX on their
11200 gas, and their state transfers succeed on `sampleState`. -/
theorem atomicTx_conserves_value_sample :
    sampleImportTx.SemanticVerify sampleContext false (.ok ()) [()] (some 25) latestRules =
        .ok () ∧
      sampleExportTx.SemanticVerify sampleContext (fun _ => .ok 0) [()] (some 25) latestRules =
        .ok () ∧
      (∃ s', sampleImportTx.EVMStateTransfer sampleContext sampleState = .ok s' ∧
        ∃ fee, (sampleImportTx.GasUsed latestRules.isApricotPhase5 >>= fun gas =>
            CalculateDynamicFee gas (some 25)) = .ok fee ∧
          ∑ x, s'.balance x = ∑ x, sampleState.balance x +
            x2cRate * total sampleImportTx.outAmounts sampleContext.chainAssetID ∧
          total sampleImportTx.outAmounts sampleContext.chainAssetID + fee ≤
            total sampleImportTx.inAmounts sampleContext.chainAssetID ∧
          ∀ a, a ≠ sampleContext.chainAssetID →
            ∑ x, s'.balanceMultiCoin x a =
                ∑ x, sampleState.balanceMultiCoin x a + total sampleImportTx.outAmounts a ∧
              total sampleImportTx.outAmounts a ≤ total sampleImportTx.inAmounts a) ∧
      (∃ s', sampleExportTx.EVMStateTransfer sampleContext sampleState = .ok s' ∧
        ∃ fee, (sampleExportTx.GasUsed latestRules.isApricotPhase5 >>= fun gas =>
            CalculateDynamicFee gas (some 25)) = .ok fee ∧
          ∑ x, sampleState.balance x = ∑ x, s'.balance x +
            x2cRate * total sampleExportTx.inAmounts sampleContext.chainAssetID ∧
          total (putAmounts (sampleExportTx.AtomicOps sampleContext 3).2)
              sampleContext.chainAssetID + fee ≤
            total sampleExportTx.inAmounts sampleContext.chainAssetID ∧
          ∀ a, a ≠ sampleContext.chainAssetID →
            ∑ x, sampleState.balanceMultiCoin x a =
                ∑ x, s'.balanceMultiCoin x a + total sampleExportTx.inAmounts a ∧
              total (putAmounts (sampleExportTx.AtomicOps sampleContext 3).2) a ≤
                total sampleExportTx.inAmounts a) := by
  have himport : sampleImportTx.SemanticVerify sampleContext false (.ok ()) [()] (some 25)
      latestRules = .ok () := by decide
  have hexport : sampleExportTx.SemanticVerify sampleContext (fun _ => .ok 0) [()] (some 25)
      latestRules = .ok () := by decide
  obtain ⟨s₁, hs₁⟩ : ∃ s', sampleImportTx.EVMStateTransfer sampleContext sampleState = .ok s' :=
    ⟨_, rfl⟩
  obtain ⟨s₂, hs₂⟩ : ∃ s', sampleExportTx.EVMStateTransfer sampleContext sampleState = .ok s' :=
    ⟨_, rfl⟩
  exact ⟨himport, hexport,
    ⟨s₁, hs₁, (atomicTx_conserves_value sampleContext latestRules (some 25)).1 sampleImportTx false
      (.ok ()) [()] sampleState s₁ rfl himport hs₁⟩,
    ⟨s₂, hs₂, (atomicTx_conserves_value sampleContext latestRules (some 25)).2 sampleExportTx 3
      (fun _ => .ok 0) [()] sampleState s₂ rfl hexport hs₂⟩⟩

end Reference

end Jeth
