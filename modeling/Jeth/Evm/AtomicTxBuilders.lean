import Jeth.Evm.Wallet
import Jeth.Lib.SortFunc

/-!
# Building atomic transactions (plugin/evm/import_tx.go, export_tx.go, vm.go)

`newImportTxWithUTXOs` and `newExportTx` build the transactions a wallet issues. Neither measures
the transaction it returns. Each builds a draft, takes the draft's gas, and adds the gas of what
it then appends: an import drafts itself without its change output and prices the change at
`EVMOutputGas`, and an export drafts itself without its inputs of the chain's asset and lets
`GetSpendableAVAXWithFee` add `EVMInputGas` for each of them.

The estimates are exact when the encoding of an unsigned transaction grows by the size of each
output or input appended (`ImportLenGrows`, `ExportLenGrows`): a change output makes the
import's encoding `EVMOutputGas` bytes longer, and each input makes the export's encoding
`EVMInputGas - CostPerSignature` bytes longer while its signature adds `CostPerSignature`. So
the transaction built burns what `SemanticVerify` charges: an import at least the fee, an export
exactly the fee (`atomicTx_builders_pay_fee`). Both estimates are `uint64` arithmetic in Go. They
need the draft's gas to leave room for what is added (`ImportRoom`, `ExportRoom`), and the
export needs the keys to hold less than `2^64` nAVAX; otherwise the import prices its change at a
wrapped gas, and the export's inputs can sum past `2^64`
(`atomicTx_builders_overflow`).

The keychain's `Spend`, the length of the codec's encoding and `GetEthAddress` are fields of
`WalletContext`, and the order in which Go's `range` visits a map is an argument: the runtime
picks it at random. The state is seen through `EVMState`, as in `GetSpendableAVAXWithFee`.
-/

namespace Jeth

open FlowChecker

/-- `EVMOutputGas`: the bytes of an output, its address, amount and asset ID. -/
def EVMOutputGas : ℕ := (AddressLength + 8 + HashLen) * TxBytesGas

/-- `errNilBaseFeeApricotPhase3`. -/
def errNilBaseFeeApricotPhase3 : String := "nil base fee is invalid after apricotPhase3"

/-- `errInsufficientFundsForFee`. -/
def errInsufficientFundsForFee : String := "insufficient AVAX funds to pay transaction fee"

/-- `errOverflowExport`. -/
def errOverflowExport : String := "overflow when computing export amount + txFee"

/-- The wrapping `fmt.Errorf("couldn't generate tx inputs/signers: %w", err)` of an error of the
input selection. -/
def inputsError {α : Type} (r : Except String α) : Except String α :=
  r.mapError fun err => "couldn't generate tx inputs/signers: " ++ err

variable {ID Address Owner Key : Type}

section Builders

variable [DecidableEq ID] [DecidableEq Address] [CheckedArith]

/-- What building a transaction reads of the node outside this repository. -/
structure WalletContext (ID Address Owner Key : Type) where
  /-- `kc.Spend(out, now)`: the signature indices of a `secp256k1fx.TransferInput` that spends
  the whole output and the keys that sign it, or `none` when the keychain cannot spend it. -/
  spend : TransferOutput Owner → Option (List ℕ × List Key)
  /-- `GetEthAddress(key)`. -/
  GetEthAddress : Key → Address
  /-- The length of the codec's encoding of an unsigned import. -/
  importLen : UnsignedImportTx ID Address → ℕ
  /-- The length of the codec's encoding of an unsigned export. -/
  exportLen : UnsignedExportTx ID Address Owner → ℕ

namespace WalletContext

variable (w : WalletContext ID Address Owner Key)

/-- `tx.Sign(vm.codec, signers)`, for the unsigned transaction: it stores the encoding, whose
length `utx.Bytes()` then gives. -/
def signImport (utx : UnsignedImportTx ID Address) : UnsignedImportTx ID Address :=
  { utx with bytesLen := w.importLen utx }

/-- `tx.Sign(vm.codec, signers)` of an export. -/
def signExport (utx : UnsignedExportTx ID Address Owner) : UnsignedExportTx ID Address Owner :=
  { utx with bytesLen := w.exportLen utx }

end WalletContext

/-- What the estimates assume of the codec: an import's encoding grows by the size of an
output, 60 bytes, for each output, and does not depend on the bytes stored. -/
def ImportLenGrows (importLen : UnsignedImportTx ID Address → ℕ) : Prop :=
  ∀ utx, importLen utx =
    importLen { utx with outs := [], bytesLen := 0 } +
      utx.outs.length * (AddressLength + 8 + HashLen)

/-- An export's encoding grows by the size of an input, 68 bytes, for each input. -/
def ExportLenGrows (exportLen : UnsignedExportTx ID Address Owner → ℕ) : Prop :=
  ∀ utx, exportLen utx =
    exportLen { utx with ins := [], bytesLen := 0 } +
      utx.ins.length * (AddressLength + 8 + HashLen + 8)

/-! ## Imports -/

/-- The loop of `newImportTxWithUTXOs` over the UTXOs: each one the keychain can spend becomes
an input with its signers, and its amount is added to its asset's total in `uint64`. -/
def importLoop (spend : TransferOutput Owner → Option (List ℕ × List Key)) :
    List (UTXO ID Owner) → AList (fun _ : ID => ℕ) → List (TransferableInput ID) →
      List (List Key) →
        Except String (AList (fun _ : ID => ℕ) × List (TransferableInput ID) × List (List Key))
  | [], importedAmount, importedInputs, signers => .ok (importedAmount, importedInputs, signers)
  | utxo :: utxos, importedAmount, importedInputs, signers =>
    match spend utxo.out with
    -- a UTXO the keychain cannot spend is skipped
    | none => importLoop spend utxos importedAmount importedInputs signers
    | some (sigIndices, utxoSigners) => do
      let sum ← add64 (amountOf importedAmount utxo.assetID) utxo.out.amount
      importLoop spend utxos (importedAmount.insert utxo.assetID sum)
        (importedInputs ++
          [⟨utxo.txID, utxo.outputIndex, utxo.assetID, utxo.out.amount, sigIndices⟩])
        (signers ++ [utxoSigners])

/-- The outputs `newImportTxWithUTXOs` makes of the imported amounts, visited in `entries`'
order: one for each asset other than the chain's with a positive amount. -/
def importOuts (chainAssetID : ID) (recipient : Address) (entries : List (Σ _ : ID, ℕ)) :
    List (EVMOutput ID Address) :=
  entries.filterMap fun e =>
    if e.1 = chainAssetID ∨ e.2 = 0 then none else some ⟨recipient, e.2, e.1⟩

section Build

variable [LinearOrder ID] [LinearOrder Address] (ctx : AtomicContext ID Address Owner)
  (w : WalletContext ID Address Owner Key) (rules : Rules)

/-- The imported inputs, sorted together with their signers
(`avax.SortTransferableInputsWithSigners`), and the amounts imported by asset. -/
def importInputs (atomicUTXOs : List (UTXO ID Owner)) :
    Except String
      (AList (fun _ : ID => ℕ) × List (TransferableInput ID) × List (List Key)) := do
  let (importedAmount, importedInputs, signers) ← importLoop w.spend atomicUTXOs ∅ [] []
  let sorted := sortFunc (fun a b => TransferableInput.compare a.1 b.1) (importedInputs.zip signers)
  pure (importedAmount, sorted.map Prod.fst, sorted.map Prod.snd)

/-- An import of `importedInputs` into `outs`, as `tx.Sign` encodes it. -/
def importTx (chainID : ID) (importedInputs : List (TransferableInput ID))
    (outs : List (EVMOutput ID Address)) : UnsignedImportTx ID Address :=
  w.signImport ⟨ctx.networkID, ctx.chainID, chainID, importedInputs, outs, 0⟩

/-- The fees without and with a change output: from Apricot Phase 3 the dynamic fees of the
draft's gas and of that gas plus `EVMOutputGas`, a `uint64` sum. -/
def importFees (baseFee : Option ℕ) (draft : UnsignedImportTx ID Address) :
    Except String (ℕ × ℕ) :=
  if rules.isApricotPhase3 then
    match baseFee with
    | none => throw errNilBaseFeeApricotPhase3
    | some _ => do
      let gasUsedWithoutChange ← draft.GasUsed rules.isApricotPhase5
      let gasUsedWithChange := (gasUsedWithoutChange + EVMOutputGas) % 2 ^ 64
      let txFeeWithoutChange ← CalculateDynamicFee gasUsedWithoutChange baseFee
      let txFeeWithChange ← CalculateDynamicFee gasUsedWithChange baseFee
      pure (txFeeWithoutChange, txFeeWithChange)
  else if rules.isApricotPhase2 then pure (AvalancheAtomicTxFee, AvalancheAtomicTxFee)
  else pure (0, 0)

/-- `newImportTxWithUTXOs(chainID, to, baseFee, kc, atomicUTXOs)`: the unsigned import and the
signers of its inputs. `rangeOrder` is the order in which `range` visits `importedAmount`. -/
def newImportTxWithUTXOs (chainID : ID) (recipient : Address) (baseFee : Option ℕ)
    (rangeOrder : List (Σ _ : ID, ℕ) → List (Σ _ : ID, ℕ))
    (atomicUTXOs : List (UTXO ID Owner)) :
    Except String (UnsignedImportTx ID Address × List (List Key)) := do
  let (importedAmount, importedInputs, signers) ← importInputs w atomicUTXOs
  let importedAVAXAmount := amountOf importedAmount ctx.chainAssetID
  let outs := importOuts ctx.chainAssetID recipient (rangeOrder importedAmount.entries)
  let (txFeeWithoutChange, txFeeWithChange) ←
    importFees rules baseFee (importTx ctx w chainID importedInputs outs)
  -- the imported AVAX pays the fee
  if importedAVAXAmount < txFeeWithoutChange then throw errInsufficientFundsForFee
  let outs := if txFeeWithChange < importedAVAXAmount then
      outs ++ [⟨recipient, importedAVAXAmount - txFeeWithChange, ctx.chainAssetID⟩]
    else outs
  if outs.length = 0 then throw errNoEVMOutputs
  let utx := importTx ctx w chainID importedInputs (sortFunc EVMOutput.compare outs)
  utx.Verify ctx rules
  pure (utx, signers)

/-- The gas of the draft `newImportTxWithUTXOs` prices its fees on. -/
def importDraftGas (chainID : ID) (recipient : Address)
    (rangeOrder : List (Σ _ : ID, ℕ) → List (Σ _ : ID, ℕ))
    (atomicUTXOs : List (UTXO ID Owner)) :
    Except String ℕ := do
  let (importedAmount, importedInputs, _) ← importInputs w atomicUTXOs
  let outs := importOuts ctx.chainAssetID recipient (rangeOrder importedAmount.entries)
  (importTx ctx w chainID importedInputs outs).GasUsed rules.isApricotPhase5

/-- The draft's gas leaves room for the change output's: `gasUsedWithoutChange + EVMOutputGas`
does not wrap. -/
def ImportRoom (chainID : ID) (recipient : Address)
    (rangeOrder : List (Σ _ : ID, ℕ) → List (Σ _ : ID, ℕ))
    (atomicUTXOs : List (UTXO ID Owner)) :
    Prop :=
  ∀ gas, importDraftGas ctx w rules chainID recipient rangeOrder atomicUTXOs = .ok gas →
    gas + EVMOutputGas < 2 ^ 64

end Build

/-! ## Exports -/

/-- The loop of `GetSpendableFunds` over the keys, with the amount of `assetID` still to find:
it takes the whole balance of each key, or what is missing if that is less. -/
def spendableFundsLoop (chainAssetID assetID : ID) (GetEthAddress : Key → Address)
    (s : EVMState ID Address) :
    List Key → ℕ → List (EVMInput ID Address) → List (List Key) →
      ℕ × List (EVMInput ID Address) × List (List Key)
  | [], amount, inputs, signers => (amount, inputs, signers)
  | key :: keys, amount, inputs, signers =>
    if amount = 0 then (amount, inputs, signers)
    else
      let addr := GetEthAddress key
      -- `(*big.Int).Uint64()` of the balance, in nAVAX for the chain's asset
      let balance := if assetID = chainAssetID then s.balance addr / x2cRate % 2 ^ 64
        else s.balanceMultiCoin addr assetID % 2 ^ 64
      if balance = 0 then
        spendableFundsLoop chainAssetID assetID GetEthAddress s keys amount inputs signers
      else
        let balance := if amount < balance then amount else balance
        spendableFundsLoop chainAssetID assetID GetEthAddress s keys (amount - balance)
          (inputs ++ [⟨addr, balance, assetID, s.nonce addr⟩]) (signers ++ [[key]])

/-- `GetSpendableFunds(keys, assetID, amount)` on the state `s` of the preferred block. -/
def GetSpendableFunds (chainAssetID : ID) (GetEthAddress : Key → Address)
    (s : EVMState ID Address) (keys : List Key) (assetID : ID) (amount : ℕ) :
    Except String (List (EVMInput ID Address) × List (List Key)) :=
  let (amount, inputs, signers) :=
    spendableFundsLoop chainAssetID assetID GetEthAddress s keys amount [] []
  if amount > 0 then .error errInsufficientFunds else .ok (inputs, signers)

/-- The one output of an export: `amount` of `assetID` to `to`. -/
def exportOuts (assetID : ID) (amount : ℕ) (recipient : Owner) :
    List (TransferableOutput ID Owner) :=
  [⟨assetID, ⟨amount, 0, 1, [recipient]⟩⟩]

section Build

variable [LinearOrder ID] [LinearOrder Address] (ctx : AtomicContext ID Address Owner)
  (w : WalletContext ID Address Owner Key) (rules : Rules)

/-- An export of `ins` to `outs`, as `tx.Sign` encodes it. -/
def exportTx (chainID : ID) (ins : List (EVMInput ID Address))
    (outs : List (TransferableOutput ID Owner)) : UnsignedExportTx ID Address Owner :=
  w.signExport ⟨ctx.networkID, ctx.chainID, chainID, ins, outs, 0⟩

/-- The inputs of the exported asset when it is not the chain's, and the amount of the chain's
asset still needed. -/
def exportAssetInputs (s : EVMState ID Address) (keys : List Key) (assetID : ID) (amount : ℕ) :
    Except String (ℕ × List (EVMInput ID Address) × List (List Key)) :=
  if assetID ≠ ctx.chainAssetID then do
    let (ins, signers) ←
      inputsError (GetSpendableFunds ctx.chainAssetID w.GetEthAddress s keys assetID amount)
    pure (0, ins, signers)
  else pure (amount, [], [])

/-- The inputs of the chain's asset and their signers: from Apricot Phase 3 those that pay the
amount still needed and the fee of the draft with them, before it the amount and the fixed
fee. -/
def exportAVAXInputs (s : EVMState ID Address) (keys : List Key) (chainID : ID)
    (ins : List (EVMInput ID Address)) (outs : List (TransferableOutput ID Owner))
    (avaxNeeded : ℕ) (baseFee : Option ℕ) :
    Except String (List (EVMInput ID Address) × List (List Key)) :=
  if rules.isApricotPhase3 then do
    let cost ← (exportTx ctx w chainID ins outs).GasUsed rules.isApricotPhase5
    inputsError
      (GetSpendableAVAXWithFee ctx.chainAssetID w.GetEthAddress s keys avaxNeeded cost baseFee)
  else do
    let newAvaxNeeded ← match add64 avaxNeeded AvalancheAtomicTxFee with
      | .ok sum => pure sum
      | .error _ => throw errOverflowExport
    inputsError (GetSpendableFunds ctx.chainAssetID w.GetEthAddress s keys ctx.chainAssetID
      newAvaxNeeded)

/-- `newExportTx(assetID, amount, chainID, to, baseFee, keys)` on the state `s` of the
preferred block: the unsigned export and the signers of its inputs. -/
def newExportTx (s : EVMState ID Address) (assetID : ID) (amount : ℕ) (chainID : ID)
    (recipient : Owner) (baseFee : Option ℕ) (keys : List Key) :
    Except String (UnsignedExportTx ID Address Owner × List (List Key)) := do
  let outs := exportOuts assetID amount recipient
  let (avaxNeeded, ins, signers) ← exportAssetInputs ctx w s keys assetID amount
  let (avaxIns, avaxSigners) ←
    exportAVAXInputs ctx w rules s keys chainID ins outs avaxNeeded baseFee
  -- `avax.SortTransferableOutputs` leaves the one output in place
  let sorted := sortFunc (fun a b => EVMInput.compare a.1 b.1)
    ((ins ++ avaxIns).zip (signers ++ avaxSigners))
  let utx := exportTx ctx w chainID (sorted.map Prod.fst) outs
  utx.Verify ctx rules
  pure (utx, sorted.map Prod.snd)

/-- The draft's gas leaves room for an input of the chain's asset from every key, as in
`GetSpendableAVAXWithFee_sum`. -/
def ExportRoom (s : EVMState ID Address) (assetID : ID) (amount : ℕ) (chainID : ID)
    (recipient : Owner) (keys : List Key) : Prop :=
  ∀ avaxNeeded ins signers, exportAssetInputs ctx w s keys assetID amount =
      .ok (avaxNeeded, ins, signers) →
    ∀ cost, (exportTx ctx w chainID ins (exportOuts assetID amount recipient)).GasUsed
        rules.isApricotPhase5 = .ok cost →
      cost + keys.length * EVMInputGas < 2 ^ 64

end Build

/-! ## Gas and burns in closed form -/

section ClosedForm

variable {fixedFee : Bool} {gas : ℕ}

/-- The gas `GasUsed` sums in checked arithmetic, counted exactly. -/
def UnsignedImportTx.gasNat (utx : UnsignedImportTx ID Address) (fixedFee : Bool) : ℕ :=
  calcBytesCost utx.bytesLen +
    (utx.importedInputs.map fun input => input.sigIndices.length * CostPerSignature).sum +
    if fixedFee then AtomicTxBaseCost else 0

/-- The gas of an export, counted exactly. -/
def UnsignedExportTx.gasNat (utx : UnsignedExportTx ID Address Owner) (fixedFee : Bool) : ℕ :=
  calcBytesCost utx.bytesLen + utx.ins.length * CostPerSignature +
    if fixedFee then AtomicTxBaseCost else 0

omit [DecidableEq ID] [DecidableEq Address] in
theorem TransferableInput.Cost_eq_ok {input : TransferableInput ID} {c : ℕ}
    (h : input.Cost = .ok c) : c = input.sigIndices.length * CostPerSignature := by
  unfold TransferableInput.Cost at h
  exact mul64_eq_ok h

omit [DecidableEq ID] [DecidableEq Address] in
/-- The loop of the import's `GasUsed` over its inputs adds their signature costs. -/
theorem foldlM_Cost_eq_ok {ins : List (TransferableInput ID)} {start : ℕ}
    (h : ins.foldlM (fun cost input => do let inCost ← input.Cost; add64 cost inCost) start =
      .ok gas) :
    gas = start + (ins.map fun input => input.sigIndices.length * CostPerSignature).sum := by
  induction ins generalizing start with
  | nil =>
    cases h
    simp
  | cons input ins ih =>
    rw [List.foldlM_cons] at h
    obtain ⟨acc, hacc, h⟩ := except_bind_eq_ok.mp h
    obtain ⟨c, hc, hacc⟩ := except_bind_eq_ok.mp hacc
    rw [ih h, add64_eq_ok hacc, TransferableInput.Cost_eq_ok hc, List.map_cons, List.sum_cons,
      Nat.add_assoc]

omit [DecidableEq ID] [DecidableEq Address] in
theorem foldlM_Cost_of_lt {ins : List (TransferableInput ID)} {start : ℕ}
    (h : start + (ins.map fun input => input.sigIndices.length * CostPerSignature).sum <
      2 ^ 64) :
    ins.foldlM (fun cost input => do let inCost ← input.Cost; add64 cost inCost) start =
      .ok (start + (ins.map fun input => input.sigIndices.length * CostPerSignature).sum) := by
  induction ins generalizing start with
  | nil => simp
  | cons input ins ih =>
    rw [List.map_cons, List.sum_cons, ← Nat.add_assoc] at h ⊢
    have hcost : input.Cost = .ok (input.sigIndices.length * CostPerSignature) := by
      unfold TransferableInput.Cost
      exact mul64_of_lt (by omega)
    rw [List.foldlM_cons, hcost, except_ok_bind, add64_of_lt (by omega), except_ok_bind]
    exact ih h

namespace UnsignedImportTx

variable {utx : UnsignedImportTx ID Address}

omit [DecidableEq ID] [DecidableEq Address] in
theorem GasUsed_eq_ok (h : utx.GasUsed fixedFee = .ok gas) : gas = utx.gasNat fixedFee := by
  unfold GasUsed at h
  obtain ⟨cost, hcost, h⟩ := except_bind_eq_ok.mp h
  rw [foldlM_Cost_eq_ok hcost] at h
  unfold gasNat
  cases fixedFee
  · rw [if_neg (by decide)] at h
    cases h
    simp
  · rw [if_pos rfl] at h
    simpa using add64_eq_ok h

omit [DecidableEq ID] [DecidableEq Address] in
theorem GasUsed_of_lt (h : utx.gasNat fixedFee < 2 ^ 64) :
    utx.GasUsed fixedFee = .ok (utx.gasNat fixedFee) := by
  unfold gasNat at h
  unfold GasUsed gasNat
  have hbase : calcBytesCost utx.bytesLen +
      (utx.importedInputs.map fun input => input.sigIndices.length * CostPerSignature).sum <
        2 ^ 64 := by
    split_ifs at h <;> omega
  rw [foldlM_Cost_of_lt hbase, except_ok_bind]
  cases fixedFee
  · simp
  · simpa using add64_of_lt (by simpa using h)

omit [DecidableEq Address] in
/-- `Burned` of an import is what its inputs of the asset hold beyond its outputs, when that
fits in 64 bits. -/
theorem Burned_of_le {assetID : ID} {input spent : ℕ} (hin : total utx.inAmounts assetID = input)
    (hout : total utx.outAmounts assetID = spent) (hfit : input < 2 ^ 64) (hle : spent ≤ input) :
    utx.Burned assetID = .ok (input - spent) := by
  subst hin hout
  unfold inAmounts at hfit hle ⊢
  unfold outAmounts at hle ⊢
  rw [total_map] at hfit hle ⊢
  rw [total_map] at hle ⊢
  unfold Burned
  rw [foldlM_add64_of_lt (f := EVMOutput.amount) (by omega), except_ok_bind,
    foldlM_add64_of_lt (f := TransferableInput.amount) (by omega), except_ok_bind]
  simpa using sub64_of_le hle

end UnsignedImportTx

namespace UnsignedExportTx

variable {utx : UnsignedExportTx ID Address Owner}

omit [DecidableEq ID] [DecidableEq Address] in
theorem GasUsed_eq_ok (h : utx.GasUsed fixedFee = .ok gas) : gas = utx.gasNat fixedFee := by
  unfold GasUsed at h
  obtain ⟨sigCost, hsig, h⟩ := except_bind_eq_ok.mp h
  obtain ⟨cost, hcost, h⟩ := except_bind_eq_ok.mp h
  have hsig' : sigCost = utx.ins.length * CostPerSignature := mul64_eq_ok hsig
  have hcost' : cost = calcBytesCost utx.bytesLen + utx.ins.length * CostPerSignature := by
    rw [add64_eq_ok hcost, hsig']
  unfold gasNat
  cases fixedFee
  · rw [if_neg (by decide)] at h
    cases h
    simp [hcost']
  · rw [if_pos rfl] at h
    simpa [hcost'] using add64_eq_ok h

omit [DecidableEq ID] [DecidableEq Address] in
theorem GasUsed_of_lt (h : utx.gasNat fixedFee < 2 ^ 64) :
    utx.GasUsed fixedFee = .ok (utx.gasNat fixedFee) := by
  unfold gasNat at h
  unfold GasUsed gasNat
  have hsig : utx.ins.length * CostPerSignature < 2 ^ 64 := by
    split_ifs at h <;> omega
  have hbase : calcBytesCost utx.bytesLen + utx.ins.length * CostPerSignature < 2 ^ 64 := by
    split_ifs at h <;> omega
  simp only [mul64_of_lt hsig, except_ok_bind, add64_of_lt hbase]
  cases fixedFee
  · simp
  · simpa using add64_of_lt (by simpa using h)

omit [DecidableEq Address] in
theorem Burned_of_le {assetID : ID} {input spent : ℕ} (hin : total utx.inAmounts assetID = input)
    (hout : total utx.outAmounts assetID = spent) (hfit : input < 2 ^ 64) (hle : spent ≤ input) :
    utx.Burned assetID = .ok (input - spent) := by
  subst hin hout
  unfold inAmounts at hfit hle ⊢
  unfold outAmounts at hle ⊢
  rw [total_map] at hfit hle ⊢
  rw [total_map] at hle ⊢
  unfold Burned
  have hspent : (utx.exportedOutputs.filter fun out => out.assetID = assetID).foldlM
      (fun spent out => add64 spent out.out.amount) 0 =
        .ok (0 + ((utx.exportedOutputs.filter fun out => out.assetID = assetID).map
          fun out => out.out.amount).sum) :=
    foldlM_add64_of_lt (fun out : TransferableOutput ID Owner => out.out.amount) (by omega)
  rw [hspent, except_ok_bind, foldlM_add64_of_lt (f := EVMInput.amount) (by omega),
    except_ok_bind]
  simpa using sub64_of_le hle

end UnsignedExportTx

end ClosedForm

/-! ## The import pays its fee -/

section ImportSpec

omit [CheckedArith] in
theorem inputsError_eq_ok {α : Type} {r : Except String α} {a : α} :
    inputsError r = .ok a ↔ r = .ok a := by
  cases r <;> simp [inputsError, Except.mapError]

omit [DecidableEq Address] in
/-- The loop appends one input and one list of signers for each UTXO it spends, and adds the
inputs' amounts to their assets' sums, each of which stays below `2^64`. -/
theorem importLoop_spec (spend : TransferOutput Owner → Option (List ℕ × List Key))
    (utxos : List (UTXO ID Owner)) {amt amt' : AList (fun _ : ID => ℕ)}
    {ins ins' : List (TransferableInput ID)} {sigs sigs' : List (List Key)}
    (hfit : ∀ a, amountOf amt a < 2 ^ 64)
    (h : importLoop spend utxos amt ins sigs = .ok (amt', ins', sigs')) :
    ∃ new newSigs, ins' = ins ++ new ∧ sigs' = sigs ++ newSigs ∧
      new.length = newSigs.length ∧
      (∀ a, amountOf amt' a =
        amountOf amt a + total (new.map fun i => (i.assetID, i.amount)) a) ∧
      ∀ a, amountOf amt' a < 2 ^ 64 := by
  induction utxos generalizing amt ins sigs with
  | nil =>
    cases h
    exact ⟨[], [], by simp, by simp, rfl, by simp, hfit⟩
  | cons utxo utxos ih =>
    simp only [importLoop] at h
    split at h
    · -- a UTXO the keychain cannot spend changes nothing
      exact ih hfit h
    · next sigIndices utxoSigners _ =>
      obtain ⟨sum, hsum, h⟩ := except_bind_eq_ok.mp h
      have hfit' : ∀ a, amountOf (amt.insert utxo.assetID sum) a < 2 ^ 64 := by
        intro a
        rw [amountOf_insert]
        split_ifs
        · exact add64_lt_of_eq_ok hsum
        · exact hfit a
      obtain ⟨new, newSigs, hins, hsigs, hlen, hamt, hfit''⟩ := ih hfit' h
      refine ⟨⟨utxo.txID, utxo.outputIndex, utxo.assetID, utxo.out.amount, sigIndices⟩ :: new,
        utxoSigners :: newSigs, by simp [hins], by simp [hsigs], by simp [hlen], fun a => ?_,
        hfit''⟩
      rw [hamt a, amountOf_insert, add64_eq_ok hsum, List.map_cons, total_cons]
      dsimp only
      split_ifs with hab
      · subst hab
        omega
      · omega

variable [LinearOrder ID] [LinearOrder Address] {ctx : AtomicContext ID Address Owner}
  {w : WalletContext ID Address Owner Key} {rules : Rules}

omit [DecidableEq Address] [LinearOrder Address] in
/-- The inputs `importInputs` returns come with one list of signers each, and for every asset
the amount imported is the total of its inputs and fits in 64 bits. -/
theorem importInputs_spec {atomicUTXOs : List (UTXO ID Owner)}
    {importedAmount : AList (fun _ : ID => ℕ)} {importedInputs : List (TransferableInput ID)}
    {signers : List (List Key)}
    (h : importInputs w atomicUTXOs = .ok (importedAmount, importedInputs, signers)) :
    importedInputs.length = signers.length ∧
      ∀ a, amountOf importedAmount a =
          total (importedInputs.map fun input => (input.assetID, input.amount)) a ∧
        amountOf importedAmount a < 2 ^ 64 := by
  unfold importInputs at h
  obtain ⟨⟨amt, ins, sigs⟩, hloop, h⟩ := except_bind_eq_ok.mp h
  simp only [except_pure_eq_ok, Except.ok.injEq, Prod.mk.injEq] at h
  obtain ⟨rfl, rfl, rfl⟩ := h
  obtain ⟨new, newSigs, rfl, rfl, hlen, hamt, hfit⟩ :=
    importLoop_spec w.spend atomicUTXOs (fun a => by simp [amountOf]) hloop
  -- sorting the pairs keeps the inputs, in another order
  have hperm := map_fst_sortFunc_zip_perm (fun a b => TransferableInput.compare a.1 b.1)
    hlen.le
  refine ⟨by simp, fun a => ⟨?_, hfit a⟩⟩
  rw [hamt a, total_of_perm (hperm.map _) a]
  simp [amountOf]

omit [DecidableEq ID] [DecidableEq Address] [LinearOrder ID] [LinearOrder Address] [CheckedArith] in
@[simp] theorem importTx_importedInputs (chainID : ID) (ins : List (TransferableInput ID))
    (outs : List (EVMOutput ID Address)) :
    (importTx ctx w chainID ins outs).importedInputs = ins := rfl

omit [DecidableEq ID] [DecidableEq Address] [LinearOrder ID] [LinearOrder Address] [CheckedArith] in
@[simp] theorem importTx_outs (chainID : ID) (ins : List (TransferableInput ID))
    (outs : List (EVMOutput ID Address)) : (importTx ctx w chainID ins outs).outs = outs := rfl

omit [DecidableEq ID] [DecidableEq Address] [LinearOrder ID] [LinearOrder Address] [CheckedArith] in
/-- Under `ImportLenGrows`, each output adds `EVMOutputGas` to an import's gas. -/
theorem importTx_gasNat (himport : ImportLenGrows w.importLen) (chainID : ID)
    (ins : List (TransferableInput ID)) (outs : List (EVMOutput ID Address)) (fixedFee : Bool) :
    (importTx ctx w chainID ins outs).gasNat fixedFee =
      (importTx ctx w chainID ins []).gasNat fixedFee + outs.length * EVMOutputGas := by
  have hlen := himport ⟨ctx.networkID, ctx.chainID, chainID, ins, outs, 0⟩
  dsimp only at hlen
  unfold importTx WalletContext.signImport UnsignedImportTx.gasNat
  dsimp only
  rw [hlen]
  unfold calcBytesCost EVMOutputGas TxBytesGas
  ring

omit [DecidableEq Address] [LinearOrder ID] [LinearOrder Address] [CheckedArith] in
/-- The outputs of the imported amounts hold none of the chain's asset. -/
theorem total_importOuts (chainAssetID : ID) (recipient : Address)
    (entries : List (Σ _ : ID, ℕ)) :
    total ((importOuts chainAssetID recipient entries).map fun out => (out.assetID, out.amount))
      chainAssetID = 0 := by
  induction entries with
  | nil => rfl
  | cons e entries ih =>
    unfold importOuts at ih ⊢
    rw [List.filterMap_cons]
    split_ifs with hskip
    · exact ih
    · rw [List.map_cons, total_cons, ih]
      simp only [not_or] at hskip
      simp [hskip.1]

omit [DecidableEq ID] [DecidableEq Address] [LinearOrder ID] [LinearOrder Address] in
/-- From Apricot Phase 3, the fees are those of the draft's gas and of that gas plus an
output's. -/
theorem importFees_eq_ok (hAP3 : rules.isApricotPhase3 = true) {b : ℕ}
    {draft : UnsignedImportTx ID Address} {feeWithout feeWith : ℕ}
    (h : importFees rules (some b) draft = .ok (feeWithout, feeWith)) :
    ∃ gas, draft.GasUsed rules.isApricotPhase5 = .ok gas ∧
      CalculateDynamicFee gas (some b) = .ok feeWithout ∧
      CalculateDynamicFee ((gas + EVMOutputGas) % 2 ^ 64) (some b) = .ok feeWith := by
  unfold importFees at h
  rw [if_pos hAP3] at h
  obtain ⟨gas, hgas, h⟩ := except_bind_eq_ok.mp h
  obtain ⟨f₁, hf₁, h⟩ := except_bind_eq_ok.mp h
  obtain ⟨f₂, hf₂, h⟩ := except_bind_eq_ok.mp h
  simp only [except_pure_eq_ok, Except.ok.injEq, Prod.mk.injEq] at h
  obtain ⟨rfl, rfl⟩ := h
  exact ⟨gas, hgas, hf₁, hf₂⟩

variable {chainID : ID} {recipient : Address} {b : ℕ}
  {rangeOrder : List (Σ _ : ID, ℕ) → List (Σ _ : ID, ℕ)}
  {atomicUTXOs : List (UTXO ID Owner)}
  {utx : UnsignedImportTx ID Address} {signers : List (List Key)}

omit [DecidableEq Address] [LinearOrder Address] in
theorem importDraftGas_eq {importedAmount : AList (fun _ : ID => ℕ)}
    {importedInputs : List (TransferableInput ID)}
    (h : importInputs w atomicUTXOs = .ok (importedAmount, importedInputs, signers)) :
    importDraftGas ctx w rules chainID recipient rangeOrder atomicUTXOs =
      (importTx ctx w chainID importedInputs
        (importOuts ctx.chainAssetID recipient (rangeOrder importedAmount.entries))).GasUsed
          rules.isApricotPhase5 := by
  unfold importDraftGas
  rw [h, except_ok_bind]

omit [DecidableEq Address] in
/-- What a successful `newImportTxWithUTXOs` did from Apricot Phase 3: it took the inputs of
`importInputs`, priced the draft without change at `gas`, found the imported AVAX to cover the
fee without change, added the change output when the fee with change leaves some, and built a
transaction that `Verify` accepts. -/
theorem newImportTxWithUTXOs_eq_ok (hAP3 : rules.isApricotPhase3 = true)
    (h : newImportTxWithUTXOs ctx w rules chainID recipient (some b) rangeOrder atomicUTXOs =
      .ok (utx, signers)) :
    ∃ importedAmount importedInputs gas feeWithout feeWith,
      importInputs w atomicUTXOs = .ok (importedAmount, importedInputs, signers) ∧
      (importTx ctx w chainID importedInputs
        (importOuts ctx.chainAssetID recipient (rangeOrder importedAmount.entries))).GasUsed
          rules.isApricotPhase5 = .ok gas ∧
      CalculateDynamicFee gas (some b) = .ok feeWithout ∧
      CalculateDynamicFee ((gas + EVMOutputGas) % 2 ^ 64) (some b) = .ok feeWith ∧
      feeWithout ≤ amountOf importedAmount ctx.chainAssetID ∧
      utx = importTx ctx w chainID importedInputs (sortFunc EVMOutput.compare
        (if feeWith < amountOf importedAmount ctx.chainAssetID then
          importOuts ctx.chainAssetID recipient (rangeOrder importedAmount.entries) ++
            [⟨recipient, amountOf importedAmount ctx.chainAssetID - feeWith, ctx.chainAssetID⟩]
        else importOuts ctx.chainAssetID recipient (rangeOrder importedAmount.entries))) ∧
      utx.Verify ctx rules = .ok () := by
  unfold newImportTxWithUTXOs at h
  obtain ⟨⟨importedAmount, importedInputs, signers₀⟩, hinputs, h⟩ :=
    except_bind_eq_ok.mp h
  dsimp only at h
  obtain ⟨⟨feeWithout, feeWith⟩, hfees, h⟩ := except_bind_eq_ok.mp h
  dsimp only at h
  obtain ⟨gas, hgas, hWithout, hWith⟩ := importFees_eq_ok hAP3 hfees
  -- the two guards passed: the AVAX covers the fee, and there is an output
  by_cases hlow : amountOf importedAmount ctx.chainAssetID < feeWithout
  · rw [if_pos hlow] at h
    simp at h
  rw [if_neg hlow] at h
  by_cases hnone : (if feeWith < amountOf importedAmount ctx.chainAssetID then
      importOuts ctx.chainAssetID recipient (rangeOrder importedAmount.entries) ++
        [⟨recipient, amountOf importedAmount ctx.chainAssetID - feeWith, ctx.chainAssetID⟩]
      else importOuts ctx.chainAssetID recipient (rangeOrder importedAmount.entries)).length = 0
  · rw [if_pos hnone] at h
    simp at h
  rw [if_neg hnone] at h
  obtain ⟨⟨⟩, hverify, h⟩ := except_bind_eq_ok.mp h
  simp only [except_pure_eq_ok, Except.ok.injEq, Prod.mk.injEq] at h
  obtain ⟨rfl, rfl⟩ := h
  exact ⟨importedAmount, importedInputs, gas, feeWithout, feeWith, hinputs, hgas, hWithout,
    hWith, by omega, rfl, hverify⟩

omit [DecidableEq Address] in
/-- An import `newImportTxWithUTXOs` builds from Apricot Phase 3 passes `Verify` and burns at
least the fee `SemanticVerify` charges for its gas. The gas priced for the change output is the
gas it adds (`ImportLenGrows`), and the sum does not wrap (`ImportRoom`): so the change leaves
exactly the fee with change, and without change the fee of the draft is what is paid. -/
theorem newImportTxWithUTXOs_pays_fee (hAP3 : rules.isApricotPhase3 = true)
    (himport : ImportLenGrows w.importLen)
    (hroom : ImportRoom ctx w rules chainID recipient rangeOrder atomicUTXOs)
    (h : newImportTxWithUTXOs ctx w rules chainID recipient (some b) rangeOrder atomicUTXOs =
      .ok (utx, signers)) :
    utx.Verify ctx rules = .ok () ∧ ∃ gas fee burned,
      utx.GasUsed rules.isApricotPhase5 = .ok gas ∧ CalculateDynamicFee gas (some b) = .ok fee ∧
      utx.Burned ctx.chainAssetID = .ok burned ∧ fee ≤ burned := by
  obtain ⟨importedAmount, importedInputs, gas, feeWithout, feeWith, hinputs, hgas, hWithout,
    hWith, hcover, rfl, hverify⟩ := newImportTxWithUTXOs_eq_ok hAP3 h
  refine ⟨hverify, ?_⟩
  have hroom' : gas + EVMOutputGas < 2 ^ 64 :=
    hroom gas (by rw [importDraftGas_eq hinputs]; exact hgas)
  obtain ⟨-, hamt⟩ := importInputs_spec hinputs
  set A := amountOf importedAmount ctx.chainAssetID
  set outs := importOuts ctx.chainAssetID recipient (rangeOrder importedAmount.entries) with houts
  have hdraft : gas = (importTx ctx w chainID importedInputs []).gasNat rules.isApricotPhase5 +
      outs.length * EVMOutputGas := by
    rw [UnsignedImportTx.GasUsed_eq_ok hgas, importTx_gasNat himport]
  -- the inputs hold the imported AVAX, and the outputs of the other assets none of it
  have hin : ∀ outs' : List (EVMOutput ID Address),
      total (importTx ctx w chainID importedInputs outs').inAmounts ctx.chainAssetID = A :=
    fun _ => (hamt ctx.chainAssetID).1.symm
  have hfit : A < 2 ^ 64 := (hamt ctx.chainAssetID).2
  have hout : ∀ change : List (EVMOutput ID Address),
      total (importTx ctx w chainID importedInputs
        (sortFunc EVMOutput.compare (outs ++ change))).outAmounts ctx.chainAssetID =
          total (change.map fun out => (out.assetID, out.amount)) ctx.chainAssetID := by
    intro change
    unfold UnsignedImportTx.outAmounts
    rw [importTx_outs, total_of_perm ((sortFunc_perm _ _).map _), List.map_append, total_append,
      houts, total_importOuts, Nat.zero_add]
  split_ifs with hchange
  · -- with change: the gas grows by one output's, and the change leaves the fee with change
    have hlen : (sortFunc EVMOutput.compare
        (outs ++ [⟨recipient, A - feeWith, ctx.chainAssetID⟩])).length = outs.length + 1 := by
      rw [(sortFunc_perm _ _).length_eq, List.length_append, List.length_singleton]
    have hgasNat : (importTx ctx w chainID importedInputs (sortFunc EVMOutput.compare
        (outs ++ [⟨recipient, A - feeWith, ctx.chainAssetID⟩]))).gasNat rules.isApricotPhase5 =
          gas + EVMOutputGas := by
      rw [importTx_gasNat himport, hlen, hdraft]
      ring
    rw [Nat.mod_eq_of_lt hroom'] at hWith
    have hchangeOut := hout [⟨recipient, A - feeWith, ctx.chainAssetID⟩]
    simp only [List.map_cons, List.map_nil, total_singleton, ite_true] at hchangeOut
    refine ⟨gas + EVMOutputGas, feeWith, A - (A - feeWith), ?_, hWith, ?_, by omega⟩
    · rw [← hgasNat]
      exact UnsignedImportTx.GasUsed_of_lt (by omega)
    · exact UnsignedImportTx.Burned_of_le (hin _) hchangeOut hfit (by omega)
  · -- without change: the draft is the transaction, up to the order of its outputs
    have hlen : (sortFunc EVMOutput.compare outs).length = outs.length :=
      (sortFunc_perm _ _).length_eq
    have hgasNat : (importTx ctx w chainID importedInputs (sortFunc EVMOutput.compare outs)).gasNat
        rules.isApricotPhase5 = gas := by
      rw [importTx_gasNat himport, hlen, hdraft]
    have hnoOut := hout []
    rw [List.append_nil, List.map_nil, total_nil] at hnoOut
    refine ⟨gas, feeWithout, A - 0, ?_, hWithout, ?_, by omega⟩
    · rw [← hgasNat]
      exact UnsignedImportTx.GasUsed_of_lt (by omega)
    · exact UnsignedImportTx.Burned_of_le (hin _) hnoOut hfit (Nat.zero_le _)

end ImportSpec

/-! ## The export pays its fee -/

section ExportSpec

omit [DecidableEq Address] [CheckedArith] in
/-- The loop of `GetSpendableFunds` appends one input of `assetID` and one list of signers for
each key it takes, and the inputs hold what was to be found less what is still missing. -/
theorem spendableFundsLoop_spec (chainAssetID assetID : ID) (GetEthAddress : Key → Address)
    (s : EVMState ID Address) (keys : List Key) {amount amount' : ℕ}
    {inputs inputs' : List (EVMInput ID Address)} {signers signers' : List (List Key)}
    (h : spendableFundsLoop chainAssetID assetID GetEthAddress s keys amount inputs signers =
      (amount', inputs', signers')) :
    ∃ new newSigs, inputs' = inputs ++ new ∧ signers' = signers ++ newSigs ∧
      new.length = newSigs.length ∧ (∀ input ∈ new, input.assetID = assetID) ∧
      (new.map EVMInput.amount).sum + amount' = amount := by
  induction keys generalizing amount inputs signers with
  | nil =>
    cases h
    exact ⟨[], [], by simp, by simp, rfl, by simp, by simp⟩
  | cons key keys ih =>
    simp only [spendableFundsLoop] at h
    by_cases hzero : amount = 0
    · rw [if_pos hzero] at h
      cases h
      exact ⟨[], [], by simp, by simp, rfl, by simp, by simp⟩
    rw [if_neg hzero] at h
    generalize (if assetID = chainAssetID then s.balance (GetEthAddress key) / x2cRate % 2 ^ 64
      else s.balanceMultiCoin (GetEthAddress key) assetID % 2 ^ 64) = balance at h
    by_cases hskip : balance = 0
    · -- a key without a balance is skipped
      rw [if_pos hskip] at h
      exact ih h
    · -- the key gives its balance, or what is still missing if that is less
      rw [if_neg hskip] at h
      obtain ⟨new, newSigs, hins, hsigs, hlen, hasset, hsum⟩ := ih h
      refine ⟨⟨GetEthAddress key, if amount < balance then amount else balance, assetID,
        s.nonce (GetEthAddress key)⟩ :: new, [key] :: newSigs, by simp [hins], by simp [hsigs],
        by simp [hlen], ?_, ?_⟩
      · intro input hmem
        rcases List.mem_cons.mp hmem with rfl | hmem
        · rfl
        · exact hasset input hmem
      · simp only [List.map_cons, List.sum_cons]
        split_ifs at hsum ⊢ <;> omega

omit [DecidableEq Address] [CheckedArith] in
/-- The inputs `GetSpendableFunds` returns come with one list of signers each, are all of the
asset asked for, and hold exactly the amount asked for. -/
theorem GetSpendableFunds_spec (chainAssetID : ID) (GetEthAddress : Key → Address)
    (s : EVMState ID Address) (keys : List Key) (assetID : ID) (amount : ℕ)
    {inputs : List (EVMInput ID Address)} {signers : List (List Key)}
    (h : GetSpendableFunds chainAssetID GetEthAddress s keys assetID amount =
      .ok (inputs, signers)) :
    inputs.length = signers.length ∧ (∀ input ∈ inputs, input.assetID = assetID) ∧
      (inputs.map EVMInput.amount).sum = amount := by
  unfold GetSpendableFunds at h
  generalize hloop : spendableFundsLoop chainAssetID assetID GetEthAddress s keys amount [] [] =
    found at h
  obtain ⟨left, inputs', signers'⟩ := found
  obtain ⟨new, newSigs, rfl, rfl, hlen, hasset, hsum⟩ :=
    spendableFundsLoop_spec chainAssetID assetID GetEthAddress s keys hloop
  dsimp only at h
  -- a result means nothing was left to find
  split_ifs at h with hpos
  simp only [Except.ok.injEq, Prod.mk.injEq] at h
  obtain ⟨rfl, rfl⟩ := h
  exact ⟨hlen, hasset, by omega⟩

section Build

variable [LinearOrder ID] [LinearOrder Address] {ctx : AtomicContext ID Address Owner}
  {w : WalletContext ID Address Owner Key} {rules : Rules}

omit [DecidableEq Address] [LinearOrder ID] [LinearOrder Address] [CheckedArith] in
/-- The inputs of the exported asset hold none of the chain's asset, and the chain's asset still
needed is the amount exported of it. -/
theorem exportAssetInputs_spec {s : EVMState ID Address} {keys : List Key} {assetID : ID}
    {amount avaxNeeded : ℕ} {ins : List (EVMInput ID Address)} {signers : List (List Key)}
    (h : exportAssetInputs ctx w s keys assetID amount = .ok (avaxNeeded, ins, signers)) :
    ins.length = signers.length ∧
      total (ins.map fun input => (input.assetID, input.amount)) ctx.chainAssetID = 0 ∧
      avaxNeeded = if assetID = ctx.chainAssetID then amount else 0 := by
  unfold exportAssetInputs at h
  split_ifs at h with hasset
  · obtain ⟨⟨ins', signers'⟩, hfunds, h⟩ := except_bind_eq_ok.mp h
    simp only [except_pure_eq_ok, Except.ok.injEq, Prod.mk.injEq] at h
    obtain ⟨rfl, rfl, rfl⟩ := h
    obtain ⟨hlen, hasset', -⟩ := GetSpendableFunds_spec ctx.chainAssetID w.GetEthAddress s keys
      assetID amount (inputsError_eq_ok.mp hfunds)
    have hnone : ins'.filter (fun input => input.assetID = ctx.chainAssetID) = [] :=
      List.filter_eq_nil_iff.mpr fun input hin => by simp [hasset' input hin, hasset]
    refine ⟨hlen, ?_, by rw [if_neg hasset]⟩
    rw [total_map, hnone, List.map_nil, List.sum_nil]
  · simp only [except_pure_eq_ok, Except.ok.injEq, Prod.mk.injEq] at h
    obtain ⟨rfl, rfl, rfl⟩ := h
    rw [not_ne_iff] at hasset
    simp [hasset]

omit [DecidableEq ID] [DecidableEq Address] [LinearOrder ID] [LinearOrder Address] [CheckedArith] in
@[simp] theorem exportTx_ins (chainID : ID) (ins : List (EVMInput ID Address))
    (outs : List (TransferableOutput ID Owner)) : (exportTx ctx w chainID ins outs).ins = ins :=
  rfl

omit [DecidableEq ID] [DecidableEq Address] [LinearOrder ID] [LinearOrder Address] [CheckedArith] in
@[simp] theorem exportTx_exportedOutputs (chainID : ID) (ins : List (EVMInput ID Address))
    (outs : List (TransferableOutput ID Owner)) :
    (exportTx ctx w chainID ins outs).exportedOutputs = outs := rfl

omit [DecidableEq ID] [DecidableEq Address] [LinearOrder ID] [LinearOrder Address] [CheckedArith] in
/-- Under `ExportLenGrows`, each input adds `EVMInputGas` to an export's gas: its bytes and its
signature. -/
theorem exportTx_gasNat (hexport : ExportLenGrows w.exportLen) (chainID : ID)
    (ins : List (EVMInput ID Address)) (outs : List (TransferableOutput ID Owner))
    (fixedFee : Bool) :
    (exportTx ctx w chainID ins outs).gasNat fixedFee =
      (exportTx ctx w chainID [] outs).gasNat fixedFee + ins.length * EVMInputGas := by
  have hlen := hexport ⟨ctx.networkID, ctx.chainID, chainID, ins, outs, 0⟩
  dsimp only at hlen
  unfold exportTx WalletContext.signExport UnsignedExportTx.gasNat
  dsimp only
  rw [hlen, List.length_nil, Nat.zero_mul, Nat.add_zero]
  unfold calcBytesCost EVMInputGas TxBytesGas
  ring

variable {s : EVMState ID Address} {assetID : ID} {amount : ℕ} {chainID : ID} {recipient : Owner}
  {b : ℕ} {keys : List Key} {utx : UnsignedExportTx ID Address Owner} {signers : List (List Key)}

omit [DecidableEq Address] in
/-- What a successful `newExportTx` did from Apricot Phase 3: it took the inputs of the exported
asset, priced the draft with them at `cost`, let `GetSpendableAVAXWithFee` add the inputs of the
chain's asset, and built a transaction that `Verify` accepts. -/
theorem newExportTx_eq_ok (hAP3 : rules.isApricotPhase3 = true)
    (h : newExportTx ctx w rules s assetID amount chainID recipient (some b) keys =
      .ok (utx, signers)) :
    ∃ avaxNeeded ins insSigners cost avaxIns avaxSigners,
      exportAssetInputs ctx w s keys assetID amount = .ok (avaxNeeded, ins, insSigners) ∧
      (exportTx ctx w chainID ins (exportOuts assetID amount recipient)).GasUsed
        rules.isApricotPhase5 = .ok cost ∧
      GetSpendableAVAXWithFee ctx.chainAssetID w.GetEthAddress s keys avaxNeeded cost (some b) =
        .ok (avaxIns, avaxSigners) ∧
      utx = exportTx ctx w chainID ((sortFunc (fun a b => EVMInput.compare a.1 b.1)
        ((ins ++ avaxIns).zip (insSigners ++ avaxSigners))).map Prod.fst)
          (exportOuts assetID amount recipient) ∧
      utx.Verify ctx rules = .ok () := by
  unfold newExportTx at h
  obtain ⟨⟨avaxNeeded, ins, insSigners⟩, hassets, h⟩ := except_bind_eq_ok.mp h
  dsimp only at h
  obtain ⟨⟨avaxIns, avaxSigners⟩, havax, h⟩ := except_bind_eq_ok.mp h
  dsimp only at h
  -- from Apricot Phase 3 the inputs of the chain's asset come with the fee
  unfold exportAVAXInputs at havax
  rw [if_pos hAP3] at havax
  obtain ⟨cost, hcost, havax⟩ := except_bind_eq_ok.mp havax
  obtain ⟨⟨⟩, hverify, h⟩ := except_bind_eq_ok.mp h
  simp only [except_pure_eq_ok, Except.ok.injEq, Prod.mk.injEq] at h
  obtain ⟨rfl, rfl⟩ := h
  exact ⟨avaxNeeded, ins, insSigners, cost, avaxIns, avaxSigners, hassets, hcost,
    inputsError_eq_ok.mp havax, rfl, hverify⟩

omit [DecidableEq Address] in
/-- An export `newExportTx` builds from Apricot Phase 3 passes `Verify` and burns exactly the fee
`SemanticVerify` charges for its gas. Each input of the chain's asset adds the gas
`GetSpendableAVAXWithFee` priced it at (`ExportLenGrows`), the gas does not wrap
(`ExportRoom`), and the inputs do not sum past `2^64` when the keys hold less. -/
theorem newExportTx_pays_fee (hAP3 : rules.isApricotPhase3 = true)
    (hexport : ExportLenGrows w.exportLen)
    (hroom : ExportRoom ctx w rules s assetID amount chainID recipient keys)
    (hbal : (keys.map fun key => s.balance (w.GetEthAddress key) / x2cRate).sum < 2 ^ 64)
    (h : newExportTx ctx w rules s assetID amount chainID recipient (some b) keys =
      .ok (utx, signers)) :
    utx.Verify ctx rules = .ok () ∧ ∃ gas fee,
      utx.GasUsed rules.isApricotPhase5 = .ok gas ∧ CalculateDynamicFee gas (some b) = .ok fee ∧
      utx.Burned ctx.chainAssetID = .ok fee := by
  obtain ⟨avaxNeeded, ins, insSigners, cost, avaxIns, avaxSigners, hassets, hcost, havax, rfl,
    hverify⟩ := newExportTx_eq_ok hAP3 h
  refine ⟨hverify, ?_⟩
  have hroom' := hroom avaxNeeded ins insSigners hassets cost hcost
  obtain ⟨⟨fee, hfee, hsum⟩, hle, ⟨used, hsub, haddr, rfl⟩, -⟩ :=
    GetSpendableAVAXWithFee_sum ctx.chainAssetID w.GetEthAddress s keys avaxNeeded cost b hroom'
      havax
  have havaxAsset := GetSpendableAVAXWithFee_assetID ctx.chainAssetID w.GetEthAddress s keys
    avaxNeeded cost (some b) havax
  obtain ⟨hlen, hinsAVAX, hneeded⟩ := exportAssetInputs_spec hassets
  have hused : avaxIns.length = used.length := by
    simpa using congrArg List.length haddr
  have hkeys : avaxIns.length * EVMInputGas ≤ keys.length * EVMInputGas :=
    Nat.mul_le_mul_right _ (hused ▸ hsub.length_le)
  -- the transaction's inputs are those chosen, in another order
  have hperm := map_fst_sortFunc_zip_perm (fun a b => EVMInput.compare a.1 b.1)
    (l := ins ++ avaxIns) (m := insSigners ++ used.map fun key => [key])
    (by simp [hlen, hused])
  set outs := exportOuts assetID amount recipient
  set ins' := (sortFunc (fun a b => EVMInput.compare a.1 b.1)
    ((ins ++ avaxIns).zip (insSigners ++ used.map fun key => [key]))).map Prod.fst
  have hgasNat : (exportTx ctx w chainID ins' outs).gasNat rules.isApricotPhase5 =
      cost + avaxIns.length * EVMInputGas := by
    rw [exportTx_gasNat hexport, hperm.length_eq, List.length_append,
      UnsignedExportTx.GasUsed_eq_ok hcost, exportTx_gasNat hexport _ ins]
    ring
  -- what the inputs hold of the chain's asset: the amount still needed and the fee
  have hin : total (exportTx ctx w chainID ins' outs).inAmounts ctx.chainAssetID =
      avaxNeeded + fee := by
    unfold UnsignedExportTx.inAmounts
    rw [exportTx_ins, total_of_perm (hperm.map _), List.map_append, total_append, hinsAVAX,
      total_map, List.filter_eq_self.mpr (by simpa using havaxAsset), hsum, Nat.zero_add]
  have hout : total (exportTx ctx w chainID ins' outs).outAmounts ctx.chainAssetID =
      avaxNeeded := by
    unfold UnsignedExportTx.outAmounts
    rw [exportTx_exportedOutputs, hneeded]
    simp [outs, exportOuts, total_singleton]
  have hfit : avaxNeeded + fee < 2 ^ 64 := by
    have hkeysBal := sum_amount_le_of_used w.GetEthAddress s hsub haddr
      fun input hin => (hle input hin).2
    omega
  refine ⟨cost + avaxIns.length * EVMInputGas, fee, ?_, hfee, ?_⟩
  · rw [← hgasNat]
    exact UnsignedExportTx.GasUsed_of_lt (by omega)
  · have hburn := UnsignedExportTx.Burned_of_le hin hout hfit (Nat.le_add_right _ _)
    rwa [Nat.add_sub_cancel_left] at hburn

end Build

end ExportSpec

/-! ## Both builders -/

omit [DecidableEq Address] in
theorem atomicTx_builders_pay_fee [LinearOrder ID] [LinearOrder Address]
    (ctx : AtomicContext ID Address Owner) (w : WalletContext ID Address Owner Key) (rules : Rules)
    (b : ℕ) (hAP3 : rules.isApricotPhase3 = true) (himport : ImportLenGrows w.importLen)
    (hexport : ExportLenGrows w.exportLen) :
    (∀ chainID recipient rangeOrder atomicUTXOs utx signers,
      ImportRoom ctx w rules chainID recipient rangeOrder atomicUTXOs →
      newImportTxWithUTXOs ctx w rules chainID recipient (some b) rangeOrder atomicUTXOs =
        .ok (utx, signers) →
      utx.Verify ctx rules = .ok () ∧ ∃ gas fee burned,
        utx.GasUsed rules.isApricotPhase5 = .ok gas ∧
        CalculateDynamicFee gas (some b) = .ok fee ∧
        utx.Burned ctx.chainAssetID = .ok burned ∧ fee ≤ burned) ∧
    (∀ s assetID amount chainID recipient keys utx signers,
      ExportRoom ctx w rules s assetID amount chainID recipient keys →
      (keys.map fun key => s.balance (w.GetEthAddress key) / x2cRate).sum < 2 ^ 64 →
      newExportTx ctx w rules s assetID amount chainID recipient (some b) keys =
        .ok (utx, signers) →
      utx.Verify ctx rules = .ok () ∧ ∃ gas fee,
        utx.GasUsed rules.isApricotPhase5 = .ok gas ∧
        CalculateDynamicFee gas (some b) = .ok fee ∧
        utx.Burned ctx.chainAssetID = .ok fee) := by
  constructor
  · intro chainID recipient rangeOrder atomicUTXOs utx signers hroom h
    exact newImportTxWithUTXOs_pays_fee hAP3 himport hroom h
  · intro s assetID amount chainID recipient keys utx signers hroom hbal h
    exact newExportTx_pays_fee hAP3 hexport hroom hbal h

end Builders

section Reference

attribute [local instance] CheckedArith.reference

/-! ## Samples

A keychain whose key 0 spends every output, with encodings of `importBase` bytes plus 60 for each
output of an import, and of 100 bytes plus 68 for each input of an export. -/

deriving instance DecidableEq for TransferableInput, TransferOutput, TransferableOutput, EVMOutput,
  UnsignedImportTx, UnsignedExportTx

/-- Rules from Banff on: every phase is active. -/
def sampleRules : Rules := ⟨true, true, true, true, true, true⟩

/-- The keychain and the codec of the samples; keys are their own addresses. -/
def sampleWalletContext (importBase : ℕ) : WalletContext ℕ (Fin 2) Unit (Fin 2) where
  spend _ := some ([0], [0])
  GetEthAddress := id
  importLen utx := importBase + utx.outs.length * (AddressLength + 8 + HashLen)
  exportLen utx := 100 + utx.ins.length * (AddressLength + 8 + HashLen + 8)

theorem importLenGrows_sampleWalletContext (importBase : ℕ) :
    ImportLenGrows (sampleWalletContext importBase).importLen := by
  intro utx
  simp [sampleWalletContext]

theorem exportLenGrows_sampleWalletContext (importBase : ℕ) :
    ExportLenGrows (sampleWalletContext importBase).exportLen := by
  intro utx
  simp [sampleWalletContext]

/-- Two milli-AVAX in output 0 of transaction 3. -/
def sampleUTXOs : List (UTXO ℕ Unit) := [⟨3, 0, 7, ⟨2000000, 0, 1, [()]⟩⟩]

/-- The import of `sampleUTXOs` to address 0 at 25 wei of base fee: the fee is one nAVAX, with
or without change, and the change is the rest. -/
def sampleBuiltImport : UnsignedImportTx ℕ (Fin 2) :=
  ⟨1, 0, 5, [⟨3, 0, 7, 2000000, [0]⟩], [⟨0, 1999999, 7⟩], 160⟩

/-- The export of 1000 nAVAX from `sampleWallet` at 25 wei of base fee: key 0 pays the amount and
one nAVAX of fee. -/
def sampleBuiltExport : UnsignedExportTx ℕ (Fin 2) Unit :=
  ⟨1, 0, 5, [⟨0, 1001, 7, 0⟩], [⟨7, ⟨1000, 0, 1, [()]⟩⟩], 168⟩

theorem atomicTx_builders_pay_fee_sample :
    ImportRoom sampleContext (sampleWalletContext 100) sampleRules 5 0 id sampleUTXOs ∧
      newImportTxWithUTXOs sampleContext (sampleWalletContext 100) sampleRules 5 0 (some 25) id
        sampleUTXOs = .ok (sampleBuiltImport, [[0]]) ∧
      (sampleBuiltImport.Verify sampleContext sampleRules = .ok () ∧ ∃ gas fee burned,
        sampleBuiltImport.GasUsed sampleRules.isApricotPhase5 = .ok gas ∧
        CalculateDynamicFee gas (some 25) = .ok fee ∧
        sampleBuiltImport.Burned sampleContext.chainAssetID = .ok burned ∧ fee ≤ burned) ∧
    ExportRoom sampleContext (sampleWalletContext 100) sampleRules sampleWallet 7 1000 5 ()
        ([0, 1] : List (Fin 2)) ∧
      (([0, 1] : List (Fin 2)).map fun key =>
        sampleWallet.balance ((sampleWalletContext 100).GetEthAddress key) / x2cRate).sum <
          2 ^ 64 ∧
      newExportTx sampleContext (sampleWalletContext 100) sampleRules sampleWallet 7 1000 5 ()
        (some 25) [0, 1] = .ok (sampleBuiltExport, [[0]]) ∧
      (sampleBuiltExport.Verify sampleContext sampleRules = .ok () ∧ ∃ gas fee,
        sampleBuiltExport.GasUsed sampleRules.isApricotPhase5 = .ok gas ∧
        CalculateDynamicFee gas (some 25) = .ok fee ∧
        sampleBuiltExport.Burned sampleContext.chainAssetID = .ok fee) := by
  have hpay := atomicTx_builders_pay_fee sampleContext (sampleWalletContext 100) sampleRules 25
    rfl (importLenGrows_sampleWalletContext 100) (exportLenGrows_sampleWalletContext 100)
  -- the draft of the import has 11100 gas
  have hroomI : ImportRoom sampleContext (sampleWalletContext 100) sampleRules 5 0 id
      sampleUTXOs := by
    intro gas hgas
    have hdraft : importDraftGas sampleContext (sampleWalletContext 100) sampleRules 5 0 id
        sampleUTXOs = .ok 11100 := by decide +kernel
    rw [hdraft] at hgas
    cases hgas
    decide +kernel
  have hrunI : newImportTxWithUTXOs sampleContext (sampleWalletContext 100) sampleRules 5 0
      (some 25) id sampleUTXOs = .ok (sampleBuiltImport, [[0]]) := by decide +kernel
  -- the draft of the export has no inputs and 10100 gas
  have hroomE : ExportRoom sampleContext (sampleWalletContext 100) sampleRules sampleWallet 7
      1000 5 () ([0, 1] : List (Fin 2)) := by
    intro avaxNeeded ins signers hassets cost hcost
    have hnone : exportAssetInputs sampleContext (sampleWalletContext 100) sampleWallet
        ([0, 1] : List (Fin 2)) 7 1000 = .ok (1000, [], []) := by decide +kernel
    rw [hnone, Except.ok.injEq, Prod.mk.injEq, Prod.mk.injEq] at hassets
    obtain ⟨rfl, rfl, rfl⟩ := hassets
    have hdraft : (exportTx sampleContext (sampleWalletContext 100) 5 []
        (exportOuts 7 1000 ())).GasUsed sampleRules.isApricotPhase5 = .ok 10100 := by
      decide +kernel
    rw [hdraft] at hcost
    cases hcost
    decide +kernel
  have hbal : (([0, 1] : List (Fin 2)).map fun key =>
      sampleWallet.balance ((sampleWalletContext 100).GetEthAddress key) / x2cRate).sum <
        2 ^ 64 := by decide +kernel
  have hrunE : newExportTx sampleContext (sampleWalletContext 100) sampleRules sampleWallet 7 1000
      5 () (some 25) [0, 1] = .ok (sampleBuiltExport, [[0]]) := by decide +kernel
  exact ⟨hroomI, hrunI, hpay.1 5 0 id sampleUTXOs sampleBuiltImport [[0]] hroomI hrunI, hroomE,
    hbal, hrunE, hpay.2 sampleWallet 7 1000 5 () [0, 1] sampleBuiltExport [[0]] hroomE hbal hrunE⟩

/-- The export of `2^64 - 12000` nAVAX from the keys of `wrapWallet` at one nAVAX of fee per
gas: key 0 gives all it holds and key 1 the rest of the amount and the fee of 12236 gas, so the
inputs hold `2^64 + 236` nAVAX. -/
def overflowExport : UnsignedExportTx ℕ (Fin 2) Unit :=
  ⟨1, 0, 5, [⟨0, 18446744073, 7, 0⟩, ⟨1, 18446744055262807779, 7, 0⟩],
    [⟨7, ⟨18446744073709539616, 0, 1, [()]⟩⟩], 236⟩

/-- The export builder at its failing input: the draft has room for both inputs, yet the keys
hold `2^64` nAVAX or more, `GetSpendableAVAXWithFee` lets the inputs' total pass `2^64` while it
checks `amount + fee`, and the transaction built passes `Verify` with a `Burned` that overflows. -/
theorem newExportTx_burned_overflows :
    ExportLenGrows (sampleWalletContext 100).exportLen ∧
      ExportRoom sampleContext (sampleWalletContext 100) sampleRules wrapWallet 7
        18446744073709539616 5 () ([0, 1] : List (Fin 2)) ∧
      2 ^ 64 ≤ (([0, 1] : List (Fin 2)).map fun key =>
        wrapWallet.balance ((sampleWalletContext 100).GetEthAddress key) / x2cRate).sum ∧
      newExportTx sampleContext (sampleWalletContext 100) sampleRules wrapWallet 7
        18446744073709539616 5 () (some x2cRate) [0, 1] = .ok (overflowExport, [[0], [1]]) ∧
      overflowExport.Verify sampleContext sampleRules = .ok () ∧
      overflowExport.Burned sampleContext.chainAssetID = .error errOverflow := by
  -- the draft of the export has no inputs and 10100 gas, far from `2^64`
  have hnone : exportAssetInputs sampleContext (sampleWalletContext 100) wrapWallet
      ([0, 1] : List (Fin 2)) 7 18446744073709539616 =
        .ok (18446744073709539616, [], []) := by decide +kernel
  have hroomE : ExportRoom sampleContext (sampleWalletContext 100) sampleRules wrapWallet 7
      18446744073709539616 5 () ([0, 1] : List (Fin 2)) := by
    intro avaxNeeded ins signers hassets cost hcost
    rw [hnone, Except.ok.injEq, Prod.mk.injEq, Prod.mk.injEq] at hassets
    obtain ⟨rfl, rfl, rfl⟩ := hassets
    have hdraft : (exportTx sampleContext (sampleWalletContext 100) 5 []
        (exportOuts 7 18446744073709539616 ())).GasUsed sampleRules.isApricotPhase5 =
          .ok 10100 := by decide +kernel
    rw [hdraft] at hcost
    cases hcost
    decide +kernel
  -- both keys give an input; they are in order already, which the kernel cannot see through
  -- the well-founded recursion of the merge sort
  have hrunE : newExportTx sampleContext (sampleWalletContext 100) sampleRules wrapWallet 7
      18446744073709539616 5 () (some x2cRate) [0, 1] = .ok (overflowExport, [[0], [1]]) := by
    have havax : exportAVAXInputs sampleContext (sampleWalletContext 100) sampleRules wrapWallet
        ([0, 1] : List (Fin 2)) 5 [] (exportOuts 7 18446744073709539616 ()) 18446744073709539616
          (some x2cRate) = .ok (overflowExport.ins, [[0], [1]]) := by decide +kernel
    have hsort : sortFunc (fun a b => EVMInput.compare a.1 b.1)
        (([] ++ overflowExport.ins).zip ([] ++ [[0], [1]])) =
          overflowExport.ins.zip [[(0 : Fin 2)], [1]] :=
      List.mergeSort_of_pairwise (by decide +kernel)
    unfold newExportTx
    rw [hnone, except_ok_bind]
    dsimp only
    rw [havax, except_ok_bind]
    dsimp only
    rw [hsort]
    decide +kernel
  exact ⟨exportLenGrows_sampleWalletContext _, hroomE, by decide +kernel, hrunE, by decide +kernel,
    by decide +kernel⟩

end Reference

end Jeth
