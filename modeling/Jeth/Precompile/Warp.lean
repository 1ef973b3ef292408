import Jeth.Precompile.Predicate

/-!
# The warp precompile's predicate index

`getVerifiedWarpMessage(i)` and `getVerifiedWarpBlockHash(i)` read the `i`-th warp message of the
transaction. Execution finds its bytes through the state, which `StateDB.Prepare` gave the
predicates of the transaction's access list (`GetPredicateStorageSlots`), and whether it was
verified through the block context, which holds the bits `CheckPredicates` set for the
predicates that failed. The index is computed on both sides by `PreparePredicateStorageSlots`
over the same access list, so the two agree: `handleWarpMessage` goes on with the message exactly
when the `i`-th access tuple addressed to the precompile exists and its predicate verified
(`handleWarpMessage_index_matches_CheckPredicates`).

The model follows `handleWarpMessage` in `precompile/contracts/warp/contract_warp_handler.go`,
split at the validity check: `handleVerifiedWarpMessage` is the part after it. The ABI decoding
of the input, `warp.ParseMessage` and the handler's own parsing are parameters.
-/

namespace Jeth.Predicate

open Jeth.State (Hash)
open Jeth.Collections

variable {Address S P : Type} [DecidableEq Address]

/-- The precompile's view of the state: the predicates `StateDB.Prepare` stored, the hash
`SetTxContext` set, and the block context. -/
structure AccessibleState (A : Type) where
  predicateStorageSlots : AList fun _ : A => List (List UInt8)
  thash : Hash
  BlockContext : BlockContext A

/-- `StateDB.Prepare`, the predicates it stores (from Apricot Phase 2 on). -/
def AccessibleState.Prepare (s : AccessibleState Address) (rules : Rules Address S P)
    (list : List (AccessTuple Address)) : AccessibleState Address :=
  if rules.IsApricotPhase2 then
    { s with predicateStorageSlots := PreparePredicateStorageSlots rules list }
  else s

/-- `StateDB.SetTxContext`, the hash it sets. -/
def AccessibleState.SetTxContext (s : AccessibleState Address) (thash : Hash) :
    AccessibleState Address :=
  { s with thash := thash }

/-- `StateDB.GetPredicateStorageSlots`: the `index`-th predicate of `address`, if there is one. -/
def GetPredicateStorageSlots (predicateStorageSlots : AList fun _ : Address => List (List UInt8))
    (address : Address) (index : ℕ) : List UInt8 × Bool :=
  match predicateStorageSlots.lookup address with
  | none => ([], false)
  | some predicates =>
    if h : predicates.length ≤ index then ([], false) else (predicates[index], true)

theorem GetPredicateStorageSlots_eq
    (predicateStorageSlots : AList fun _ : Address => List (List UInt8)) (address : Address)
    (index : ℕ) :
    GetPredicateStorageSlots predicateStorageSlots address index =
      match ((predicateStorageSlots.lookup address).getD [])[index]? with
      | some predicate => (predicate, true)
      | none => ([], false) := by
  unfold GetPredicateStorageSlots
  cases predicateStorageSlots.lookup address with
  | none => rfl
  | some predicates =>
    by_cases h : predicates.length ≤ index
    · simp [h]
    · simp [h, List.getElem?_eq_getElem (Nat.lt_of_not_le h)]

/-! ## The handler -/

/-- `vmerrs.ErrOutOfGas`. -/
def ErrOutOfGas : String := "out of gas"

/-- `contract.DeductGas`. -/
def DeductGas (suppliedGas requiredGas : ℕ) : Except String ℕ :=
  if suppliedGas < requiredGas then .error ErrOutOfGas else .ok (suppliedGas - requiredGas)

/-- `math.SafeMul` on `uint64`: the low word of the product, and whether it overflowed. -/
def SafeMul (x y : ℕ) : ℕ × Bool :=
  (x * y % 2 ^ 64, decide (2 ^ 64 ≤ x * y))

/-- `math.MaxInt32`. -/
def MaxInt32 : ℕ := 2 ^ 31 - 1

def GetVerifiedWarpMessageBaseCost : ℕ := 2
def GasCostPerWarpMessageBytes : ℕ := 100

def errInvalidIndexInput : String := "invalid index to specify warp message"
def errInvalidPredicateBytes : String := "cannot unpack predicate bytes"
def errInvalidWarpMsg : String := "cannot unpack warp message"

/-- `messageHandler`: the output for an invalid index, and the message's own handling. -/
structure messageHandler (Message : Type) where
  packFailed : List UInt8
  handleMessage : Message → Except String (List UInt8)

section Handler

variable {B Message : Type} (bits : BitSet B) (ContractAddress : Address)
  (UnpackGetVerifiedWarpMessageInput : List UInt8 → Except String UInt32)
  (ParseMessage : List UInt8 → Except String Message)

/-- The part of `handleWarpMessage` after the validity check: charge for the message bytes,
unpack and parse the message, and let the handler read it. The gas left is returned beside the
output or the error. -/
def handleVerifiedWarpMessage (predicateBytes : List UInt8) (remainingGas : ℕ)
    (handler : messageHandler Message) : Except String (List UInt8) × ℕ :=
  let (msgBytesGas, overflow) := SafeMul GasCostPerWarpMessageBytes predicateBytes.length
  if overflow then (.error ErrOutOfGas, 0)
  else
    match DeductGas remainingGas msgBytesGas with
    | .error err => (.error err, 0)
    | .ok remainingGas =>
      match UnpackPredicate predicateBytes with
      | .error err => (.error (errInvalidPredicateBytes ++ ": " ++ err), remainingGas)
      | .ok unpackedPredicateBytes =>
        match ParseMessage unpackedPredicateBytes with
        | .error err => (.error (errInvalidWarpMsg ++ ": " ++ err), remainingGas)
        | .ok warpMessage =>
          match handler.handleMessage warpMessage with
          | .error err => (.error err, remainingGas)
          | .ok res => (.ok res, remainingGas)

/-- `handleWarpMessage`: the message at the index the input names is read only if the state has
a predicate there and the block's results do not mark it as failed. -/
def handleWarpMessage (accessibleState : AccessibleState Address) (input : List UInt8)
    (suppliedGas : ℕ) (handler : messageHandler Message) : Except String (List UInt8) × ℕ :=
  match DeductGas suppliedGas GetVerifiedWarpMessageBaseCost with
  | .error err => (.error err, 0)
  | .ok remainingGas =>
    match UnpackGetVerifiedWarpMessageInput input with
    | .error err => (.error (errInvalidIndexInput ++ ": " ++ err), remainingGas)
    | .ok warpIndexInput =>
      if MaxInt32 < warpIndexInput.toNat then
        (.error (errInvalidIndexInput ++ ": larger than MaxInt32"), remainingGas)
      else
        let warpIndex := warpIndexInput.toNat
        let (predicateBytes, slotExists) :=
          GetPredicateStorageSlots accessibleState.predicateStorageSlots ContractAddress warpIndex
        let predicateResults := accessibleState.BlockContext.GetPredicateResults
          accessibleState.thash ContractAddress
        let valid := slotExists && !bits.Contains (bits.BitsFromBytes predicateResults) warpIndex
        if !valid then (.ok handler.packFailed, remainingGas)
        else handleVerifiedWarpMessage ParseMessage predicateBytes remainingGas handler

/-- Past the gas and index checks, `handleWarpMessage` reads the predicate at the index unless
it is missing or its bit is set. -/
theorem handleWarpMessage_eq {accessibleState : AccessibleState Address} {input : List UInt8}
    {warpIndexInput : UInt32} (hinput : UnpackGetVerifiedWarpMessageInput input = .ok warpIndexInput)
    (hindex : warpIndexInput.toNat ≤ MaxInt32) {suppliedGas : ℕ}
    (hgas : GetVerifiedWarpMessageBaseCost ≤ suppliedGas) (handler : messageHandler Message) :
    handleWarpMessage bits ContractAddress UnpackGetVerifiedWarpMessageInput ParseMessage
        accessibleState input suppliedGas handler =
      match ((accessibleState.predicateStorageSlots.lookup ContractAddress).getD [])[
          warpIndexInput.toNat]? with
      | some predicateBytes =>
        if bits.Contains (bits.BitsFromBytes (accessibleState.BlockContext.GetPredicateResults
            accessibleState.thash ContractAddress)) warpIndexInput.toNat then
          (.ok handler.packFailed, suppliedGas - GetVerifiedWarpMessageBaseCost)
        else handleVerifiedWarpMessage ParseMessage predicateBytes
          (suppliedGas - GetVerifiedWarpMessageBaseCost) handler
      | none => (.ok handler.packFailed, suppliedGas - GetVerifiedWarpMessageBaseCost) := by
  have hdeduct : DeductGas suppliedGas GetVerifiedWarpMessageBaseCost =
      .ok (suppliedGas - GetVerifiedWarpMessageBaseCost) := by
    simp [DeductGas, Nat.not_lt.mpr hgas]
  unfold handleWarpMessage
  simp only [hdeduct, hinput, Nat.not_lt.mpr hindex, if_false, GetPredicateStorageSlots_eq]
  cases ((accessibleState.predicateStorageSlots.lookup ContractAddress).getD [])[
      warpIndexInput.toNat]? with
  | none => rfl
  | some predicateBytes =>
    cases bits.Contains (bits.BitsFromBytes (accessibleState.BlockContext.GetPredicateResults
      accessibleState.thash ContractAddress)) warpIndexInput.toNat <;> rfl

end Handler

/-! ## Verification and execution use the same index -/

section Index

variable {B Message : Type} (bits : BitSet B) (codec : ResultsCodec Address)
  (IntrinsicGas : Transaction Address → Except String ℕ) (ContractAddress : Address)
  (UnpackGetVerifiedWarpMessageInput : List UInt8 → Except String UInt32)
  (ParseMessage : List UInt8 → Except String Message)
  {rules : Rules Address S P} {warp : Predicater S P}

/-- After `Prepare`, the precompile's predicates are its access tuples, in order. -/
theorem predicateStorageSlots_Prepare (hwarp : rules.Predicaters.lookup ContractAddress = some warp)
    (hap2 : rules.IsApricotPhase2 = true) (s : AccessibleState Address)
    (list : List (AccessTuple Address)) :
    (((s.Prepare rules list).predicateStorageSlots.lookup ContractAddress).getD []) =
      predicatesOf list ContractAddress := by
  have hexists : rules.PredicaterExists ContractAddress = true := by
    simp [Rules.PredicaterExists, hwarp]
  simp only [AccessibleState.Prepare, hap2, if_true]
  rw [lookup_PreparePredicateStorageSlots]
  by_cases hnil : predicatesOf list ContractAddress = []
  · simp [hnil]
  · simp [hnil, hexists]

/-- In a verified block, the bit of the `i`-th predicate of the precompile in the transaction's
results is set exactly when that predicate failed `VerifyPredicate`. -/
theorem Contains_GetPredicateResults
    (hwarp : rules.Predicaters.lookup ContractAddress = some warp)
    (hdurango : rules.IsDurango = true) {predicateContext : PredicateContext S P}
    {b : Block Address}
    (hverify : verifyPredicates bits codec IntrinsicGas rules (some predicateContext) b = .ok ())
    {tx : Transaction Address} (htx : tx ∈ b.Transactions)
    (huniq : ∀ tx' ∈ b.Transactions, tx'.Hash = tx.Hash → tx' = tx) {i : ℕ}
    {predicate : List UInt8} (hi : (predicatesOf tx.AccessList ContractAddress)[i]? = some predicate) :
    bits.Contains (bits.BitsFromBytes
        ((NewEVMBlockContext codec b).GetPredicateResults tx.Hash ContractAddress)) i =
      !(warp.VerifyPredicate predicateContext predicate).isOk := by
  obtain ⟨Rtx, hRtx, hget⟩ :=
    GetPredicateResults_of_verifyPredicates bits codec IntrinsicGas hdurango hverify htx huniq
  have hexists : rules.PredicaterExists ContractAddress = true := by
    simp [Rules.PredicaterExists, hwarp]
  have hnil : predicatesOf tx.AccessList ContractAddress ≠ [] := by
    intro h
    simp [h] at hi
  rw [hget, lookup_CheckPredicates bits IntrinsicGas hRtx, lookup_PreparePredicateStorageSlots]
  simp only [hexists, ne_eq, hnil, not_false_eq_true, and_self, if_true, Option.map_some,
    Option.getD_some, bits.Contains_BitsFromBytes_Bytes, predicateFailures, hwarp]
  rw [bits.Contains_failedIndexes, hi]
  rfl

/-- Verification and execution read the same predicate: in a block that passes
`verifyPredicates`, with the state `Prepare`d for one of its transactions and the block context
read back from the header, `getVerifiedWarpMessage(i)` (past its gas and index checks) reads the
`i`-th access tuple addressed to the precompile when there is one and `VerifyPredicate` accepted
its storage-key bytes, and answers invalid otherwise. -/
theorem handleWarpMessage_index_matches_CheckPredicates
    (hwarp : rules.Predicaters.lookup ContractAddress = some warp)
    (hap2 : rules.IsApricotPhase2 = true) (hdurango : rules.IsDurango = true)
    (predicateContext : PredicateContext S P) (b : Block Address)
    (hverify : verifyPredicates bits codec IntrinsicGas rules (some predicateContext) b = .ok ())
    (tx : Transaction Address) (htx : tx ∈ b.Transactions)
    (huniq : ∀ tx' ∈ b.Transactions, tx'.Hash = tx.Hash → tx' = tx)
    (s : AccessibleState Address) (hctx : s.BlockContext = NewEVMBlockContext codec b)
    (input : List UInt8) (warpIndexInput : UInt32)
    (hinput : UnpackGetVerifiedWarpMessageInput input = .ok warpIndexInput)
    (hindex : warpIndexInput.toNat ≤ MaxInt32) (suppliedGas : ℕ)
    (hgas : GetVerifiedWarpMessageBaseCost ≤ suppliedGas) (handler : messageHandler Message) :
    handleWarpMessage bits ContractAddress UnpackGetVerifiedWarpMessageInput ParseMessage
        ((s.Prepare rules tx.AccessList).SetTxContext tx.Hash) input suppliedGas handler =
      match (predicatesOf tx.AccessList ContractAddress)[warpIndexInput.toNat]? with
      | some predicate =>
        if (warp.VerifyPredicate predicateContext predicate).isOk then
          handleVerifiedWarpMessage ParseMessage predicate
            (suppliedGas - GetVerifiedWarpMessageBaseCost) handler
        else (.ok handler.packFailed, suppliedGas - GetVerifiedWarpMessageBaseCost)
      | none => (.ok handler.packFailed, suppliedGas - GetVerifiedWarpMessageBaseCost) := by
  have hslots : (((s.Prepare rules tx.AccessList).SetTxContext tx.Hash).predicateStorageSlots.lookup
      ContractAddress).getD [] = predicatesOf tx.AccessList ContractAddress :=
    predicateStorageSlots_Prepare ContractAddress hwarp hap2 s tx.AccessList
  have hblock : ((s.Prepare rules tx.AccessList).SetTxContext tx.Hash).BlockContext =
      NewEVMBlockContext codec b := by
    simp only [AccessibleState.SetTxContext, AccessibleState.Prepare, hap2, if_true, hctx]
  rw [handleWarpMessage_eq bits ContractAddress UnpackGetVerifiedWarpMessageInput ParseMessage
    hinput hindex hgas handler, hslots]
  cases hi : (predicatesOf tx.AccessList ContractAddress)[warpIndexInput.toNat]? with
  | none => rfl
  | some predicate =>
    -- the bit the handler reads is the one verification set for this predicate
    have hresults : bits.Contains (bits.BitsFromBytes
        (((s.Prepare rules tx.AccessList).SetTxContext tx.Hash).BlockContext.GetPredicateResults
          ((s.Prepare rules tx.AccessList).SetTxContext tx.Hash).thash ContractAddress))
        warpIndexInput.toNat = !(warp.VerifyPredicate predicateContext predicate).isOk := by
      rw [hblock]
      exact Contains_GetPredicateResults bits codec IntrinsicGas ContractAddress hwarp hdurango
        hverify htx huniq hi
    simp only [hresults]
    cases (warp.VerifyPredicate predicateContext predicate).isOk <;> rfl

end Index

/-! ## A block with two warp messages -/

/-- A bit set of one byte per bit, the `i`-th byte for the `i`-th bit. -/
def byteBits : BitSet (List Bool) where
  NewBits := []
  Add b i := List.ofFn fun k : Fin (max b.length (i + 1)) => k.val == i || b.getD k false
  Contains b j := b.getD j false
  Bytes b := b.map fun x => if x then 1 else 0
  BitsFromBytes bytes := bytes.map (· == 1)
  Contains_NewBits _ := rfl
  Contains_Add b i j := by
    simp only [List.getD_eq_getElem?_getD, List.getElem?_ofFn]
    split_ifs with h
    · rfl
    · -- past both the old bits and the new one
      have hj : b.length ≤ j := by omega
      have hi : j ≠ i := by omega
      simp [List.getElem?_eq_none hj, hi]
  Contains_BitsFromBytes_Bytes b j := by
    have hbyte : ∀ x : Bool, ((if x then (1 : UInt8) else 0) == 1) = x := by decide
    simp [List.map_map, Function.comp_def, hbyte]

/-- The entries of results as plain pairs, which can be compared. -/
def Results.pairs (r : Results Address) : List (Hash × List (Address × List UInt8)) :=
  r.results.entries.map fun e => (e.1, e.2.entries.map fun e' => (e'.1, e'.2))

omit [DecidableEq Address] in
theorem Results.eq_of_pairs_eq {r r' : Results Address} (h : r.pairs = r'.pairs) : r = r' := by
  have hinner : Function.Injective fun t : AList (fun _ : Address => List UInt8) =>
      t.entries.map fun e' => (e'.1, e'.2) := by
    intro t t' ht
    apply AList.ext
    refine List.map_injective_iff.mpr ?_ ht
    rintro ⟨a, v⟩ ⟨a', v'⟩ he
    simp only [Prod.mk.injEq] at he
    obtain ⟨rfl, rfl⟩ := he
    rfl
  obtain ⟨⟨l, hl⟩⟩ := r
  obtain ⟨⟨l', hl'⟩⟩ := r'
  have hentries : l = l' := by
    refine List.map_injective_iff.mpr ?_ h
    rintro ⟨a, t⟩ ⟨a', t'⟩ he
    simp only [Prod.mk.injEq] at he
    obtain ⟨rfl, ht⟩ := he
    rw [hinner ht]
  subst hentries
  rfl

/-- The warp predicater of the sample: it accepts the message `[1]` only. -/
def sampleWarp : Predicater Unit Unit :=
  ⟨fun _ predicate => if predicate = [1] then .ok () else .error "failed verification"⟩

def sampleRules : Rules (Fin 2) Unit Unit :=
  ⟨true, true, AList.singleton 1 sampleWarp⟩

/-- Two warp messages, `[1]` and `[2]`, around a tuple for another address. -/
def sampleTx : Transaction (Fin 2) :=
  ⟨[7], 0, [⟨1, [[1]]⟩, ⟨0, [[5]]⟩, ⟨1, [[2]]⟩]⟩

/-- The results of `sampleTx`: the second message failed. -/
def sampleResults : Results (Fin 2) :=
  ⟨AList.singleton [7] (AList.singleton 1 [0, 1])⟩

/-- A codec for the one results value of the sample. -/
def sampleCodec : ResultsCodec (Fin 2) where
  Bytes r := if r.pairs = sampleResults.pairs then .ok [1] else .error "unexpected results"
  ParseResults _ := .ok sampleResults
  ParseResults_Bytes r b h := by
    by_cases hr : r.pairs = sampleResults.pairs
    · rw [Results.eq_of_pairs_eq hr]
    · simp [hr] at h

def sampleBlock : Block (Fin 2) :=
  ⟨[sampleTx], List.replicate 80 0 ++ [1]⟩

def sampleAccessibleState : AccessibleState (Fin 2) :=
  ⟨∅, [], NewEVMBlockContext sampleCodec sampleBlock⟩

def sampleHandler : messageHandler (List UInt8) :=
  ⟨[0], fun warpMessage => .ok warpMessage⟩

theorem handleWarpMessage_index_matches_CheckPredicates_sample :
    verifyPredicates byteBits sampleCodec (fun _ => .ok 0) sampleRules (some ⟨(), some ()⟩)
        sampleBlock = .ok () ∧
      handleWarpMessage byteBits 1 (fun _ => .ok 1) (fun bytes => .ok bytes)
          ((sampleAccessibleState.Prepare sampleRules sampleTx.AccessList).SetTxContext
            sampleTx.Hash) [] 1000 sampleHandler =
        match (predicatesOf sampleTx.AccessList 1)[(1 : UInt32).toNat]? with
        | some predicate =>
          if (sampleWarp.VerifyPredicate ⟨(), some ()⟩ predicate).isOk then
            handleVerifiedWarpMessage (fun bytes => .ok bytes) predicate
              (1000 - GetVerifiedWarpMessageBaseCost) sampleHandler
          else (.ok sampleHandler.packFailed, 1000 - GetVerifiedWarpMessageBaseCost)
        | none => (.ok sampleHandler.packFailed, 1000 - GetVerifiedWarpMessageBaseCost) := by
  have hverify : verifyPredicates byteBits sampleCodec (fun _ => .ok 0) sampleRules
      (some ⟨(), some ()⟩) sampleBlock = .ok () := rfl
  refine ⟨hverify, handleWarpMessage_index_matches_CheckPredicates byteBits sampleCodec
    (fun _ => .ok 0) 1 (fun _ => .ok 1) (fun bytes => .ok bytes) rfl rfl rfl ⟨(), some ()⟩
    sampleBlock hverify sampleTx (by simp [sampleBlock]) (by simp [sampleBlock])
    sampleAccessibleState rfl [] 1 rfl (by decide) 1000 (by decide) sampleHandler⟩

end Jeth.Predicate
