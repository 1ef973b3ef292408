import Jeth.Evm.MultiCoin
import Jeth.Evm.AtomicTx

/-!
# The debits of multicoin balances (core/evm.go, core/vm/evm.go, plugin/evm/export_tx.go)

Three paths call `SubBalanceMultiCoin`: `TransferMultiCoin` and `TransferMC` from `CallExpert`
and `NativeAssetCall`, and the loop of an export transaction's `EVMStateTransfer`. The state
stores the difference with `common.BigToHash`, which keeps the absolute value, so a debit of
more than the balance would turn into a credit. This module shows that no debit ever does.

Each path is modelled by the calls it makes on the state, in order, as operations of
`Jeth.State.Op`, each guard read from the state at the point where Go reads it. An
`Execution` is any run that the EVM can make: operations of its own that are not multicoin
debits, reverts among them, and the calls of the three paths, nested in any way.
`multicoin_debits_covered` shows that every `SubBalanceMultiCoin(a, c, x)` of an execution
finds a balance of at least `x`. A path whose balance check fails makes no call at all.

The check of `CallExpert` and `NativeAssetCall` (`CanTransferMC`) is made before the snapshot,
the creation of the callee's account and the native transfer, and the debit after them. It
still covers the debit: a positive balance means a live account, which none of these touches
(`Preserves`).
-/

namespace Jeth.State

open StateDB

variable {Address : Type} [DecidableEq Address] (db : Database Address)

/-- The errors of `vmerrs` that these calls return before running any code. -/
inductive VMError
  | ErrDepth
  | ErrInsufficientBalance
  | ErrOutOfGas
  | ErrExecutionReverted
  deriving DecidableEq

/-- `params.CallCreateDepth`. -/
def CallCreateDepth : ℕ := 1024

/-- `params.CallNewAccountGas`. -/
def CallNewAccountGas : ℕ := 25000

/-! ## Transfers -/

section Transfer

variable (IsGenesisAssetContract : Address → Bool)

/-- `CanTransfer`. -/
def CanTransfer (s : StateDB Address) (addr : Address) (amount : ℕ) : Bool :=
  decide ((amount : ℤ) ≤ s.GetBalance db addr)

/-- `CanTransferMC`: a genesis asset contract may mint. -/
def CanTransferMC (s : StateDB Address) (addr _to : Address) (coinID : Hash) (amount : ℕ) :
    Bool :=
  IsGenesisAssetContract addr || decide ((amount : ℤ) ≤ s.GetBalanceMultiCoin db addr coinID)

/-- `Transfer`: the calls it makes. -/
def Transfer (sender recipient : Address) (amount : ℕ) : List (Op Address) :=
  [.SubBalance sender amount, .AddBalance recipient amount]

/-- `TransferMultiCoin`, from the state `s` it reads: a genesis asset contract is debited only
when its balance covers the amount. -/
def TransferMultiCoin (s : StateDB Address) (sender recipient : Address) (coinID : Hash)
    (amount : ℕ) : List (Op Address) :=
  (if !IsGenesisAssetContract sender ||
      decide ((amount : ℤ) ≤ s.GetBalanceMultiCoin db sender coinID)
    then [.SubBalanceMultiCoin sender coinID amount] else []) ++
  [.AddBalanceMultiCoin recipient coinID amount]

/-- `TransferMC`, on the Socotra chain: a genesis asset contract is never debited. -/
def TransferMC (sender recipient : Address) (coinID : Hash) (amount : ℕ) : List (Op Address) :=
  (if !IsGenesisAssetContract sender then [.SubBalanceMultiCoin sender coinID amount] else []) ++
  [.AddBalanceMultiCoin recipient coinID amount]

/-! ## The calls -/

/-- The account of `addr`, created if it does not exist, and the call that creates it. -/
def createIfMissing (s : StateDB Address) (addr : Address) : StateDB Address × List (Op Address) :=
  if s.Exist db addr then (s, []) else (s.CreateAccount db addr, [.CreateAccount addr])

/-- `CallExpert` up to the callee's code: the calls it makes on the state, and the error it
returns before the code runs, if any. The snapshot it takes is the one it reverts to when the
code fails. -/
def CallExpert (s : StateDB Address) (depth : ℕ) (caller addr : Address) (value : ℕ)
    (coinID : Hash) (value2 : ℕ) : List (Op Address) × Option VMError :=
  if depth > CallCreateDepth then ([], some .ErrDepth)
  else if value ≠ 0 ∧ CanTransfer db s caller value = false then
    ([], some .ErrInsufficientBalance)
  else if value2 ≠ 0 ∧
      CanTransferMC db IsGenesisAssetContract s caller addr coinID value2 = false then
    ([], some .ErrInsufficientBalance)
  else
    let created := createIfMissing db s.Snapshot.2 addr
    let transferred := (created.1.SubBalance db caller value).AddBalance db addr value
    (.Snapshot :: created.2 ++ Transfer caller addr value ++
      TransferMultiCoin db IsGenesisAssetContract transferred caller addr coinID value2, none)

/-- `UnpackNativeAssetCallInput`, with `BytesToAddress` for `common.BytesToAddress`: the
callee (`to`), the asset, the amount and the call data. -/
def UnpackNativeAssetCallInput (BytesToAddress : List UInt8 → Address) (input : List UInt8) :
    Except String (Address × Hash × ℕ × List UInt8) :=
  if input.length < 84 then
    .error ("native asset call input had unexpected length " ++ toString input.length)
  else
    .ok (BytesToAddress (input.take 20), (input.drop 20).take 32,
      (Hash.Big ((input.drop 52).take 32)).toNat, input.drop 84)

/-- `NativeAssetCall` up to the call of the callee: the calls it makes on the state, and the
error it returns before the call, if any. `isSocotra` is whether the chain is Socotra, where
`TransferMC` stands for `TransferMultiCoin`. -/
def NativeAssetCall (isSocotra : Bool) (BytesToAddress : List UInt8 → Address)
    (s : StateDB Address) (caller : Address) (input : List UInt8) (suppliedGas gasCost : ℕ)
    (readOnly : Bool) : List (Op Address) × Option VMError :=
  if suppliedGas < gasCost then ([], some .ErrOutOfGas)
  else
    let remainingGas := suppliedGas - gasCost
    if readOnly then ([], some .ErrExecutionReverted)
    else
      match UnpackNativeAssetCallInput BytesToAddress input with
      | .error _ => ([], some .ErrExecutionReverted)
      | .ok (toAddr, assetID, assetAmount, _) =>
        if !IsGenesisAssetContract caller && !IsGenesisAssetContract toAddr then
          ([], some .ErrExecutionReverted)
        else if assetAmount ≠ 0 ∧
            CanTransferMC db IsGenesisAssetContract s caller toAddr assetID assetAmount = false then
          ([], some .ErrInsufficientBalance)
        -- the snapshot is taken, and the call fails, when the gas cannot create the callee
        else if s.Snapshot.2.Exist db toAddr = false ∧ remainingGas < CallNewAccountGas then
          ([.Snapshot], some .ErrOutOfGas)
        else
          let created := createIfMissing db s.Snapshot.2 toAddr
          (.Snapshot :: created.2 ++
            (if isSocotra then TransferMC IsGenesisAssetContract caller toAddr assetID assetAmount
            else TransferMultiCoin db IsGenesisAssetContract created.1 caller toAddr assetID
              assetAmount), none)

end Transfer

/-! ## Export transactions -/

section Export

variable {ID : Type} [DecidableEq ID] (chainAssetID : ID) (assetHash : ID → Hash)

/-- The debit of one input of an export, from the state it reads, and the state after it; none
when the balance does not cover the input. -/
def exportDebit (s : StateDB Address) (input : EVMInput ID Address) :
    Option (Op Address × StateDB Address) :=
  if input.assetID = chainAssetID then
    if s.GetBalance db input.address < (input.amount * x2cRate : ℕ) then none
    else some (.SubBalance input.address (input.amount * x2cRate : ℕ),
      s.SubBalance db input.address (input.amount * x2cRate : ℕ))
  else if s.GetBalanceMultiCoin db input.address (assetHash input.assetID) < input.amount then none
  else some (.SubBalanceMultiCoin input.address (assetHash input.assetID) input.amount,
    s.SubBalanceMultiCoin db input.address (assetHash input.assetID) input.amount)

/-- The loop of `EVMStateTransfer` over the inputs: the calls it makes on the state, and the
error it returns, if any. It ends by setting the nonces it recorded, in the order of `addrs`
(Go iterates over a map). -/
def exportLoop : List (EVMInput ID Address) → StateDB Address →
    AList (fun _ : Address => ℕ) → List (Op Address) × Option String
  | [], _, addrs => (addrs.entries.map fun e => .SetNonce e.1 (e.2 + 1), none)
  | input :: ins, s, addrs =>
    match exportDebit db chainAssetID assetHash s input with
    | none => ([], some errInsufficientFunds)
    | some (debit, s') =>
      if s'.GetNonce db input.address ≠ input.nonce then ([debit], some errInvalidNonce)
      else
        let rest := exportLoop ins s' (addrs.insert input.address input.nonce)
        (debit :: rest.1, rest.2)

/-- `UnsignedExportTx.EVMStateTransfer`, as the calls it makes on the state. -/
def EVMStateTransferCalls (ins : List (EVMInput ID Address)) (s : StateDB Address) :
    List (Op Address) × Option String :=
  exportLoop db chainAssetID assetHash ins s ∅

end Export

/-! ## Runs whose multicoin debits are covered -/

theorem Op.run_append (Keccak256Hash : List UInt8 → Hash) (ops₁ ops₂ : List (Op Address))
    (s : StateDB Address) :
    Op.run db Keccak256Hash (ops₁ ++ ops₂) s =
      (Op.run db Keccak256Hash ops₁ s).bind (Op.run db Keccak256Hash ops₂) := by
  induction ops₁ generalizing s with
  | nil => rfl
  | cons op ops ih =>
    simp only [List.cons_append, Op.run]
    cases op.step db Keccak256Hash s with
    | none => rfl
    | some s' => exact ih s'

section Covered

variable (Keccak256Hash : List UInt8 → Hash)

/-- Every `SubBalanceMultiCoin` of the run finds a balance of at least the amount it
subtracts. -/
def SubsCovered : List (Op Address) → StateDB Address → Prop
  | [], _ => True
  | op :: ops, s =>
    (∀ a c x, op = .SubBalanceMultiCoin a c x → x ≤ s.GetBalanceMultiCoin db a c) ∧
      ∀ s', op.step db Keccak256Hash s = some s' → SubsCovered ops s'

theorem subsCovered_append {ops₁ ops₂ : List (Op Address)} {s : StateDB Address} :
    SubsCovered db Keccak256Hash (ops₁ ++ ops₂) s ↔
      SubsCovered db Keccak256Hash ops₁ s ∧
        ∀ s', Op.run db Keccak256Hash ops₁ s = some s' → SubsCovered db Keccak256Hash ops₂ s' := by
  induction ops₁ generalizing s with
  | nil => simp [SubsCovered, Op.run]
  | cons op ops ih =>
    simp only [List.cons_append, SubsCovered, Op.run]
    constructor
    · rintro ⟨hop, hrest⟩
      refine ⟨⟨hop, fun s' hs' => (ih.mp (hrest s' hs')).1⟩, fun s'' hrun => ?_⟩
      obtain ⟨s', hs', hrun'⟩ := Option.bind_eq_some_iff.mp hrun
      exact (ih.mp (hrest s' hs')).2 s'' hrun'
    · rintro ⟨⟨hop, hrest⟩, hafter⟩
      refine ⟨hop, fun s' hs' => ih.mpr ⟨hrest s' hs', fun s'' hrun => hafter s'' ?_⟩⟩
      rw [hs']
      exact hrun

/-- A run without multicoin debits is covered. -/
theorem subsCovered_of_forall_ne {ops : List (Op Address)}
    (h : ∀ op ∈ ops, ∀ a c x, op ≠ .SubBalanceMultiCoin a c x) (s : StateDB Address) :
    SubsCovered db Keccak256Hash ops s := by
  induction ops generalizing s with
  | nil => trivial
  | cons op ops ih =>
    exact ⟨fun a c x hop => absurd hop (h op List.mem_cons_self a c x),
      fun s' _ => ih (fun op' hop' => h op' (List.mem_cons_of_mem _ hop')) s'⟩

end Covered

/-! ## What the calls before a debit keep -/

omit [DecidableEq Address] in
theorem GetBalanceMultiCoin_nonneg (s : StateDB Address) (a : Address) (c : Hash) :
    0 ≤ s.GetBalanceMultiCoin db a c := by
  rw [GetBalanceMultiCoin_eq_storageAt]
  exact Int.natCast_nonneg _

omit [DecidableEq Address] in
/-- An address without a live object has no multicoin balance. -/
theorem live_of_GetBalanceMultiCoin_pos {s : StateDB Address} {a : Address} {c : Hash}
    (h : 0 < s.GetBalanceMultiCoin db a c) : (s.getStateObject db a).isSome := by
  cases hs : s.getStateObject db a with
  | none => simp [GetBalanceMultiCoin, hs] at h
  | some o => rfl

/-- `t` keeps the account of `a`, if it is live in `s`: live, and with the same slots. -/
def Preserves (a : Address) (s t : StateDB Address) : Prop :=
  (s.getStateObject db a).isSome →
    (t.getStateObject db a).isSome ∧ ∀ k, t.storageAt db a k = s.storageAt db a k

omit [DecidableEq Address] in
theorem Preserves.trans {a : Address} {s t u : StateDB Address} (h₁ : Preserves db a s t)
    (h₂ : Preserves db a t u) : Preserves db a s u := by
  intro hs
  obtain ⟨ht, hkt⟩ := h₁ hs
  obtain ⟨hu, hku⟩ := h₂ ht
  exact ⟨hu, fun k => (hku k).trans (hkt k)⟩

omit [DecidableEq Address] in
theorem Preserves.GetBalanceMultiCoin_eq {a : Address} {s t : StateDB Address}
    (h : Preserves db a s t) (hlive : (s.getStateObject db a).isSome) (c : Hash) :
    t.GetBalanceMultiCoin db a c = s.GetBalanceMultiCoin db a c := by
  rw [GetBalanceMultiCoin_eq_storageAt, GetBalanceMultiCoin_eq_storageAt, (h hlive).2]

omit [DecidableEq Address] in
theorem preserves_Snapshot (a : Address) (s : StateDB Address) : Preserves db a s s.Snapshot.2 :=
  fun h => ⟨h, fun _ => rfl⟩

/-- Writing back an object of another address keeps `a`. -/
theorem preserves_setStateObject_of_ne {a : Address} (s : StateDB Address) {x : stateObject Address}
    (ha : a ≠ x.address) : Preserves db a s (s.setStateObject x) := by
  intro h
  have hget : (s.setStateObject x).getStateObject db a = s.getStateObject db a :=
    getStateObject_congr db (by simp [ha])
  refine ⟨hget ▸ h, fun k => ?_⟩
  rw [storageAt_setStateObject, if_neg ha]

/-- Creating the object of another address keeps `a`. -/
theorem preserves_createObject_of_ne {a addr : Address} (s : StateDB Address) (ha : a ≠ addr) :
    Preserves db a s (s.createObject db addr).1 := by
  intro h
  have hget : (s.createObject db addr).1.getStateObject db a = s.getStateObject db a :=
    getStateObject_congr db (by simp [createObject_stateObjects, ha])
  exact ⟨hget ▸ h, storageAt_createObject_of_ne db s ha⟩

/-- Creating the account of another address keeps `a`. -/
theorem preserves_CreateAccount_of_ne {a addr : Address} (s : StateDB Address) (ha : a ≠ addr) :
    Preserves db a s (s.CreateAccount db addr) := by
  have hcreate := preserves_createObject_of_ne db s ha
  simp only [CreateAccount]
  split
  · -- the replaced account's balance goes to the fresh object, of `addr`
    refine Preserves.trans db hcreate (preserves_setStateObject_of_ne db _ ?_)
    rw [createObject_newobj]
    exact ha
  · exact hcreate

/-- The account of `addr`, created when missing, keeps a live account `a`. -/
theorem preserves_createIfMissing {a : Address} (addr : Address) (s : StateDB Address)
    (hlive : (s.getStateObject db a).isSome) : Preserves db a s (createIfMissing db s addr).1 := by
  unfold createIfMissing
  split
  · exact fun h => ⟨h, fun _ => rfl⟩
  · -- a missing account is not the live `a`
    rename_i hex
    refine preserves_CreateAccount_of_ne db s fun ha => ?_
    subst ha
    exact hex hlive

/-- A method of `stateObject` that keeps the object's address, its deletion flag and every
slot. -/
def KeepsSlots
    (method : (Address → Bool) → stateObject Address →
      List (journalEntry Address) × stateObject Address) : Prop :=
  ∀ destructs o, (method destructs o).2.address = o.address ∧
    (method destructs o).2.deleted = o.deleted ∧
    ∀ k, (method destructs o).2.GetState db destructs k = o.GetState db destructs k

omit [DecidableEq Address] in
theorem KeepsSlots_AddBalance (amount : ℤ) :
    KeepsSlots db (fun _ o => o.AddBalance amount) := by
  intro destructs o
  dsimp only
  unfold stateObject.AddBalance
  split_ifs <;> exact ⟨rfl, rfl, fun _ => rfl⟩

omit [DecidableEq Address] in
theorem KeepsSlots_SubBalance (amount : ℤ) :
    KeepsSlots db (fun _ o => o.SubBalance amount) := by
  intro destructs o
  dsimp only
  unfold stateObject.SubBalance
  split_ifs <;> exact ⟨rfl, rfl, fun _ => rfl⟩

theorem GetOrNewStateObject_address (s : StateDB Address) (addr : Address) :
    (s.GetOrNewStateObject db addr).2.address = addr := by
  unfold GetOrNewStateObject
  split
  · rename_i o ho
    exact getDeletedStateObject_address db ((getStateObject_eq_some db).mp ho).1
  · simp [createObject_newobj, newObject]

/-- A setter that keeps every slot keeps every live account: its own, whose object it writes
back with the same slots, and every other. -/
theorem preserves_withStateObject {method : (Address → Bool) → stateObject Address →
      List (journalEntry Address) × stateObject Address}
    (hm : KeepsSlots db method) (a addr : Address) (s : StateDB Address) :
    Preserves db a s (s.withStateObject db addr method) := by
  by_cases ha : a = addr
  · subst ha
    intro hlive
    obtain ⟨o, ho⟩ := Option.isSome_iff_exists.mp hlive
    obtain ⟨hod, hdel⟩ := (getStateObject_eq_some db).mp ho
    have hoa : o.address = a := getDeletedStateObject_address db hod
    have hgot : s.GetOrNewStateObject db a = (s, o) := by simp [GetOrNewStateObject, ho]
    obtain ⟨hxa, hxd, hxk⟩ := hm s.stateObjectsDestruct o
    rw [withStateObject, hgot]
    refine ⟨?_, fun k => ?_⟩
    · rw [applyObjectChange, ← hoa, ← hxa]
      exact Option.isSome_iff_exists.mpr ⟨_, getStateObject_setStateObject_self _ (hxd.trans hdel)⟩
    · rw [storageAt_applyObjectChange, storageAt_setStateObject, if_pos (hxa.trans hoa).symm,
        hxd, hdel, if_neg Bool.false_ne_true, hxk k]
      simp [storageAt, ho]
  · -- the object written back is of `addr`, in a state that kept `a`
    have hgot : Preserves db a s (s.GetOrNewStateObject db addr).1 := by
      unfold GetOrNewStateObject
      split
      · exact fun h => ⟨h, fun _ => rfl⟩
      · exact preserves_createObject_of_ne db s ha
    refine Preserves.trans db hgot ?_
    rw [withStateObject, applyObjectChange]
    refine fun h => ⟨?_, fun k => ?_⟩
    · exact ((preserves_setStateObject_of_ne db _ (by
        rw [(hm _ _).1, GetOrNewStateObject_address]; exact ha)) h).1
    · exact ((preserves_setStateObject_of_ne db _ (by
        rw [(hm _ _).1, GetOrNewStateObject_address]; exact ha)) h).2 k

/-! ## Each path covers its debits -/

section Paths

variable (Keccak256Hash : List UInt8 → Hash) (IsGenesisAssetContract : Address → Bool)

/-- `TransferMultiCoin` debits a contract that is not a genesis asset contract without a check:
its debit is covered when the balance it finds covers the amount. -/
theorem TransferMultiCoin_subsCovered {t : StateDB Address} {sender recipient : Address}
    {coinID : Hash} {amount : ℕ}
    (h : IsGenesisAssetContract sender = false →
      (amount : ℤ) ≤ t.GetBalanceMultiCoin db sender coinID) :
    SubsCovered db Keccak256Hash
      (TransferMultiCoin db IsGenesisAssetContract t sender recipient coinID amount) t := by
  have hadd : SubsCovered db Keccak256Hash [.AddBalanceMultiCoin recipient coinID amount] t :=
    subsCovered_of_forall_ne db Keccak256Hash (by simp) t
  unfold TransferMultiCoin
  split_ifs with hguard
  · -- the guard of the debit, or the caller's own check, covers it
    refine ⟨fun a c x hop => ?_, fun s' _ => subsCovered_of_forall_ne db Keccak256Hash (by simp) s'⟩
    simp only [Op.SubBalanceMultiCoin.injEq] at hop
    obtain ⟨rfl, rfl, rfl⟩ := hop
    cases hg : IsGenesisAssetContract sender
    · exact h hg
    · simpa [hg] using hguard
  · exact hadd

/-- `TransferMC` debits every contract that is not a genesis asset contract. -/
theorem TransferMC_subsCovered {t : StateDB Address} {sender recipient : Address}
    {coinID : Hash} {amount : ℕ}
    (h : IsGenesisAssetContract sender = false →
      (amount : ℤ) ≤ t.GetBalanceMultiCoin db sender coinID) :
    SubsCovered db Keccak256Hash (TransferMC IsGenesisAssetContract sender recipient coinID amount) t := by
  unfold TransferMC
  split_ifs with hguard
  · refine ⟨fun a c x hop => ?_, fun s' _ => subsCovered_of_forall_ne db Keccak256Hash (by simp) s'⟩
    simp only [Op.SubBalanceMultiCoin.injEq] at hop
    obtain ⟨rfl, rfl, rfl⟩ := hop
    exact h (by simpa using hguard)
  · exact subsCovered_of_forall_ne db Keccak256Hash (by simp) t

omit [DecidableEq Address] in
/-- What `CanTransferMC` passing, or not being asked, says of a caller that may not mint: the
amount is zero, or the caller is live with a balance that covers it. -/
theorem covered_of_CanTransferMC {s : StateDB Address} {caller addr : Address} {coinID : Hash}
    {amount : ℕ}
    (hcheck : ¬(amount ≠ 0 ∧ CanTransferMC db IsGenesisAssetContract s caller addr coinID amount =
      false))
    (hg : IsGenesisAssetContract caller = false) :
    amount = 0 ∨ ((s.getStateObject db caller).isSome ∧
      (amount : ℤ) ≤ s.GetBalanceMultiCoin db caller coinID) := by
  by_cases h0 : amount = 0
  · exact .inl h0
  · have hcan : CanTransferMC db IsGenesisAssetContract s caller addr coinID amount = true := by
      simpa [h0] using hcheck
    have hle : (amount : ℤ) ≤ s.GetBalanceMultiCoin db caller coinID := by
      simpa [CanTransferMC, hg] using hcan
    have hpos : 0 < s.GetBalanceMultiCoin db caller coinID := by omega
    exact .inr ⟨live_of_GetBalanceMultiCoin_pos db hpos, hle⟩

omit [DecidableEq Address] in
/-- A debit checked in `s` is covered in every later state that kept the caller. -/
theorem covered_of_preserves {s t : StateDB Address} {caller : Address} {coinID : Hash}
    {amount : ℕ}
    (hcov : amount = 0 ∨ ((s.getStateObject db caller).isSome ∧
      (amount : ℤ) ≤ s.GetBalanceMultiCoin db caller coinID))
    (hkeep : Preserves db caller s t) : (amount : ℤ) ≤ t.GetBalanceMultiCoin db caller coinID := by
  rcases hcov with h0 | ⟨hlive, hle⟩
  · rw [h0]
    exact GetBalanceMultiCoin_nonneg db t caller coinID
  · rw [hkeep.GetBalanceMultiCoin_eq db hlive]
    exact hle

theorem run_createIfMissing (s : StateDB Address) (addr : Address) :
    Op.run db Keccak256Hash (createIfMissing db s addr).2 s = some (createIfMissing db s addr).1 := by
  unfold createIfMissing
  split <;> rfl

/-- The calls of `CallExpert` before its debit lead to the state its debit reads. -/
theorem run_CallExpert_transfers (s : StateDB Address) (caller addr : Address) (value : ℕ) :
    Op.run db Keccak256Hash (.Snapshot :: (createIfMissing db s.Snapshot.2 addr).2 ++
        Transfer caller addr value) s =
      some (((createIfMissing db s.Snapshot.2 addr).1.SubBalance db caller value).AddBalance db
        addr value) := by
  rw [Op.run_append]
  simp only [Op.run, Op.step, Option.bind_some, run_createIfMissing]
  rfl

/-- Every debit of `CallExpert` is covered. -/
theorem CallExpert_subsCovered (s : StateDB Address) (depth : ℕ) (caller addr : Address)
    (value : ℕ) (coinID : Hash) (value2 : ℕ) :
    SubsCovered db Keccak256Hash
      (CallExpert db IsGenesisAssetContract s depth caller addr value coinID value2).1 s := by
  unfold CallExpert
  split_ifs with hdepth hvalue hvalue2
  · trivial
  · trivial
  · trivial
  · refine subsCovered_append db Keccak256Hash |>.mpr ⟨subsCovered_of_forall_ne db Keccak256Hash
      (by unfold createIfMissing Transfer; split <;> simp) s, fun s' hrun => ?_⟩
    rw [run_CallExpert_transfers] at hrun
    cases hrun
    refine TransferMultiCoin_subsCovered db Keccak256Hash IsGenesisAssetContract fun hg => ?_
    -- the check, made before the snapshot, the creation and the native transfer, still holds
    refine covered_of_preserves db (covered_of_CanTransferMC db IsGenesisAssetContract hvalue2 hg)
      fun hlive => ?_
    have hsnap := preserves_Snapshot db caller s
    have hcreated := preserves_createIfMissing db addr s.Snapshot.2 (hsnap hlive).1
    exact (Preserves.trans db (Preserves.trans db (Preserves.trans db hsnap hcreated)
      (preserves_withStateObject db (KeepsSlots_SubBalance db _) caller caller _))
      (preserves_withStateObject db (KeepsSlots_AddBalance db _) caller addr _)) hlive

/-- Every debit of `NativeAssetCall` is covered, on every chain. -/
theorem NativeAssetCall_subsCovered (isSocotra : Bool) (BytesToAddress : List UInt8 → Address)
    (s : StateDB Address) (caller : Address) (input : List UInt8) (suppliedGas gasCost : ℕ)
    (readOnly : Bool) :
    SubsCovered db Keccak256Hash (NativeAssetCall db IsGenesisAssetContract isSocotra
      BytesToAddress s caller input suppliedGas gasCost readOnly).1 s := by
  unfold NativeAssetCall
  split
  · trivial
  dsimp only
  split
  · trivial
  split
  · trivial
  rename_i toAddr assetID assetAmount callData _
  split
  · trivial
  split
  · trivial
  rename_i hcheck
  split
  · exact subsCovered_of_forall_ne db Keccak256Hash (by simp) s
  refine subsCovered_append db Keccak256Hash |>.mpr ⟨subsCovered_of_forall_ne db Keccak256Hash
    (by unfold createIfMissing; split <;> simp) s, fun s' hrun => ?_⟩
  simp only [Op.run, Op.step, Option.bind_some, run_createIfMissing] at hrun
  cases hrun
  -- the check, made before the snapshot and the creation, still holds
  have hcov : IsGenesisAssetContract caller = false → (assetAmount : ℤ) ≤
      (createIfMissing db s.Snapshot.2 toAddr).1.GetBalanceMultiCoin db caller assetID :=
    fun hg => covered_of_preserves db
      (covered_of_CanTransferMC db IsGenesisAssetContract hcheck hg) fun hlive =>
        Preserves.trans db (preserves_Snapshot db caller s)
          (preserves_createIfMissing db toAddr s.Snapshot.2
            ((preserves_Snapshot db caller s) hlive).1) hlive
  split
  · exact TransferMC_subsCovered db Keccak256Hash IsGenesisAssetContract hcov
  · exact TransferMultiCoin_subsCovered db Keccak256Hash IsGenesisAssetContract hcov

/-- `CallExpert` with a caller that may not mint and a balance below `value2` makes no call on
the state and returns an error. -/
theorem CallExpert_of_insufficient {t : StateDB Address} {depth : ℕ} {caller addr : Address}
    {value : ℕ} {coinID : Hash} {value2 : ℕ} (hg : IsGenesisAssetContract caller = false)
    (hv : value2 ≠ 0) (hlt : t.GetBalanceMultiCoin db caller coinID < value2) :
    (CallExpert db IsGenesisAssetContract t depth caller addr value coinID value2).1 = [] ∧
      (CallExpert db IsGenesisAssetContract t depth caller addr value coinID value2).2.isSome := by
  have hfail : CanTransferMC db IsGenesisAssetContract t caller addr coinID value2 = false := by
    simp [CanTransferMC, hg, hlt]
  unfold CallExpert
  split_ifs <;> simp_all

/-- `NativeAssetCall` with a caller that may not mint and a balance below the amount makes no
call on the state and returns an error. -/
theorem NativeAssetCall_of_insufficient (isSocotra : Bool) (BytesToAddress : List UInt8 → Address)
    {t : StateDB Address} {caller : Address} {input : List UInt8} {suppliedGas gasCost : ℕ}
    {readOnly : Bool} {toAddr : Address} {assetID : Hash} {assetAmount : ℕ}
    {callData : List UInt8}
    (hunpack : UnpackNativeAssetCallInput BytesToAddress input =
      .ok (toAddr, assetID, assetAmount, callData))
    (hg : IsGenesisAssetContract caller = false) (hv : assetAmount ≠ 0)
    (hlt : t.GetBalanceMultiCoin db caller assetID < assetAmount) :
    (NativeAssetCall db IsGenesisAssetContract isSocotra BytesToAddress t caller input suppliedGas
        gasCost readOnly).1 = [] ∧
      (NativeAssetCall db IsGenesisAssetContract isSocotra BytesToAddress t caller input
        suppliedGas gasCost readOnly).2.isSome := by
  have hfail : CanTransferMC db IsGenesisAssetContract t caller toAddr assetID assetAmount =
      false := by
    simp [CanTransferMC, hg, hlt]
  unfold NativeAssetCall
  split
  · simp
  dsimp only
  split
  · simp
  rw [hunpack]
  dsimp only
  split
  · simp
  rw [if_pos ⟨hv, hfail⟩]
  simp

end Paths

section ExportPath

variable (Keccak256Hash : List UInt8 → Hash) {ID : Type} [DecidableEq ID] (chainAssetID : ID)
  (assetHash : ID → Hash)

/-- The debit of an export input is checked against the balance it finds, and leads to the state
the loop goes on from. -/
theorem exportDebit_spec {s s' : StateDB Address} {input : EVMInput ID Address}
    {debit : Op Address} (h : exportDebit db chainAssetID assetHash s input = some (debit, s')) :
    (∀ a c x, debit = .SubBalanceMultiCoin a c x → x ≤ s.GetBalanceMultiCoin db a c) ∧
      debit.step db Keccak256Hash s = some s' := by
  unfold exportDebit at h
  split_ifs at h with hchain hnative hcoin
  · simp only [Option.some.injEq, Prod.mk.injEq] at h
    obtain ⟨rfl, rfl⟩ := h
    exact ⟨fun _ _ _ hop => (by cases hop), rfl⟩
  · simp only [Option.some.injEq, Prod.mk.injEq] at h
    obtain ⟨rfl, rfl⟩ := h
    refine ⟨fun a c x hop => ?_, rfl⟩
    simp only [Op.SubBalanceMultiCoin.injEq] at hop
    obtain ⟨rfl, rfl, rfl⟩ := hop
    exact not_lt.mp hcoin

/-- Every debit of the loop of `EVMStateTransfer` is covered, over every list of inputs. -/
theorem exportLoop_subsCovered (ins : List (EVMInput ID Address)) (s : StateDB Address)
    (addrs : AList (fun _ : Address => ℕ)) :
    SubsCovered db Keccak256Hash (exportLoop db chainAssetID assetHash ins s addrs).1 s := by
  induction ins generalizing s addrs with
  | nil =>
    -- the nonces set at the end
    refine subsCovered_of_forall_ne db Keccak256Hash (fun op hop a c x => ?_) s
    simp only [exportLoop, List.mem_map] at hop
    obtain ⟨e, -, rfl⟩ := hop
    simp
  | cons input ins ih =>
    unfold exportLoop
    cases hdebit : exportDebit db chainAssetID assetHash s input with
    | none => trivial
    | some p =>
      obtain ⟨debit, s'⟩ := p
      obtain ⟨hcov, hstep⟩ := exportDebit_spec db Keccak256Hash chainAssetID assetHash hdebit
      dsimp only
      -- the debit is covered, and the loop goes on from the state after it
      split_ifs
      · exact ⟨hcov, fun _ _ => trivial⟩
      · refine ⟨hcov, fun s'' hs'' => ?_⟩
        rw [hstep, Option.some.injEq] at hs''
        subst hs''
        exact ih s' _

end ExportPath

/-! ## Executions -/

section Execution

variable (Keccak256Hash : List UInt8 → Hash) (IsGenesisAssetContract : Address → Bool)
  (isSocotra : Bool) (BytesToAddress : List UInt8 → Address)
  {ID : Type} [DecidableEq ID] (chainAssetID : ID) (assetHash : ID → Hash)

/-- The runs of the state's operations that the EVM and the atomic transactions make: the
code's own operations, which never debit a multicoin balance (snapshots and reverts among
them), and the calls of `CallExpert`, of `NativeAssetCall` and of an export's
`EVMStateTransfer`, each from the state it finds. A callee's code, with its own calls, follows
the call that runs it. -/
inductive Execution : StateDB Address → List (Op Address) → Prop
  | nil (s : StateDB Address) : Execution s []
  | op {s s' : StateDB Address} {op : Op Address} {ops : List (Op Address)}
      (hop : ∀ a c x, op ≠ .SubBalanceMultiCoin a c x)
      (hstep : op.step db Keccak256Hash s = some s') (rest : Execution s' ops) :
      Execution s (op :: ops)
  | callExpert {s s' : StateDB Address} {ops : List (Op Address)} (depth : ℕ)
      (caller addr : Address) (value : ℕ) (coinID : Hash) (value2 : ℕ)
      (hrun : Op.run db Keccak256Hash
        (CallExpert db IsGenesisAssetContract s depth caller addr value coinID value2).1 s =
          some s')
      (rest : Execution s' ops) :
      Execution s ((CallExpert db IsGenesisAssetContract s depth caller addr value coinID
        value2).1 ++ ops)
  | nativeAssetCall {s s' : StateDB Address} {ops : List (Op Address)} (caller : Address)
      (input : List UInt8) (suppliedGas gasCost : ℕ) (readOnly : Bool)
      (hrun : Op.run db Keccak256Hash (NativeAssetCall db IsGenesisAssetContract isSocotra
        BytesToAddress s caller input suppliedGas gasCost readOnly).1 s = some s')
      (rest : Execution s' ops) :
      Execution s ((NativeAssetCall db IsGenesisAssetContract isSocotra BytesToAddress s caller
        input suppliedGas gasCost readOnly).1 ++ ops)
  | exportTx {s s' : StateDB Address} {ops : List (Op Address)} (ins : List (EVMInput ID Address))
      (hrun : Op.run db Keccak256Hash (EVMStateTransferCalls db chainAssetID assetHash ins s).1 s =
        some s')
      (rest : Execution s' ops) :
      Execution s ((EVMStateTransferCalls db chainAssetID assetHash ins s).1 ++ ops)

/-- A segment that is covered and leads to `s'`, followed by a covered run from `s'`, is
covered. -/
theorem subsCovered_segment {s s' : StateDB Address} {seg ops : List (Op Address)}
    (hseg : SubsCovered db Keccak256Hash seg s) (hrun : Op.run db Keccak256Hash seg s = some s')
    (hops : SubsCovered db Keccak256Hash ops s') : SubsCovered db Keccak256Hash (seg ++ ops) s :=
  (subsCovered_append db Keccak256Hash).mpr ⟨hseg, fun s'' hs'' => by
    rw [hrun, Option.some.injEq] at hs''
    exact hs'' ▸ hops⟩

/-- No multicoin balance is ever debited below zero: over every execution, each
`SubBalanceMultiCoin(a, c, x)` finds `GetBalanceMultiCoin(a, c) ≥ x` at that moment. And a
call whose check fails makes no call on the state: `CallExpert` and `NativeAssetCall`, when the
caller may not mint and its balance does not cover the amount, return an error before the
snapshot. -/
theorem multicoin_debits_covered {s : StateDB Address} {ops : List (Op Address)}
    (h : Execution db Keccak256Hash IsGenesisAssetContract isSocotra BytesToAddress chainAssetID
      assetHash s ops) :
    SubsCovered db Keccak256Hash ops s ∧
      (∀ (t : StateDB Address) depth caller addr value coinID (value2 : ℕ),
        IsGenesisAssetContract caller = false → value2 ≠ 0 →
        t.GetBalanceMultiCoin db caller coinID < value2 →
        (CallExpert db IsGenesisAssetContract t depth caller addr value coinID value2).1 = [] ∧
        (CallExpert db IsGenesisAssetContract t depth caller addr value coinID value2).2.isSome) ∧
      (∀ (t : StateDB Address) caller input suppliedGas gasCost readOnly toAddr assetID
        (assetAmount : ℕ) callData,
        UnpackNativeAssetCallInput BytesToAddress input = .ok (toAddr, assetID, assetAmount, callData) →
        IsGenesisAssetContract caller = false → assetAmount ≠ 0 →
        t.GetBalanceMultiCoin db caller assetID < assetAmount →
        (NativeAssetCall db IsGenesisAssetContract isSocotra BytesToAddress t caller input
          suppliedGas gasCost readOnly).1 = [] ∧
        (NativeAssetCall db IsGenesisAssetContract isSocotra BytesToAddress t caller input
          suppliedGas gasCost readOnly).2.isSome) := by
  refine ⟨?_, fun t depth caller addr value coinID value2 hg hv hlt =>
    CallExpert_of_insufficient db IsGenesisAssetContract hg hv hlt,
    fun t caller input suppliedGas gasCost readOnly toAddr assetID assetAmount callData hunpack hg
      hv hlt => NativeAssetCall_of_insufficient db IsGenesisAssetContract isSocotra BytesToAddress
        hunpack hg hv hlt⟩
  -- by induction on the execution: each segment is covered where it starts
  induction h with
  | nil s => trivial
  | op hop hstep _ ih =>
    exact ⟨fun a c x h => absurd h (hop a c x), fun s'' hs'' => by
      rw [hstep, Option.some.injEq] at hs''
      exact hs'' ▸ ih⟩
  | callExpert depth caller addr value coinID value2 hrun _ ih =>
    exact subsCovered_segment db Keccak256Hash
      (CallExpert_subsCovered db Keccak256Hash IsGenesisAssetContract _ _ _ _ _ _ _) hrun ih
  | nativeAssetCall caller input suppliedGas gasCost readOnly hrun _ ih =>
    exact subsCovered_segment db Keccak256Hash
      (NativeAssetCall_subsCovered db Keccak256Hash IsGenesisAssetContract isSocotra BytesToAddress
        _ _ _ _ _ _) hrun ih
  | exportTx ins hrun _ ih =>
    exact subsCovered_segment db Keccak256Hash
      (exportLoop_subsCovered db Keccak256Hash chainAssetID assetHash _ _ _) hrun ih

end Execution

/-! ## A call that moves 3 of 5 -/

/-- Account `0` of `fundedDatabase`, with 5 of the coin `zeroHash`, sends 3 of it to the
account `1`, which does not exist yet, through `CallExpert`; no contract is a genesis asset
contract. -/
def sampleCallExpert : List (Op (Fin 2)) × Option VMError :=
  CallExpert fundedDatabase (fun _ => false) sampleStateDB 0 0 1 0 zeroHash 3

theorem multicoin_debits_covered_sample :
    Execution fundedDatabase (fun _ => zeroHash) (fun _ => false) false (fun _ => 0)
        (0 : ℕ) (fun _ => zeroHash) sampleStateDB (sampleCallExpert.1 ++ []) ∧
      (SubsCovered fundedDatabase (fun _ => zeroHash) (sampleCallExpert.1 ++ []) sampleStateDB ∧
      (∀ (t : StateDB (Fin 2)) depth caller addr value coinID (value2 : ℕ),
        (fun _ => false : Fin 2 → Bool) caller = false → value2 ≠ 0 →
        t.GetBalanceMultiCoin fundedDatabase caller coinID < value2 →
        (CallExpert fundedDatabase (fun _ => false) t depth caller addr value coinID value2).1 =
          [] ∧
        (CallExpert fundedDatabase (fun _ => false) t depth caller addr value coinID
          value2).2.isSome) ∧
      (∀ (t : StateDB (Fin 2)) caller input suppliedGas gasCost readOnly toAddr assetID
        (assetAmount : ℕ) callData,
        UnpackNativeAssetCallInput (fun _ => (0 : Fin 2)) input =
          .ok (toAddr, assetID, assetAmount, callData) →
        (fun _ => false : Fin 2 → Bool) caller = false → assetAmount ≠ 0 →
        t.GetBalanceMultiCoin fundedDatabase caller assetID < assetAmount →
        (NativeAssetCall fundedDatabase (fun _ => false) false (fun _ => 0) t caller input
          suppliedGas gasCost readOnly).1 = [] ∧
        (NativeAssetCall fundedDatabase (fun _ => false) false (fun _ => 0) t caller input
          suppliedGas gasCost readOnly).2.isSome)) := by
  have hexec : Execution fundedDatabase (fun _ => zeroHash) (fun _ => false) false (fun _ => 0)
      (0 : ℕ) (fun _ => zeroHash) sampleStateDB (sampleCallExpert.1 ++ []) :=
    .callExpert 0 0 1 0 zeroHash 3 rfl (.nil _)
  exact ⟨hexec, multicoin_debits_covered fundedDatabase _ _ _ _ _ _ hexec⟩

end Jeth.State
