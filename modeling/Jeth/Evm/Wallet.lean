import Jeth.Evm.AtomicTx

/-!
# Choosing the inputs of an export (plugin/evm/vm.go)

`GetSpendableAVAXWithFee` picks the inputs of an export transaction from a list of keys. It
starts from the amount plus the fee of the transaction without inputs, and walks the keys in
order. Each input adds `EVMInputGas` to the transaction's gas. So before it takes a key, the
loop raises the amount still to find by the fee the new input adds, and it skips a key whose
balance does not exceed that increase. It takes the key's whole balance, or what is still
missing if that is less.

The increases telescope. While the gas stays below `2^64` the fee grows with the gas
(`CalculateDynamicFee_mono`), so every increase is the difference of two fees. The inputs found
then sum to the amount plus the fee of the transaction with all of them (`spendLoop_spec`,
`GetSpendableAVAXWithFee_sum`). The gas and the increase are `uint64` arithmetic in Go. A cost
within `EVMInputGas` of `2^64` wraps the gas, the increase underflows, and the inputs can then
exceed the amount plus the fee by `2^64`.
-/

namespace Jeth

open FlowChecker

/-- `common.AddressLength`. -/
def AddressLength : ℕ := 20

/-- `hashing.HashLen`. -/
def HashLen : ℕ := 32

/-- `EVMInputGas`: the bytes of an input (its address, amount, asset ID and nonce; the amount
and the nonce are `wrappers.LongLen = 8` bytes each) and the cost of its signature. -/
def EVMInputGas : ℕ := (AddressLength + 8 + HashLen + 8) * TxBytesGas + CostPerSignature

/-- `uint64` subtraction, which wraps below zero. -/
def sub64Wrap (a b : ℕ) : ℕ := (a + 2 ^ 64 - b) % 2 ^ 64

variable {ID Address Key : Type}

/-! ## The fee grows with the gas -/

theorem CalculateDynamicFee_eq_ok {cost b fee : ℕ}
    (h : CalculateDynamicFee cost (some b) = .ok fee) :
    fee = (cost * b + (x2cRate - 1)) / x2cRate ∧ fee < 2 ^ 64 := by
  simp only [CalculateDynamicFee] at h
  split_ifs at h with hlt
  · cases h
    exact ⟨rfl, hlt⟩

/-- The fee of more gas is at least the fee of less, and fits whenever the larger one does. -/
theorem CalculateDynamicFee_mono {cost cost' b fee' : ℕ} (hle : cost ≤ cost')
    (h' : CalculateDynamicFee cost' (some b) = .ok fee') :
    ∃ fee, CalculateDynamicFee cost (some b) = .ok fee ∧ fee ≤ fee' := by
  obtain ⟨rfl, hlt⟩ := CalculateDynamicFee_eq_ok h'
  have hdiv : (cost * b + (x2cRate - 1)) / x2cRate ≤ (cost' * b + (x2cRate - 1)) / x2cRate :=
    Nat.div_le_div_right (Nat.add_le_add_right (Nat.mul_le_mul_right b hle) _)
  refine ⟨_, ?_, hdiv⟩
  simp only [CalculateDynamicFee, if_pos (lt_of_le_of_lt hdiv hlt)]

theorem sub64Wrap_of_le {a b : ℕ} (hba : b ≤ a) (ha : a < 2 ^ 64) : sub64Wrap a b = a - b := by
  unfold sub64Wrap
  rw [show a + 2 ^ 64 - b = (a - b) + 2 ^ 64 by omega, Nat.add_mod_right,
    Nat.mod_eq_of_lt (by omega)]

/-! ## The loop -/

section Spend

/-! The sums of the loop are juneogo's checked `uint64` additions, taken as a parameter. -/

variable [CheckedArith]

/-- The loop of `GetSpendableAVAXWithFee` over the keys left, with the amount still to find,
the gas of the transaction so far, and the inputs and signers chosen. -/
def spendLoop (chainAssetID : ID) (GetEthAddress : Key → Address) (s : EVMState ID Address)
    (baseFee : Option ℕ) :
    List Key → ℕ → ℕ → List (EVMInput ID Address) → List (List Key) →
      Except String (ℕ × List (EVMInput ID Address) × List (List Key))
  | [], amount, _, inputs, signers => .ok (amount, inputs, signers)
  | key :: keys, amount, cost, inputs, signers =>
    if amount = 0 then .ok (amount, inputs, signers)
    else do
      let prevFee ← CalculateDynamicFee cost baseFee
      let newCost := (cost + EVMInputGas) % 2 ^ 64
      let newFee ← CalculateDynamicFee newCost baseFee
      let additionalFee := sub64Wrap newFee prevFee
      let addr := GetEthAddress key
      -- `new(big.Int).Div(state.GetBalance(addr), x2cRate).Uint64()`
      let balance := s.balance addr / x2cRate % 2 ^ 64
      if balance ≤ additionalFee then
        spendLoop chainAssetID GetEthAddress s baseFee keys amount cost inputs signers
      else do
        let amount ← add64 amount additionalFee
        let inputAmount := if amount < balance then amount else balance
        spendLoop chainAssetID GetEthAddress s baseFee keys (amount - inputAmount) newCost
          (inputs ++ [⟨addr, inputAmount, chainAssetID, s.nonce addr⟩]) (signers ++ [[key]])

/-- `GetSpendableAVAXWithFee(keys, amount, cost, baseFee)` on the state `s` of the preferred
block; `GetEthAddress` gives a key's address. -/
def GetSpendableAVAXWithFee (chainAssetID : ID) (GetEthAddress : Key → Address)
    (s : EVMState ID Address) (keys : List Key) (amount cost : ℕ) (baseFee : Option ℕ) :
    Except String (List (EVMInput ID Address) × List (List Key)) := do
  let initialFee ← CalculateDynamicFee cost baseFee
  let amount ← add64 amount initialFee
  let found ← spendLoop chainAssetID GetEthAddress s baseFee keys amount cost [] []
  if found.1 > 0 then throw errInsufficientFunds
  pure found.2

section Loop

variable (chainAssetID : ID) (GetEthAddress : Key → Address) (s : EVMState ID Address)

/-- A run of the loop from the gas `cost`, whose fee is `fee`, that stays below `2^64`: the
inputs it adds, `new`, are for keys `used` taken in order, each positive and within its key's
balance, and the amounts balance against the fee `fee'` of the gas with them. -/
theorem spendLoop_spec {b : ℕ} (keys : List Key) {amount cost fee : ℕ}
    {inputs : List (EVMInput ID Address)} {signers : List (List Key)}
    {amount' : ℕ} {inputs' : List (EVMInput ID Address)} {signers' : List (List Key)}
    (hcost : cost + keys.length * EVMInputGas < 2 ^ 64)
    (hfee : CalculateDynamicFee cost (some b) = .ok fee)
    (h : spendLoop chainAssetID GetEthAddress s (some b) keys amount cost inputs signers =
      .ok (amount', inputs', signers')) :
    ∃ (used : List Key) (new : List (EVMInput ID Address)) (fee' : ℕ), used.Sublist keys ∧ inputs' = inputs ++ new ∧
      signers' = signers ++ used.map (fun key => [key]) ∧
      new.map EVMInput.address = used.map GetEthAddress ∧
      (∀ input ∈ new, 0 < input.amount ∧ input.amount ≤ s.balance input.address / x2cRate) ∧
      CalculateDynamicFee (cost + new.length * EVMInputGas) (some b) = .ok fee' ∧
      (new.map EVMInput.amount).sum + amount' + fee = amount + fee' := by
  induction keys generalizing amount cost fee inputs signers with
  | nil =>
    cases h
    exact ⟨[], [], fee, List.Sublist.slnil, by simp, by simp, rfl, by simp, by simpa using hfee,
      by simp⟩
  | cons key keys ih =>
    simp only [spendLoop] at h
    by_cases hzero : amount = 0
    · -- nothing left to find: the loop stops
      rw [if_pos hzero] at h
      cases h
      exact ⟨[], [], fee, List.nil_sublist _, by simp, by simp, rfl, by simp,
        by simpa using hfee, by simp⟩
    rw [if_neg hzero, hfee] at h
    rw [except_ok_bind] at h
    -- the new input's gas does not wrap, so its fee is the fee of `cost + EVMInputGas`
    have hlen : cost + EVMInputGas + keys.length * EVMInputGas < 2 ^ 64 := by
      rw [List.length_cons, Nat.add_one_mul] at hcost
      omega
    have hwrap : (cost + EVMInputGas) % 2 ^ 64 = cost + EVMInputGas := Nat.mod_eq_of_lt (by omega)
    simp only [hwrap] at h
    rw [except_bind_eq_ok] at h
    obtain ⟨newFee, hnew, h⟩ := h
    obtain ⟨fee₀, hfee₀, hle⟩ := CalculateDynamicFee_mono (Nat.le_add_right cost EVMInputGas) hnew
    rw [hfee] at hfee₀
    cases hfee₀
    have hadd : sub64Wrap newFee fee = newFee - fee :=
      sub64Wrap_of_le hle (CalculateDynamicFee_eq_ok hnew).2
    simp only [hadd] at h
    split_ifs at h with hskip
    · -- a key whose balance does not cover the increase is skipped
      obtain ⟨used, new, fee', hsub, hin, hsig, haddr, hpos, hfee', hsum⟩ :=
        ih (by omega) hfee h
      exact ⟨used, new, fee', hsub.cons key, hin, hsig, haddr, hpos, hfee', hsum⟩
    · -- the key is taken: the increase is added, then its input subtracted
      rw [except_bind_eq_ok] at h
      obtain ⟨amount₁, hamount₁, h⟩ := h
      have hamount₁' : amount₁ = amount + (newFee - fee) := add64_eq_ok hamount₁
      obtain ⟨used, new, fee', hsub, hin, hsig, haddr, hpos, hfee', hsum⟩ :=
        ih (by omega) hnew h
      set balance := s.balance (GetEthAddress key) / x2cRate % 2 ^ 64
      set inputAmount := if amount₁ < balance then amount₁ else balance
      have hinput : 0 < inputAmount ∧ inputAmount ≤ amount₁ ∧ inputAmount ≤ balance := by
        simp only [inputAmount]
        split_ifs <;> omega
      have hbal : balance ≤ s.balance (GetEthAddress key) / x2cRate := Nat.mod_le _ _
      refine ⟨key :: used, ⟨GetEthAddress key, inputAmount, chainAssetID,
        s.nonce (GetEthAddress key)⟩ :: new, fee', hsub.cons_cons key, by simp [hin],
        by simp [hsig], by simp [haddr], ?_, ?_, ?_⟩
      · intro input hmem
        rcases List.mem_cons.mp hmem with rfl | hmem
        · exact ⟨hinput.1, hinput.2.2.trans hbal⟩
        · exact hpos input hmem
      · have hgas : cost + (new.length + 1) * EVMInputGas =
            cost + EVMInputGas + new.length * EVMInputGas := by ring
        rw [List.length_cons, hgas]
        exact hfee'
      · simp only [List.map_cons, List.sum_cons]
        omega

/-- Every input the loop adds is of the chain's asset. -/
theorem spendLoop_assetID (baseFee : Option ℕ) (keys : List Key) {amount cost : ℕ}
    {inputs : List (EVMInput ID Address)} {signers : List (List Key)}
    {amount' : ℕ} {inputs' : List (EVMInput ID Address)} {signers' : List (List Key)}
    (hin : ∀ input ∈ inputs, input.assetID = chainAssetID)
    (h : spendLoop chainAssetID GetEthAddress s baseFee keys amount cost inputs signers =
      .ok (amount', inputs', signers')) :
    ∀ input ∈ inputs', input.assetID = chainAssetID := by
  induction keys generalizing amount cost inputs signers with
  | nil =>
    cases h
    exact hin
  | cons key keys ih =>
    simp only [spendLoop] at h
    by_cases hzero : amount = 0
    · rw [if_pos hzero] at h
      cases h
      exact hin
    rw [if_neg hzero] at h
    obtain ⟨prevFee, -, h⟩ := except_bind_eq_ok.mp h
    obtain ⟨newFee, -, h⟩ := except_bind_eq_ok.mp h
    split_ifs at h with hskip
    · exact ih hin h
    · obtain ⟨amount₁, -, h⟩ := except_bind_eq_ok.mp h
      refine ih ?_ h
      intro input hmem
      rcases List.mem_append.mp hmem with hmem | hmem
      · exact hin input hmem
      · rw [List.mem_singleton.mp hmem]

end Loop

/-- The inputs `GetSpendableAVAXWithFee` returns, while the gas with an input for every key
stays below `2^64`: they sum to the amount plus the fee of the transaction with them, each is
positive and within its key's balance in nAVAX, they follow their keys in order, and each
increase of the fee, from the gas of `i` inputs to that of `i + 1`, is a difference of fees
that does not underflow. -/
theorem GetSpendableAVAXWithFee_sum (chainAssetID : ID) (GetEthAddress : Key → Address)
    (s : EVMState ID Address) (keys : List Key) (amount cost b : ℕ)
    {inputs : List (EVMInput ID Address)} {signers : List (List Key)}
    (hcost : cost + keys.length * EVMInputGas < 2 ^ 64)
    (h : GetSpendableAVAXWithFee chainAssetID GetEthAddress s keys amount cost (some b) =
      .ok (inputs, signers)) :
    (∃ fee, CalculateDynamicFee (cost + inputs.length * EVMInputGas) (some b) = .ok fee ∧
        (inputs.map EVMInput.amount).sum = amount + fee) ∧
      (∀ input ∈ inputs, 0 < input.amount ∧ input.amount ≤ s.balance input.address / x2cRate) ∧
      (∃ used : List Key, used.Sublist keys ∧ inputs.map EVMInput.address = used.map GetEthAddress ∧
        signers = used.map fun key => [key]) ∧
      (∀ i < keys.length, ∀ f f', CalculateDynamicFee (cost + i * EVMInputGas) (some b) = .ok f →
        CalculateDynamicFee (cost + (i + 1) * EVMInputGas) (some b) = .ok f' → f ≤ f') := by
  simp only [GetSpendableAVAXWithFee] at h
  obtain ⟨initialFee, hinit, h⟩ := except_bind_eq_ok.mp h
  obtain ⟨amount₀, hamount₀, h⟩ := except_bind_eq_ok.mp h
  obtain ⟨⟨left, inputs', signers'⟩, hfound, h⟩ := except_bind_eq_ok.mp h
  have hamount₀' : amount₀ = amount + initialFee := add64_eq_ok hamount₀
  -- a result means nothing was left to find
  have hleft : left = 0 ∧ inputs' = inputs ∧ signers' = signers := by
    by_cases hpos : left > 0
    · simp only [if_pos hpos, except_throw_eq_error, except_error_bind, reduceCtorEq] at h
    · simp only [if_neg hpos, except_pure_eq_ok, Except.ok.injEq, Prod.mk.injEq] at h
      exact ⟨by omega, h⟩
  obtain ⟨rfl, rfl, rfl⟩ := hleft
  obtain ⟨used, new, fee', hsub, hin, hsig, haddr, hpos, hfee', hsum⟩ :=
    spendLoop_spec chainAssetID GetEthAddress s keys hcost hinit hfound
  simp only [List.nil_append] at hin hsig
  subst hin hsig
  refine ⟨⟨fee', hfee', by omega⟩, hpos, ⟨used, hsub, haddr, rfl⟩, ?_⟩
  -- the gas of the first `i` inputs is below that of `i + 1`, and neither wraps
  intro i _ f f' hf hf'
  have hgas : cost + i * EVMInputGas ≤ cost + (i + 1) * EVMInputGas :=
    Nat.add_le_add_left (Nat.mul_le_mul_right EVMInputGas (Nat.le_succ i)) cost
  obtain ⟨f₀, hf₀, hle⟩ := CalculateDynamicFee_mono hgas hf'
  rw [hf] at hf₀
  cases hf₀
  exact hle

/-- Every input `GetSpendableAVAXWithFee` returns is of the chain's asset. -/
theorem GetSpendableAVAXWithFee_assetID (chainAssetID : ID) (GetEthAddress : Key → Address)
    (s : EVMState ID Address) (keys : List Key) (amount cost : ℕ) (baseFee : Option ℕ)
    {inputs : List (EVMInput ID Address)} {signers : List (List Key)}
    (h : GetSpendableAVAXWithFee chainAssetID GetEthAddress s keys amount cost baseFee =
      .ok (inputs, signers)) :
    ∀ input ∈ inputs, input.assetID = chainAssetID := by
  simp only [GetSpendableAVAXWithFee] at h
  obtain ⟨initialFee, -, h⟩ := except_bind_eq_ok.mp h
  obtain ⟨amount₀, -, h⟩ := except_bind_eq_ok.mp h
  obtain ⟨⟨left, inputs', signers'⟩, hfound, h⟩ := except_bind_eq_ok.mp h
  have hinputs : inputs' = inputs := by
    by_cases hpos : left > 0
    · simp only [if_pos hpos, except_throw_eq_error, except_error_bind, reduceCtorEq] at h
    · simp only [if_neg hpos, except_pure_eq_ok, Except.ok.injEq, Prod.mk.injEq] at h
      exact h.1
  subst hinputs
  exact spendLoop_assetID chainAssetID GetEthAddress s baseFee keys (by simp) hfound

end Spend

/-- Inputs within their keys' balances, one for each key of a sublist of the keys, hold at most
what all the keys hold. -/
theorem sum_amount_le_of_used (GetEthAddress : Key → Address) (s : EVMState ID Address)
    {keys used : List Key} {inputs : List (EVMInput ID Address)} (hsub : used.Sublist keys)
    (haddr : inputs.map EVMInput.address = used.map GetEthAddress)
    (hle : ∀ input ∈ inputs, input.amount ≤ s.balance input.address / x2cRate) :
    (inputs.map EVMInput.amount).sum ≤
      (keys.map fun key => s.balance (GetEthAddress key) / x2cRate).sum := by
  -- each input is within the balance of the key it was taken from
  have hpair : List.Forall₂ (· ≤ ·) (inputs.map EVMInput.amount)
      (used.map fun key => s.balance (GetEthAddress key) / x2cRate) := by
    clear hsub
    induction used generalizing inputs with
    | nil =>
      rw [List.map_nil, List.map_eq_nil_iff] at haddr
      subst haddr
      exact List.Forall₂.nil
    | cons key used ih =>
      cases inputs with
      | nil => simp at haddr
      | cons input inputs =>
        simp only [List.map_cons, List.cons.injEq] at haddr
        refine List.Forall₂.cons ?_ (ih haddr.2 fun i hi => hle i (List.mem_cons_of_mem _ hi))
        show input.amount ≤ s.balance (GetEthAddress key) / x2cRate
        rw [← haddr.1]
        exact hle input List.mem_cons_self
  calc (inputs.map EVMInput.amount).sum
      ≤ (used.map fun key => s.balance (GetEthAddress key) / x2cRate).sum := hpair.sum_le_sum
    _ ≤ (keys.map fun key => s.balance (GetEthAddress key) / x2cRate).sum :=
      (hsub.map _).sum_le_sum fun _ _ => Nat.zero_le _

section Reference

attribute [local instance] CheckedArith.reference

/-! ## Two keys -/

/-- Keys `0` and `1`, holding 2000 and 5000 nAVAX. -/
def sampleWallet : EVMState ℕ (Fin 2) where
  balance a := if a = 0 then 2000 * x2cRate else 5000 * x2cRate
  balanceMultiCoin _ _ := 0
  nonce _ := 0

/-- The inputs for 1000 nAVAX at one nAVAX of fee per gas: key 0 gives all it has, and key 1
the rest of the amount and the fee of two inputs. -/
def sampleInputs : List (EVMInput ℕ (Fin 2)) := [⟨0, 2000, 0, 0⟩, ⟨1, 1136, 0, 0⟩]

theorem GetSpendableAVAXWithFee_sum_sample :
    0 + [(0 : Fin 2), 1].length * EVMInputGas < 2 ^ 64 ∧
      GetSpendableAVAXWithFee 0 id sampleWallet [0, 1] 1000 0 (some x2cRate) =
        .ok (sampleInputs, [[0], [1]]) ∧
      ((∃ fee, CalculateDynamicFee (0 + sampleInputs.length * EVMInputGas) (some x2cRate) =
          .ok fee ∧ (sampleInputs.map EVMInput.amount).sum = 1000 + fee) ∧
        (∀ input ∈ sampleInputs,
          0 < input.amount ∧ input.amount ≤ sampleWallet.balance input.address / x2cRate) ∧
        (∃ used : List (Fin 2), used.Sublist [0, 1] ∧
          sampleInputs.map EVMInput.address = used.map id ∧ [[0], [1]] = used.map fun key => [key]) ∧
        (∀ i < [(0 : Fin 2), 1].length, ∀ f f',
          CalculateDynamicFee (0 + i * EVMInputGas) (some x2cRate) = .ok f →
          CalculateDynamicFee (0 + (i + 1) * EVMInputGas) (some x2cRate) = .ok f' → f ≤ f')) := by
  have hcost : 0 + [(0 : Fin 2), 1].length * EVMInputGas < 2 ^ 64 := by decide
  -- evaluated by the kernel: unfolding in the elaborator subtracts in unary
  have hrun : GetSpendableAVAXWithFee 0 id sampleWallet [0, 1] 1000 0 (some x2cRate) =
      .ok (sampleInputs, [[0], [1]]) := by decide +kernel
  exact ⟨hcost, hrun, GetSpendableAVAXWithFee_sum 0 id sampleWallet [0, 1] 1000 0 x2cRate hcost hrun⟩

/-- Two keys whose second input wraps the gas. The cost is 1069 gas short of 2^64, so the first
input brings the gas to 2^64 - 1 and the second wraps it to 1067. The fee of the wrapped gas is 1
against 18446744074 before it, and the increase underflows to 2^64 - 18446744073. -/
def wrapWallet : EVMState ℕ (Fin 2) where
  balance a := if a = 0 then 18446744073 * x2cRate else (2 ^ 64 - 1) * x2cRate
  balanceMultiCoin _ _ := 0
  nonce _ := 0

/-- The inputs the wrapping run returns for an amount of zero. -/
def wrapInputs : List (EVMInput ℕ (Fin 2)) :=
  [⟨0, 18446744073, 0, 0⟩, ⟨1, 18446744055262807544, 0, 0⟩]

/-- With the gas wrapped, the inputs sum to 2^64 + 1. The amount is zero, and the fee of the
two inputs' gas is 18446744074 unwrapped or 1 wrapped, so the sum is neither. -/
theorem GetSpendableAVAXWithFee_wraps :
    GetSpendableAVAXWithFee 0 id wrapWallet [0, 1] 0 (2 ^ 64 - 1069) (some 1) =
        .ok (wrapInputs, [[0], [1]]) ∧
      (wrapInputs.map EVMInput.amount).sum = 2 ^ 64 + 1 ∧
      CalculateDynamicFee (2 ^ 64 - 1069 + wrapInputs.length * EVMInputGas) (some 1) =
        .ok 18446744074 ∧
      CalculateDynamicFee ((2 ^ 64 - 1069 + wrapInputs.length * EVMInputGas) % 2 ^ 64) (some 1) =
        .ok 1 ∧
      CalculateDynamicFee (2 ^ 64 - 1069 + EVMInputGas) (some 1) = .ok 18446744074 ∧
      sub64Wrap 1 18446744074 = 2 ^ 64 - 18446744073 := by
  refine ⟨by decide +kernel, ?_, ?_, ?_, ?_, ?_⟩ <;> rfl

end Reference

end Jeth
