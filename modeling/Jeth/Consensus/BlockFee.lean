import Jeth.Consensus.DynamicFees

/-!
# The block fee (consensus/dummy/consensus.go)

From ApricotPhase4 on, a block pays a block fee besides the base fee of its gas. The header's
`BlockGasCost` sets its size, as gas priced at the block's base fee. `calcBlockGasCost` derives
it from the parent's: a step up for each second the block comes before the target rate of one
block every two seconds, a step down for each second after, kept within
`[ApricotPhase4MinBlockGasCost, ApricotPhase4MaxBlockGasCost]`. The block's transactions pay the
fee with their tips: each pays its effective tip times the gas its receipt used. The VM's atomic
transactions add a contribution of their own. `verifyBlockFee` checks that all of it buys at
least `BlockGasCost` gas at the base fee.

The engine checks the fee on both sides. `FinalizeAndAssemble` builds a block: it sets the
header's `ExtDataGasUsed` and `BlockGasCost`, and refuses a block that does not pay.
`Finalize` verifies a block: it recomputes both fields and runs the same fee check. The VM's
callbacks report the atomic contribution and gas to each side.

The results:
- The block gas cost lies within its bounds (`expectedBlockGasCost_mem_bounds`). It falls as
  a block comes later after its parent, and rises with the parent's cost
  (`calcBlockGasCost_antitone_time`, `calcBlockGasCost_mono_parent`).
- `verifyBlockFee` accepts exactly when the tips and the contribution pay `BlockGasCost`
  times the base fee (`verifyBlockFee_eq_ok_iff`). So every block that `Finalize` accepts
  from ApricotPhase4 on has paid its fee (`Finalize_pays_block_fee`).
- A block that `FinalizeAndAssemble` built passes `Finalize`, provided the verifier's callback
  reports what the builder's reported, and that gas fits in 64 bits
  (`Finalize_FinalizeAndAssemble`).

The model's `Header` always has a base fee, so `Finalize` never reaches the nil base fee that
`verifyBlockFee` refuses. The state the callbacks also take, the state root that
`FinalizeAndAssemble` writes, the uncles and the other fields of the receipts are left out.
-/

namespace Jeth.DynamicFees

/-! ## The engine -/

/-- `ApricotPhase5BlockGasCostStep`. -/
def ApricotPhase5BlockGasCostStep : ℤ := 200_000

/-- `dummy.Mode`, with the flag the fee check reads. -/
structure Mode where
  ModeSkipBlockFee : Bool

/-- A `*big.Int` as `%d` prints it: `<nil>` for nil. -/
def fmtBig : Option ℤ → String
  | none => "<nil>"
  | some x => toString x

/-- `types.Transaction`, with the two caps `EffectiveGasTip` reads; both caps of a legacy
transaction are its gas price. -/
structure Transaction where
  GasTipCap : ℤ
  GasFeeCap : ℤ

/-- `types.ErrGasFeeCapTooLow`. -/
def ErrGasFeeCapTooLow : String := "fee cap less than base fee"

/-- `EffectiveGasTip(baseFee)` with a base fee: what the fee cap leaves above the base fee, at
most the tip cap. With a fee cap below the base fee Go returns `ErrGasFeeCapTooLow` beside the
value, and `verifyBlockFee` returns on the error. -/
def Transaction.EffectiveGasTip (tx : Transaction) (baseFee : ℤ) : Except String ℤ :=
  if tx.GasFeeCap < baseFee then .error ErrGasFeeCapTooLow
  else .ok (min tx.GasTipCap (tx.GasFeeCap - baseFee))

/-- `types.Receipt`, with the gas it records. -/
structure Receipt where
  GasUsed : ℕ

/-- The loop of `verifyBlockFee` over the receipts: the gas of the `i`-th receipt times the
effective tip of the `i`-th transaction, added to the total. Go panics on `txs[i]` when there
are fewer transactions than receipts; the model returns an error. -/
def blockFeeLoop (baseFee : ℤ) : List Transaction → List Receipt → ℤ → Except String ℤ
  | _, [], totalBlockFee => .ok totalBlockFee
  | [], _ :: _, _ => .error "runtime error: index out of range"
  | tx :: txs, receipt :: receipts, totalBlockFee =>
    match tx.EffectiveGasTip baseFee with
    | .error err => .error err
    | .ok txFeePremium =>
      blockFeeLoop baseFee txs receipts (totalBlockFee + txFeePremium * receipt.GasUsed)

/-- The external contribution `verifyBlockFee` starts its total from: zero for nil, refused when
negative. -/
def contributionStart : Option ℤ → Except String ℤ
  | none => .ok 0
  | some contribution =>
    if contribution < 0 then
      .error ("invalid extra state change contribution: " ++ toString contribution)
    else .ok contribution

/-- `verifyBlockFee`: the tips and the contribution must buy `requiredBlockGasCost` gas at the
base fee. `blockGas` is `big.Int`'s Euclidean quotient, as Lean's `/` on `ℤ`. -/
def verifyBlockFee (mode : Mode) (baseFee requiredBlockGasCost : Option ℤ)
    (txs : List Transaction) (receipts : List Receipt) (extraStateChangeContribution : Option ℤ) :
    Except String Unit :=
  if mode.ModeSkipBlockFee then .ok ()
  else match baseFee with
  | none => .error "invalid base fee (<nil>) in apricot phase 4"
  | some baseFee =>
    if baseFee ≤ 0 then .error ("invalid base fee (" ++ toString baseFee ++ ") in apricot phase 4")
    else match requiredBlockGasCost with
    | none => .error "invalid block gas cost (<nil>) in apricot phase 4"
    | some requiredBlockGasCost =>
      if IsUint64 requiredBlockGasCost = false then
        .error ("invalid block gas cost (" ++ toString requiredBlockGasCost ++
          ") in apricot phase 4")
      else match contributionStart extraStateChangeContribution with
      | .error err => .error err
      | .ok contribution =>
        match blockFeeLoop baseFee txs receipts contribution with
        | .error err => .error err
        | .ok totalBlockFee =>
          let blockGas := totalBlockFee / baseFee
          if blockGas < requiredBlockGasCost then
            .error ("insufficient gas (" ++ toString blockGas ++ ") to cover the block cost (" ++
              toString requiredBlockGasCost ++ ") at base fee (" ++ toString baseFee ++
              ") (total block fee: " ++ toString totalBlockFee ++ ")")
          else .ok ()

/-- `types.Block`: its header, its transactions and its atomic extra data. -/
structure Block where
  header : Header
  txs : List Transaction
  extData : Bytes

/-- `dummy.ConsensusCallbacks`, without the state the callbacks also take; `none` is a nil
callback. -/
structure ConsensusCallbacks where
  OnFinalizeAndAssemble :
    Option (Header → List Transaction → Except String (Bytes × Option ℤ × Option ℤ))
  OnExtraStateChange : Option (Block → Except String (Option ℤ × Option ℤ))

/-- `DummyEngine`, with what the fee checks read. -/
structure DummyEngine where
  cb : ConsensusCallbacks
  consensusMode : Mode

/-- The block gas cost of a block at `time` on `parent`: `calcBlockGasCost` with the step of the
block's phase, as `verifyHeaderGasFields`, `Finalize` and `FinalizeAndAssemble` each compute
it. -/
def expectedBlockGasCost (config : ChainConfig) (parent : Header) (time : ℕ) : ℤ :=
  let blockGasCostStep :=
    if config.IsApricotPhase5 time then ApricotPhase5BlockGasCostStep
    else ApricotPhase4BlockGasCostStep
  calcBlockGasCost ApricotPhase4TargetBlockRate ApricotPhase4MinBlockGasCost
    ApricotPhase4MaxBlockGasCost blockGasCostStep parent.BlockGasCost parent.Time time

/-- `x != nil && x.IsUint64() && x.Cmp(y) == 0`, the test `Finalize` makes of both header
fields. -/
def isUint64Eq : Option ℤ → ℤ → Bool
  | some x, y => IsUint64 x && x == y
  | none, _ => false

/-- What `Finalize` reads from the VM: the result of `OnExtraStateChange` on the block, and
nothing without the callback. -/
def DummyEngine.extraStateChange (self : DummyEngine) (block : Block) :
    Except String (Option ℤ × Option ℤ) :=
  match self.cb.OnExtraStateChange with
  | some onExtraStateChange => onExtraStateChange block
  | none => .ok (none, none)

/-- `Finalize`: from ApricotPhase4 on, the header's `ExtDataGasUsed` must be the callback's gas
and its `BlockGasCost` the expected one, and the block must pay its fee. -/
def DummyEngine.Finalize (self : DummyEngine) (config : ChainConfig) (block : Block)
    (parent : Header) (receipts : List Receipt) : Except String Unit :=
  match self.extraStateChange block with
  | .error err => .error err
  | .ok (contribution, extDataGasUsed) =>
    if config.IsApricotPhase4 block.header.Time then
      let extDataGasUsed := extDataGasUsed.getD 0
      if isUint64Eq block.header.ExtDataGasUsed extDataGasUsed = false then
        .error ("invalid extDataGasUsed: have " ++ fmtBig block.header.ExtDataGasUsed ++
          ", want " ++ toString extDataGasUsed)
      else
        let blockGasCost := expectedBlockGasCost config parent block.header.Time
        if isUint64Eq block.header.BlockGasCost blockGasCost = false then
          .error ("invalid blockGasCost: have " ++ fmtBig block.header.BlockGasCost ++
            ", want " ++ toString blockGasCost)
        else
          verifyBlockFee self.consensusMode (some block.header.BaseFee) block.header.BlockGasCost
            block.txs receipts contribution
    else .ok ()

/-- What `FinalizeAndAssemble` reads from the VM: the result of `OnFinalizeAndAssemble`, and no
extra data, contribution or gas without the callback. -/
def DummyEngine.finalizeAndAssembleResult (self : DummyEngine) (header : Header)
    (txs : List Transaction) : Except String (Bytes × Option ℤ × Option ℤ) :=
  match self.cb.OnFinalizeAndAssemble with
  | some onFinalizeAndAssemble => onFinalizeAndAssemble header txs
  | none => .ok ([], none, none)

/-- The header `FinalizeAndAssemble` fills in from ApricotPhase4 on: the callback's gas, zero
for nil, and the expected block gas cost. -/
def fillFeeFields (config : ChainConfig) (header parent : Header) (extDataGasUsed : Option ℤ) :
    Header :=
  { header with
    ExtDataGasUsed := some (extDataGasUsed.getD 0)
    BlockGasCost := some (expectedBlockGasCost config parent header.Time) }

/-- `FinalizeAndAssemble`: the block of the header, the transactions and the callback's extra
data, its fee fields filled in and its fee checked from ApricotPhase4 on. -/
def DummyEngine.FinalizeAndAssemble (self : DummyEngine) (config : ChainConfig)
    (header parent : Header) (txs : List Transaction) (receipts : List Receipt) :
    Except String Block :=
  match self.finalizeAndAssembleResult header txs with
  | .error err => .error err
  | .ok (extraData, contribution, extDataGasUsed) =>
    if config.IsApricotPhase4 header.Time then
      let header := fillFeeFields config header parent extDataGasUsed
      match verifyBlockFee self.consensusMode (some header.BaseFee) header.BlockGasCost txs
          receipts contribution with
      | .error err => .error err
      | .ok () => .ok ⟨header, txs, extraData⟩
    else .ok ⟨header, txs, extraData⟩

/-! ## The block gas cost -/

section Cost

variable {rate : ℕ} {minCost maxCost step : ℤ} {parentTime : ℕ}

/-- `selectBigWithinBounds` with both bounds, the lower at most the upper, lands between them. -/
theorem selectBigWithinBounds_mem {lower upper : ℤ} (hle : lower ≤ upper) (v : ℤ) :
    lower ≤ selectBigWithinBounds (some lower) v (some upper) ∧
      selectBigWithinBounds (some lower) v (some upper) ≤ upper := by
  simp only [selectBigWithinBounds]
  split_ifs <;> omega

/-- The seconds `calcBlockGasCost` counts between the parent and the block, zero for a block
before its parent. -/
def timeElapsed (parentTime currentTime : ℕ) : ℕ :=
  if parentTime ≤ currentTime then currentTime - parentTime else 0

theorem timeElapsed_mono {t₁ t₂ : ℕ} (h : t₁ ≤ t₂) :
    timeElapsed parentTime t₁ ≤ timeElapsed parentTime t₂ := by
  unfold timeElapsed
  split_ifs <;> omega

/-- Both branches of `calcBlockGasCost` move the parent's cost by `step` times the distance to
the target rate, signed. -/
theorem blockGasCost_branches (rate : ℕ) (step p : ℤ) (e : ℕ) :
    (if e < rate then p + step * ((rate - e : ℕ) : ℤ) else p - step * ((e - rate : ℕ) : ℤ)) =
      p + step * ((rate : ℤ) - e) := by
  split_ifs with h
  · rw [Nat.cast_sub h.le]
  · rw [Nat.cast_sub (not_lt.mp h)]
    ring

variable (hmin : 0 ≤ minCost) (hle : minCost ≤ maxCost) (hmax : maxCost < 2 ^ 64)
include hmin hle hmax

/-- Within bounds that fit in 64 bits, the last clamp of `calcBlockGasCost` does nothing: the
cost is the parent's moved by the signed steps, kept within the bounds. -/
theorem calcBlockGasCost_some (p : ℤ) (currentTime : ℕ) :
    calcBlockGasCost rate minCost maxCost step (some p) parentTime currentTime =
      selectBigWithinBounds (some minCost)
        (p + step * ((rate : ℤ) - timeElapsed parentTime currentTime)) (some maxCost) := by
  have hbr := blockGasCost_branches rate step p (timeElapsed parentTime currentTime)
  have hmem := selectBigWithinBounds_mem hle
    (p + step * ((rate : ℤ) - timeElapsed parentTime currentTime))
  have hte : (if parentTime ≤ currentTime then currentTime - parentTime else 0) =
      timeElapsed parentTime currentTime := rfl
  simp only [calcBlockGasCost, hte, hbr]
  rw [if_pos (by simp only [IsUint64, decide_eq_true_eq]; omega)]

theorem calcBlockGasCost_mem (parentBlockGasCost : Option ℤ) (currentTime : ℕ) :
    minCost ≤ calcBlockGasCost rate minCost maxCost step parentBlockGasCost parentTime currentTime ∧
      calcBlockGasCost rate minCost maxCost step parentBlockGasCost parentTime currentTime ≤
        maxCost := by
  cases parentBlockGasCost with
  | none => exact ⟨le_rfl, hle⟩
  | some p =>
    rw [calcBlockGasCost_some hmin hle hmax]
    exact selectBigWithinBounds_mem hle _

/-- With a step that is not negative, the later a block comes after its parent, the lower its
block gas cost. -/
theorem calcBlockGasCost_antitone_time (hstep : 0 ≤ step) (p : ℤ) {t₁ t₂ : ℕ} (ht : t₁ ≤ t₂) :
    calcBlockGasCost rate minCost maxCost step (some p) parentTime t₂ ≤
      calcBlockGasCost rate minCost maxCost step (some p) parentTime t₁ := by
  rw [calcBlockGasCost_some hmin hle hmax, calcBlockGasCost_some hmin hle hmax]
  apply selectBigWithinBounds_mono (by simpa using hle)
  have he : (timeElapsed parentTime t₁ : ℤ) ≤ timeElapsed parentTime t₂ := by
    exact_mod_cast timeElapsed_mono ht
  have := mul_le_mul_of_nonneg_left (sub_le_sub_left he (rate : ℤ)) hstep
  omega

omit hmin hle hmax in
theorem calcBlockGasCost_antitone_time_sample :
    (0 : ℤ) ≤ ApricotPhase4MinBlockGasCost ∧
      ApricotPhase4MinBlockGasCost ≤ ApricotPhase4MaxBlockGasCost ∧
      ApricotPhase4MaxBlockGasCost < 2 ^ 64 ∧ (0 : ℤ) ≤ ApricotPhase5BlockGasCostStep ∧ 1 ≤ 5 ∧
      calcBlockGasCost ApricotPhase4TargetBlockRate ApricotPhase4MinBlockGasCost
          ApricotPhase4MaxBlockGasCost ApricotPhase5BlockGasCostStep (some 500_000) 0 5 ≤
        calcBlockGasCost ApricotPhase4TargetBlockRate ApricotPhase4MinBlockGasCost
          ApricotPhase4MaxBlockGasCost ApricotPhase5BlockGasCostStep (some 500_000) 0 1 :=
  ⟨by decide, by decide, by decide, by decide, by decide,
    calcBlockGasCost_antitone_time (by decide) (by decide) (by decide) (by decide) 500_000
      (by decide)⟩

end Cost

/-- The block gas cost a header must carry from ApricotPhase4 on lies within
`[ApricotPhase4MinBlockGasCost, ApricotPhase4MaxBlockGasCost]`, whatever the parent. -/
theorem expectedBlockGasCost_mem_bounds (config : ChainConfig) (parent : Header) (time : ℕ) :
    ApricotPhase4MinBlockGasCost ≤ expectedBlockGasCost config parent time ∧
      expectedBlockGasCost config parent time ≤ ApricotPhase4MaxBlockGasCost :=
  calcBlockGasCost_mem (by decide) (by decide) (by decide) _ _

theorem IsUint64_expectedBlockGasCost (config : ChainConfig) (parent : Header) (time : ℕ) :
    IsUint64 (expectedBlockGasCost config parent time) = true := by
  have h := expectedBlockGasCost_mem_bounds config parent time
  simp only [ApricotPhase4MinBlockGasCost, ApricotPhase4MaxBlockGasCost] at h
  simp only [IsUint64, decide_eq_true_eq]
  omega

/-! ## The fee check -/

/-- What the transactions of a block pay towards its block fee: for each receipt, the gas it
used times the effective tip of its transaction. -/
def blockFee (baseFee : ℤ) (txs : List Transaction) (receipts : List Receipt) : ℤ :=
  ((txs.zip receipts).map fun p => min p.1.GasTipCap (p.1.GasFeeCap - baseFee) * p.2.GasUsed).sum

/-- Every receipt has its transaction, and the fee cap of each of those covers the base fee. -/
def FeeCapsCover (baseFee : ℤ) (txs : List Transaction) (receipts : List Receipt) : Prop :=
  receipts.length ≤ txs.length ∧ ∀ tx ∈ txs.take receipts.length, baseFee ≤ tx.GasFeeCap

instance (baseFee : ℤ) (txs : List Transaction) (receipts : List Receipt) :
    Decidable (FeeCapsCover baseFee txs receipts) :=
  inferInstanceAs (Decidable (_ ∧ _))

section FeeCheck

variable {baseFee : ℤ}

@[simp] theorem blockFee_nil_right (txs : List Transaction) : blockFee baseFee txs [] = 0 := by
  simp [blockFee]

@[simp] theorem blockFee_cons (tx : Transaction) (txs : List Transaction) (r : Receipt)
    (receipts : List Receipt) :
    blockFee baseFee (tx :: txs) (r :: receipts) =
      min tx.GasTipCap (tx.GasFeeCap - baseFee) * r.GasUsed + blockFee baseFee txs receipts := by
  simp [blockFee]

@[simp] theorem feeCapsCover_nil_right (txs : List Transaction) : FeeCapsCover baseFee txs [] := by
  simp [FeeCapsCover]

@[simp] theorem not_feeCapsCover_nil (r : Receipt) (receipts : List Receipt) :
    ¬ FeeCapsCover baseFee [] (r :: receipts) := by
  simp [FeeCapsCover]

@[simp] theorem feeCapsCover_cons (tx : Transaction) (txs : List Transaction) (r : Receipt)
    (receipts : List Receipt) :
    FeeCapsCover baseFee (tx :: txs) (r :: receipts) ↔
      baseFee ≤ tx.GasFeeCap ∧ FeeCapsCover baseFee txs receipts := by
  simp only [FeeCapsCover, List.length_cons, Nat.add_le_add_iff_right, List.take_succ_cons,
    List.mem_cons, forall_eq_or_imp]
  tauto

/-- The loop adds what the transactions pay to its start, and fails exactly when a receipt has
no transaction or a fee cap is below the base fee. -/
theorem blockFeeLoop_eq_ok_iff (txs : List Transaction) (receipts : List Receipt) (s t : ℤ) :
    blockFeeLoop baseFee txs receipts s = .ok t ↔
      FeeCapsCover baseFee txs receipts ∧ t = s + blockFee baseFee txs receipts := by
  induction receipts generalizing txs s with
  | nil =>
    simp only [blockFeeLoop, Except.ok.injEq, feeCapsCover_nil_right, blockFee_nil_right,
      add_zero, true_and]
    exact eq_comm
  | cons r receipts ih =>
    cases txs with
    | nil => simp [blockFeeLoop]
    | cons tx txs =>
      simp only [blockFeeLoop, Transaction.EffectiveGasTip, feeCapsCover_cons, blockFee_cons]
      by_cases hcap : tx.GasFeeCap < baseFee
      · rw [if_pos hcap]
        simp only [reduceCtorEq, false_iff, not_and]
        intro h
        omega
      · rw [if_neg hcap, ih]
        constructor
        · rintro ⟨hcover, rfl⟩
          exact ⟨⟨by omega, hcover⟩, by ring⟩
        · rintro ⟨⟨-, hcover⟩, rfl⟩
          exact ⟨hcover, by ring⟩

theorem contributionStart_eq_ok_iff (contribution : Option ℤ) (s : ℤ) :
    contributionStart contribution = .ok s ↔ 0 ≤ contribution.getD 0 ∧ s = contribution.getD 0 := by
  cases contribution with
  | none => simp [contributionStart, eq_comm]
  | some c =>
    simp only [contributionStart, Option.getD_some]
    split_ifs with hc
    · simp only [false_iff, not_and]
      omega
    · simp only [Except.ok.injEq]
      omega

/-- Outside the skip mode, `verifyBlockFee` accepts exactly when the base fee is positive, the
block gas cost is a `uint64`, the contribution is not negative, every transaction can pay the
base fee, and the tips and the contribution together pay the block gas cost at the base fee. -/
theorem verifyBlockFee_eq_ok_iff {mode : Mode} (hmode : mode.ModeSkipBlockFee = false)
    (baseFee requiredBlockGasCost contribution : Option ℤ) (txs : List Transaction)
    (receipts : List Receipt) :
    verifyBlockFee mode baseFee requiredBlockGasCost txs receipts contribution = .ok () ↔
      ∃ b c, baseFee = some b ∧ requiredBlockGasCost = some c ∧ 0 < b ∧ IsUint64 c = true ∧
        0 ≤ contribution.getD 0 ∧ FeeCapsCover b txs receipts ∧
        c * b ≤ contribution.getD 0 + blockFee b txs receipts := by
  unfold verifyBlockFee
  rw [if_neg (by simp [hmode])]
  rcases baseFee with _ | b
  · simp
  dsimp only
  by_cases hb : b ≤ 0
  · rw [if_pos hb]
    simp only [reduceCtorEq, Option.some.injEq, false_iff, not_exists, not_and]
    omega
  rw [if_neg hb]
  rcases requiredBlockGasCost with _ | c
  · simp
  dsimp only
  by_cases hc : IsUint64 c = false
  · rw [if_pos hc]
    simp [hc]
  rw [if_neg hc]
  have hc' : IsUint64 c = true := by simpa using hc
  have hb' : 0 < b := by omega
  simp only [Option.some.injEq, exists_and_left, exists_eq_left', hb', hc', true_and]
  -- the two steps that can still fail, each by its own lemma
  split
  · next err hs =>
    simp only [reduceCtorEq, false_iff, not_and]
    intro h0
    have := (contributionStart_eq_ok_iff contribution _).mpr ⟨h0, rfl⟩
    rw [hs] at this
    cases this
  · next s hs =>
    obtain ⟨h0, rfl⟩ := (contributionStart_eq_ok_iff contribution s).mp hs
    split
    · next err ht =>
      simp only [reduceCtorEq, false_iff, not_and]
      intro _ hcover
      have := (blockFeeLoop_eq_ok_iff txs receipts (contribution.getD 0) _).mpr ⟨hcover, rfl⟩
      rw [ht] at this
      cases this
    · next t ht =>
      obtain ⟨hcover, rfl⟩ := (blockFeeLoop_eq_ok_iff txs receipts _ t).mp ht
      have hquot := Int.le_ediv_iff_mul_le (a := c)
        (b := contribution.getD 0 + blockFee b txs receipts) hb'
      simp only [h0, hcover, true_and]
      split_ifs with hlt
      · simp only [false_iff]
        exact fun hpay => absurd (hquot.mpr hpay) (not_le.mpr hlt)
      · simp only [true_iff]
        exact hquot.mp (not_lt.mp hlt)

end FeeCheck

/-! ## Both sides of the engine -/

/-- An engine whose callbacks report an atomic contribution of 10^15 and 11200 gas. -/
def sampleEngine : DummyEngine where
  cb := ⟨some fun _ _ => .ok ([7], some 1_000_000_000_000_000, some 11200),
    some fun _ => .ok (some 1_000_000_000_000_000, some 11200)⟩
  consensusMode := ⟨false⟩

/-- A block one second after `sampleParent`, at the floor fee. -/
def sampleHeader : Header :=
  ⟨2, 21000, 1, List.replicate 80 0, 48_000_000_000, none, none⟩

/-- One transaction with a tip of 500 gwei, and its receipt. -/
def sampleTxs : List Transaction := [⟨500_000_000_000, 600_000_000_000⟩]

def sampleReceipts : List Receipt := [⟨21000⟩]

/-- The block `FinalizeAndAssemble` builds from them: a block gas cost of 200000, one second
after a parent of cost zero. -/
def sampleBlock : Block :=
  ⟨{ sampleHeader with ExtDataGasUsed := some 11200, BlockGasCost := some 200000 }, sampleTxs, [7]⟩

section Engine

variable {self : DummyEngine} {config : ChainConfig} {parent : Header}
  {receipts : List Receipt}

theorem isUint64Eq_eq_true {x : Option ℤ} {y : ℤ} :
    isUint64Eq x y = true ↔ x = some y ∧ IsUint64 y = true := by
  cases x with
  | none => simp [isUint64Eq]
  | some x =>
    simp only [isUint64Eq, Bool.and_eq_true, beq_iff_eq, Option.some.injEq]
    constructor
    · rintro ⟨h, rfl⟩
      exact ⟨rfl, h⟩
    · rintro ⟨rfl, h⟩
      exact ⟨h, rfl⟩

/-- What `Finalize` checks of an ApricotPhase4 block, as facts: the callback's result, the two
header fields it fixes, and the fee check. -/
theorem Finalize_eq_ok {block : Block} (h : self.Finalize config block parent receipts = .ok ())
    (hAP4 : config.IsApricotPhase4 block.header.Time = true) :
    ∃ contribution extDataGasUsed,
      self.extraStateChange block = .ok (contribution, extDataGasUsed) ∧
      block.header.ExtDataGasUsed = some (extDataGasUsed.getD 0) ∧
      block.header.BlockGasCost = some (expectedBlockGasCost config parent block.header.Time) ∧
      verifyBlockFee self.consensusMode (some block.header.BaseFee) block.header.BlockGasCost
        block.txs receipts contribution = .ok () := by
  unfold DummyEngine.Finalize at h
  rcases hcb : self.extraStateChange block with err | ⟨contribution, extDataGasUsed⟩
  · rw [hcb] at h
    cases h
  rw [hcb] at h
  simp only [hAP4, if_true] at h
  split_ifs at h with hgas hcost
  -- the two header checks passed, so both fields hold what `Finalize` computed
  have hgas' := isUint64Eq_eq_true.mp (Bool.not_eq_false _ ▸ hgas)
  have hcost' := isUint64Eq_eq_true.mp (Bool.not_eq_false _ ▸ hcost)
  exact ⟨contribution, extDataGasUsed, rfl, hgas'.1, hcost'.1, h⟩

/-- Every block that `Finalize` accepts from ApricotPhase4 on, outside the skip mode, carries the
block gas cost of its time and the atomic gas the callback reports, has a positive base fee and
transactions whose fee caps cover it, and pays its block fee: the callback's contribution and
the transactions' tips cover `BlockGasCost` times the base fee. -/
theorem Finalize_pays_block_fee {block : Block}
    (hAP4 : config.IsApricotPhase4 block.header.Time = true)
    (hmode : self.consensusMode.ModeSkipBlockFee = false)
    (h : self.Finalize config block parent receipts = .ok ()) :
    block.header.BlockGasCost = some (expectedBlockGasCost config parent block.header.Time) ∧
      0 < block.header.BaseFee ∧ FeeCapsCover block.header.BaseFee block.txs receipts ∧
      ∃ contribution extDataGasUsed,
        self.extraStateChange block = .ok (contribution, extDataGasUsed) ∧
        block.header.ExtDataGasUsed = some (extDataGasUsed.getD 0) ∧
        0 ≤ contribution.getD 0 ∧
        expectedBlockGasCost config parent block.header.Time * block.header.BaseFee ≤
          contribution.getD 0 + blockFee block.header.BaseFee block.txs receipts := by
  obtain ⟨contribution, extDataGasUsed, hcb, hgas, hcost, hfee⟩ := Finalize_eq_ok h hAP4
  rw [hcost] at hfee
  obtain ⟨b, c, hb, hc, hpos, -, h0, hcover, hpay⟩ :=
    (verifyBlockFee_eq_ok_iff hmode _ _ _ _ _).mp hfee
  cases hb
  cases hc
  exact ⟨hcost, hpos, hcover, contribution, extDataGasUsed, hcb, hgas, h0, hpay⟩

theorem Finalize_pays_block_fee_sample :
    sampleChainConfig.IsApricotPhase4 sampleBlock.header.Time = true ∧
      sampleEngine.consensusMode.ModeSkipBlockFee = false ∧
      sampleEngine.Finalize sampleChainConfig sampleBlock sampleParent sampleReceipts = .ok () ∧
      sampleBlock.header.BlockGasCost =
        some (expectedBlockGasCost sampleChainConfig sampleParent sampleBlock.header.Time) ∧
      0 < sampleBlock.header.BaseFee ∧
      FeeCapsCover sampleBlock.header.BaseFee sampleBlock.txs sampleReceipts ∧
      ∃ contribution extDataGasUsed,
        sampleEngine.extraStateChange sampleBlock = .ok (contribution, extDataGasUsed) ∧
        sampleBlock.header.ExtDataGasUsed = some (extDataGasUsed.getD 0) ∧
        0 ≤ contribution.getD 0 ∧
        expectedBlockGasCost sampleChainConfig sampleParent sampleBlock.header.Time *
            sampleBlock.header.BaseFee ≤
          contribution.getD 0 + blockFee sampleBlock.header.BaseFee sampleBlock.txs sampleReceipts :=
  have hfin : sampleEngine.Finalize sampleChainConfig sampleBlock sampleParent sampleReceipts =
      .ok () := rfl
  ⟨rfl, rfl, hfin, Finalize_pays_block_fee rfl rfl hfin⟩

@[simp] theorem fillFeeFields_Time (header : Header) (extDataGasUsed : Option ℤ) :
    (fillFeeFields config header parent extDataGasUsed).Time = header.Time := rfl

@[simp] theorem fillFeeFields_BaseFee (header : Header) (extDataGasUsed : Option ℤ) :
    (fillFeeFields config header parent extDataGasUsed).BaseFee = header.BaseFee := rfl

@[simp] theorem fillFeeFields_BlockGasCost (header : Header) (extDataGasUsed : Option ℤ) :
    (fillFeeFields config header parent extDataGasUsed).BlockGasCost =
      some (expectedBlockGasCost config parent header.Time) := rfl

@[simp] theorem fillFeeFields_ExtDataGasUsed (header : Header) (extDataGasUsed : Option ℤ) :
    (fillFeeFields config header parent extDataGasUsed).ExtDataGasUsed =
      some (extDataGasUsed.getD 0) := rfl

/-- What `FinalizeAndAssemble` did to assemble a block: the builder's callback result, and from
ApricotPhase4 on the fee fields it filled in and the fee check it passed. -/
theorem FinalizeAndAssemble_eq_ok {header : Header} {txs : List Transaction} {block : Block}
    (h : self.FinalizeAndAssemble config header parent txs receipts = .ok block) :
    ∃ extraData contribution extDataGasUsed,
      self.finalizeAndAssembleResult header txs = .ok (extraData, contribution, extDataGasUsed) ∧
      if config.IsApricotPhase4 header.Time then
        block = ⟨fillFeeFields config header parent extDataGasUsed, txs, extraData⟩ ∧
        verifyBlockFee self.consensusMode (some header.BaseFee)
          (some (expectedBlockGasCost config parent header.Time)) txs receipts contribution = .ok ()
      else block = ⟨header, txs, extraData⟩ := by
  unfold DummyEngine.FinalizeAndAssemble at h
  rcases hres : self.finalizeAndAssembleResult header txs with err | ⟨extraData, contribution, gas⟩
  · rw [hres] at h
    cases h
  rw [hres] at h
  refine ⟨extraData, contribution, gas, rfl, ?_⟩
  split_ifs at h ⊢ with hAP4
  · -- `fillFeeFields` keeps the base fee, and sets the block gas cost `verifyBlockFee` reads
    simp only [fillFeeFields_BaseFee, fillFeeFields_BlockGasCost] at h
    rcases hfee : verifyBlockFee self.consensusMode (some header.BaseFee)
      (some (expectedBlockGasCost config parent header.Time)) txs receipts contribution with
      err | ⟨⟩
    · rw [hfee] at h
      cases h
    · rw [hfee] at h
      cases h
      exact ⟨rfl, rfl⟩
  · cases h
    rfl

/-- `Finalize` on an ApricotPhase4 block whose callback result and header fields pass is its fee
check. -/
theorem Finalize_of_fields {block : Block} {contribution extDataGasUsed : Option ℤ}
    (hcb : self.extraStateChange block = .ok (contribution, extDataGasUsed))
    (hAP4 : config.IsApricotPhase4 block.header.Time = true)
    (hgas : isUint64Eq block.header.ExtDataGasUsed (extDataGasUsed.getD 0) = true)
    (hcost : isUint64Eq block.header.BlockGasCost
      (expectedBlockGasCost config parent block.header.Time) = true) :
    self.Finalize config block parent receipts =
      verifyBlockFee self.consensusMode (some block.header.BaseFee) block.header.BlockGasCost
        block.txs receipts contribution := by
  unfold DummyEngine.Finalize
  rw [hcb]
  dsimp only
  rw [if_pos hAP4, if_neg (by simp [hgas]), if_neg (by simp [hcost])]

/-- Before ApricotPhase4, `Finalize` accepts whatever block its callback accepts. -/
theorem Finalize_of_not_AP4 {block : Block} {contribution extDataGasUsed : Option ℤ}
    (hcb : self.extraStateChange block = .ok (contribution, extDataGasUsed))
    (hAP4 : config.IsApricotPhase4 block.header.Time = false) :
    self.Finalize config block parent receipts = .ok () := by
  unfold DummyEngine.Finalize
  rw [hcb]
  dsimp only
  rw [if_neg (by simp [hAP4])]

/-- A block that `FinalizeAndAssemble` built passes `Finalize` on the same parent and receipts,
provided the verifier's callback reports, on the block, the contribution and gas that the
builder's reported, and that gas fits in 64 bits. -/
theorem Finalize_FinalizeAndAssemble {header : Header} {txs : List Transaction} {block : Block}
    (h : self.FinalizeAndAssemble config header parent txs receipts = .ok block)
    (hcb : ∀ extraData contribution extDataGasUsed,
      self.finalizeAndAssembleResult header txs = .ok (extraData, contribution, extDataGasUsed) →
        self.extraStateChange block = .ok (contribution, extDataGasUsed) ∧
          IsUint64 (extDataGasUsed.getD 0) = true) :
    self.Finalize config block parent receipts = .ok () := by
  obtain ⟨extraData, contribution, extDataGasUsed, hres, hblock⟩ := FinalizeAndAssemble_eq_ok h
  obtain ⟨hextra, hgas⟩ := hcb extraData contribution extDataGasUsed hres
  split_ifs at hblock with hAP4
  · obtain ⟨rfl, hfee⟩ := hblock
    -- the verifier recomputes the two fields the builder wrote, from the same time and parent
    rw [Finalize_of_fields hextra hAP4 (isUint64Eq_eq_true.mpr ⟨rfl, hgas⟩)
      (isUint64Eq_eq_true.mpr ⟨rfl, IsUint64_expectedBlockGasCost config parent header.Time⟩)]
    exact hfee
  · subst hblock
    exact Finalize_of_not_AP4 hextra (by simpa using hAP4)

theorem Finalize_FinalizeAndAssemble_sample :
    sampleEngine.FinalizeAndAssemble sampleChainConfig sampleHeader sampleParent sampleTxs
        sampleReceipts = .ok sampleBlock ∧
      (∀ extraData contribution extDataGasUsed,
        sampleEngine.finalizeAndAssembleResult sampleHeader sampleTxs =
            .ok (extraData, contribution, extDataGasUsed) →
          sampleEngine.extraStateChange sampleBlock = .ok (contribution, extDataGasUsed) ∧
            IsUint64 (extDataGasUsed.getD 0) = true) ∧
      sampleEngine.Finalize sampleChainConfig sampleBlock sampleParent sampleReceipts = .ok () := by
  have hbuild : sampleEngine.FinalizeAndAssemble sampleChainConfig sampleHeader sampleParent
      sampleTxs sampleReceipts = .ok sampleBlock := rfl
  have hcb : ∀ extraData contribution extDataGasUsed,
      sampleEngine.finalizeAndAssembleResult sampleHeader sampleTxs =
          .ok (extraData, contribution, extDataGasUsed) →
        sampleEngine.extraStateChange sampleBlock = .ok (contribution, extDataGasUsed) ∧
          IsUint64 (extDataGasUsed.getD 0) = true := by
    intro extraData contribution extDataGasUsed hres
    cases hres
    exact ⟨rfl, by decide⟩
  exact ⟨hbuild, hcb, Finalize_FinalizeAndAssemble hbuild hcb⟩

end Engine

end Jeth.DynamicFees
