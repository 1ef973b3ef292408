import Jeth.Lib.Saturating
import Jeth.Atomic.Syncer

/-!
# The dynamic base fee (consensus/dummy/dynamic_fees.go)

From ApricotPhase3 on, a block's base fee follows the gas of the last ten seconds. The parent's
`Extra` holds a window of ten big-endian `uint64` gas counts, one per second, the newest last.
`CalcBaseFee` does three things:
- It moves the window forward by the seconds between the parent and the child (`rollWindow`).
- It adds the parent's own gas at the parent's second, saturating (`parentAddedGas`,
  `updateLongWindow`).
- It compares the window's saturating sum with the phase's gas target. At the target the parent's
  base fee is returned as it is. Otherwise the fee moves up or down by a share of the difference,
  by at least one (`changeBaseFee`), and is then kept within the phase's bounds
  (`boundBaseFee`).

The window is read through `longAt`, the gas count of one slot. The lemmas on windows say what
rolling and updating do to each slot (`rollLongWindow_slots`, `longAt_updateLongWindow`), and the
sum is the saturating library sum (`sumLongWindow_eq`). Together they give the window that
`CalcBaseFee` returns (`CalcBaseFee_window`).

The fee grows with the window's sum only while the parent's fee lies within the bounds of its
phase. At the target the early return skips the bounds, so a parent fee below the floor comes
back at the target and is raised to the floor just below it. `CalcBaseFee_fee_le_of_addedGas_le`
therefore needs `boundBaseFee` to keep the parent's fee. Two wraps of Go's fixed-width integers add to
this. `(*big.Int).Uint64` keeps only the low 64 bits of `ExtDataGasUsed`. `int(roll) * 8` wraps
for a gap of `2^60` seconds or more, and then Go either panics on a negative slice index or
moves the window by the wrong number of slots.
-/

namespace Jeth.DynamicFees

open Saturating

/-! ## Parameters, configuration and headers -/

/-- `params.DynamicFeeExtraDataSize`: ten `uint64` gas counts. -/
def DynamicFeeExtraDataSize : ℕ := 80

/-- `rollupWindow`, in seconds. -/
def rollupWindow : ℕ := 10

/-- `wrappers.LongLen`. -/
def LongLen : ℕ := 8

/-- `params.ApricotPhase3MinBaseFee`. -/
def ApricotPhase3MinBaseFee : ℤ := 75_000_000_000

/-- `params.ApricotPhase3MaxBaseFee`. -/
def ApricotPhase3MaxBaseFee : ℤ := 225_000_000_000

/-- `params.ApricotPhase4MinBaseFee`. -/
def ApricotPhase4MinBaseFee : ℤ := 25_000_000_000

/-- `params.ApricotPhase4MaxBaseFee`. -/
def ApricotPhase4MaxBaseFee : ℤ := 1_000_000_000_000

/-- `params.ApricotPhase3TargetGas`. -/
def ApricotPhase3TargetGas : ℕ := 10_000_000

/-- `params.ApricotPhase5TargetGas`. -/
def ApricotPhase5TargetGas : ℕ := 15_000_000

/-- `params.ApricotPhase4BaseFeeChangeDenominator`. -/
def ApricotPhase4BaseFeeChangeDenominator : ℕ := 12

/-- `params.ApricotPhase5BaseFeeChangeDenominator`. -/
def ApricotPhase5BaseFeeChangeDenominator : ℕ := 36

/-- `ApricotPhase3BlockGasFee`. -/
def ApricotPhase3BlockGasFee : ℕ := 1_000_000

/-- `ApricotPhase4MinBlockGasCost`. -/
def ApricotPhase4MinBlockGasCost : ℤ := 0

/-- `ApricotPhase4MaxBlockGasCost`. -/
def ApricotPhase4MaxBlockGasCost : ℤ := 1_000_000

/-- `ApricotPhase4BlockGasCostStep`. -/
def ApricotPhase4BlockGasCostStep : ℤ := 50_000

/-- `ApricotPhase4TargetBlockRate`, in seconds. -/
def ApricotPhase4TargetBlockRate : ℕ := 2

/-- `params.ChainFeeConfig`. -/
structure ChainFeeConfig where
  InitialMinBaseFee : ℤ
  PreviousMinBaseFee : ℤ
  LatestMinBaseFee : ℤ

/-- `params.ChainConfig`: the fork times the base fee reads, and the fee configuration that
`GetFeeConfig` looks up by chain id. -/
structure ChainConfig where
  ApricotPhase3BlockTimestamp : Option ℕ
  ApricotPhase4BlockTimestamp : Option ℕ
  ApricotPhase5BlockTimestamp : Option ℕ
  FeeUpdate1BlockTimestamp : Option ℕ
  FeeConfig : ChainFeeConfig

/-- `utils.IsTimestampForked`. -/
def IsTimestampForked (s : Option ℕ) (head : ℕ) : Bool :=
  match s with
  | none => false
  | some s => decide (s ≤ head)

namespace ChainConfig

variable (c : ChainConfig)

/-- `IsApricotPhase3`. -/
def IsApricotPhase3 (time : ℕ) : Bool := IsTimestampForked c.ApricotPhase3BlockTimestamp time

/-- `IsApricotPhase4`. -/
def IsApricotPhase4 (time : ℕ) : Bool := IsTimestampForked c.ApricotPhase4BlockTimestamp time

/-- `IsApricotPhase5`. -/
def IsApricotPhase5 (time : ℕ) : Bool := IsTimestampForked c.ApricotPhase5BlockTimestamp time

/-- `IsFeeUpdate1`. -/
def IsFeeUpdate1 (time : ℕ) : Bool := IsTimestampForked c.FeeUpdate1BlockTimestamp time

/-- `GetFeeConfig`: the entry of the chain's id in its table. -/
def GetFeeConfig : ChainFeeConfig := c.FeeConfig

/-- `GetCurrentBaseFee`: the floor of the base fee from ApricotPhase5 on. -/
def GetCurrentBaseFee (time : ℕ) : ℤ :=
  if c.IsFeeUpdate1 time then c.GetFeeConfig.LatestMinBaseFee
  else c.GetFeeConfig.PreviousMinBaseFee

end ChainConfig

/-- `types.Header`, with the fields `CalcBaseFee` reads. `ExtDataGasUsed` and `BlockGasCost`
are `none` for nil. -/
structure Header where
  Number : ℕ
  GasUsed : ℕ
  Time : ℕ
  Extra : Bytes
  BaseFee : ℤ
  ExtDataGasUsed : Option ℤ
  BlockGasCost : Option ℤ

/-- `(*big.Int).Uint64`: the low 64 bits of the absolute value. -/
def bigUint64 (x : ℤ) : ℕ := x.natAbs % 2 ^ 64

/-- `(*big.Int).IsUint64`. -/
def IsUint64 (x : ℤ) : Bool := decide (0 ≤ x ∧ x < 2 ^ 64)

/-- `int(x)`, and the result of `int` arithmetic: the value wrapped into the signed 64-bit range. -/
def toInt (x : ℤ) : ℤ := x.bmod (2 ^ 64)

/-! ## The window -/

/-- Go's `copy(dst, src)`: the first `min(len(dst), len(src))` elements of `dst` replaced. -/
def copy {α : Type} (dst src : List α) : List α :=
  src.take dst.length ++ dst.drop src.length

/-- `rollWindow`: the window moved forward by `roll` values of `size` bytes, zeros behind.
`roll * size` is `int` arithmetic and wraps; Go panics on the negative slice index that can
give, which the model returns as an error. -/
def rollWindow (consumptionWindow : Bytes) (size roll : ℤ) : Except String Bytes :=
  if (consumptionWindow.length : ℤ) % size ≠ 0 then
    .error ("expected consumption window length (" ++ toString consumptionWindow.length ++
      ") to be a multiple of size (" ++ toString size ++ ")")
  else
    let res := List.replicate consumptionWindow.length (0 : UInt8)
    let bound := toInt (roll * size)
    if bound > consumptionWindow.length then .ok res
    else if bound < 0 then .error "runtime error: slice bounds out of range"
    else .ok (copy res (consumptionWindow.drop bound.toNat))

/-- `rollLongWindow`. -/
def rollLongWindow (consumptionWindow : Bytes) (roll : ℤ) : Except String Bytes :=
  rollWindow consumptionWindow LongLen roll

/-- The gas count of slot `i`: `binary.BigEndian.Uint64(window[wrappers.LongLen*i:])`. -/
def longAt (window : Bytes) (i : ℕ) : ℕ :=
  bigEndianUint64 (window.drop (LongLen * i))

/-- The loop of `sumLongWindow` over the slots `is`, from the sum so far: `math.MaxUint64` at
the first overflow. -/
def sumLongWindowLoop (window : Bytes) : List ℕ → ℕ → ℕ
  | [], sum => sum
  | i :: is, sum =>
    let r := SafeAdd sum (longAt window i)
    if r.2 then MaxUint64 else sumLongWindowLoop window is r.1

/-- `sumLongWindow`. -/
def sumLongWindow (window : Bytes) (numLongs : ℕ) : ℕ :=
  sumLongWindowLoop window (List.range numLongs) 0

/-- `updateLongWindow`: the value at byte `start` gains `gasConsumed`, saturating, and is
written back with `binary.BigEndian.PutUint64`. -/
def updateLongWindow (window : Bytes) (start gasConsumed : ℕ) : Bytes :=
  let prevGasConsumed := bigEndianUint64 (window.drop start)
  let totalGasConsumed := SafeAddOrMax prevGasConsumed gasConsumed
  window.take start ++ packUInt64 totalGasConsumed ++ window.drop (start + 8)

/-! ## The fee -/

/-- `selectBigWithinBounds`: a bound that is set replaces a value beyond it, the lower one
first. -/
def selectBigWithinBounds (lowerBound : Option ℤ) (value : ℤ) (upperBound : Option ℤ) : ℤ :=
  match lowerBound, upperBound with
  | some lower, _ =>
    if value < lower then lower
    else match upperBound with
      | some upper => if value > upper then upper else value
      | none => value
  | none, some upper => if value > upper then upper else value
  | none, none => value

/-- `calcBlockGasCost`, read as `Uint64` by `CalcBaseFee`. -/
def calcBlockGasCost (targetBlockRate : ℕ)
    (minBlockGasCost maxBlockGasCost blockGasCostStep : ℤ) (parentBlockGasCost : Option ℤ)
    (parentTime currentTime : ℕ) : ℤ :=
  match parentBlockGasCost with
  | none => minBlockGasCost
  | some parentBlockGasCost =>
    let timeElapsed := if parentTime ≤ currentTime then currentTime - parentTime else 0
    let blockGasCost :=
      if timeElapsed < targetBlockRate then
        parentBlockGasCost + blockGasCostStep * ((targetBlockRate - timeElapsed : ℕ) : ℤ)
      else parentBlockGasCost - blockGasCostStep * ((timeElapsed - targetBlockRate : ℕ) : ℤ)
    let blockGasCost :=
      selectBigWithinBounds (some minBlockGasCost) blockGasCost (some maxBlockGasCost)
    if IsUint64 blockGasCost then blockGasCost else (MaxUint64 : ℤ)

/-- The gas the parent adds to its second of the window, from the `switch` on its phase: its
own gas and, from ApricotPhase4 on, its atomic gas; before ApricotPhase5 also the block gas
cost. Each sum saturates. -/
def parentAddedGas (config : ChainConfig) (parent : Header) (timestamp : ℕ) : ℕ :=
  let isApricotPhase4 := config.IsApricotPhase4 parent.Time
  let isApricotPhase5 := config.IsApricotPhase5 parent.Time
  let parentExtraStateGasUsed :=
    if isApricotPhase5 || isApricotPhase4 then (parent.ExtDataGasUsed.map bigUint64).getD 0
    else 0
  let blockGasCost :=
    if isApricotPhase5 then 0
    else if isApricotPhase4 then
      bigUint64 (calcBlockGasCost ApricotPhase4TargetBlockRate ApricotPhase4MinBlockGasCost
        ApricotPhase4MaxBlockGasCost ApricotPhase4BlockGasCostStep parent.BlockGasCost
        parent.Time timestamp)
    else ApricotPhase3BlockGasFee
  let addedGas := SafeAddOrMax parent.GasUsed parentExtraStateGasUsed
  if isApricotPhase5 = false then SafeAddOrMax addedGas blockGasCost else addedGas

/-- The two branches after the return at the target: up by a share of the excess, at least
one; or down by a share of the shortfall, at least one, taken `roll / rollupWindow` times after
a gap of more than a window. -/
def changeBaseFee (parentBaseFee : ℤ)
    (parentGasTarget baseFeeChangeDenominator roll totalGas : ℕ) : ℤ :=
  if totalGas > parentGasTarget then
    let gasUsedDelta := totalGas - parentGasTarget
    let baseFeeDelta :=
      max (parentBaseFee * gasUsedDelta / parentGasTarget / baseFeeChangeDenominator) 1
    parentBaseFee + baseFeeDelta
  else
    let gasUsedDelta := parentGasTarget - totalGas
    let baseFeeDelta :=
      max (parentBaseFee * gasUsedDelta / parentGasTarget / baseFeeChangeDenominator) 1
    let baseFeeDelta :=
      if roll > rollupWindow then baseFeeDelta * ((roll / rollupWindow : ℕ) : ℤ) else baseFeeDelta
    parentBaseFee - baseFeeDelta

/-- The `switch` that keeps the base fee within the bounds of the parent's phase. -/
def boundBaseFee (config : ChainConfig) (parentTime : ℕ) (baseFee : ℤ) : ℤ :=
  if config.IsApricotPhase5 parentTime then
    selectBigWithinBounds (some (config.GetCurrentBaseFee parentTime)) baseFee none
  else if config.IsApricotPhase4 parentTime then
    selectBigWithinBounds (some ApricotPhase4MinBaseFee) baseFee (some ApricotPhase4MaxBaseFee)
  else
    selectBigWithinBounds (some ApricotPhase3MinBaseFee) baseFee (some ApricotPhase3MaxBaseFee)

/-- The gas target of the parent's phase. -/
def parentGasTarget (config : ChainConfig) (parentTime : ℕ) : ℕ :=
  if config.IsApricotPhase5 parentTime then ApricotPhase5TargetGas else ApricotPhase3TargetGas

/-- The base fee change denominator of the parent's phase. -/
def baseFeeChangeDenominator (config : ChainConfig) (parentTime : ℕ) : ℕ :=
  if config.IsApricotPhase5 parentTime then ApricotPhase5BaseFeeChangeDenominator
  else ApricotPhase4BaseFeeChangeDenominator

/-- The rolled window with the parent's gas added at slot `rollupWindow - 1 - roll`, when the
parent's second is still in the window. -/
def addParentGas (config : ChainConfig) (parent : Header) (timestamp : ℕ)
    (newRollupWindow : Bytes) : Bytes :=
  let roll := timestamp - parent.Time
  if roll < rollupWindow then
    updateLongWindow newRollupWindow ((rollupWindow - 1 - roll) * LongLen)
      (parentAddedGas config parent timestamp)
  else newRollupWindow

/-- The base fee for a window holding `totalGas`: the parent's, returned early, at the target;
otherwise changed and kept within the phase's bounds. -/
def baseFeeOf (config : ChainConfig) (parent : Header) (timestamp totalGas : ℕ) : ℤ :=
  let target := parentGasTarget config parent.Time
  if totalGas = target then parent.BaseFee
  else boundBaseFee config parent.Time (changeBaseFee parent.BaseFee target
    (baseFeeChangeDenominator config parent.Time) (timestamp - parent.Time) totalGas)

/-- `CalcBaseFee`: the child's window and base fee. -/
def CalcBaseFee (config : ChainConfig) (parent : Header) (timestamp : ℕ) :
    Except String (Bytes × ℤ) :=
  if config.IsApricotPhase3 parent.Time = false ∨ parent.Number = 0 then
    .ok (List.replicate DynamicFeeExtraDataSize 0, config.GetFeeConfig.InitialMinBaseFee)
  else if parent.Extra.length < DynamicFeeExtraDataSize then
    .error ("expected length of parent extra data to be " ++ toString DynamicFeeExtraDataSize ++
      ", but found " ++ toString parent.Extra.length)
  else if timestamp < parent.Time then
    .error ("cannot calculate base fee for timestamp (" ++ toString timestamp ++
      ") prior to parent timestamp (" ++ toString parent.Time ++ ")")
  else
    let roll := timestamp - parent.Time
    (rollLongWindow (parent.Extra.take DynamicFeeExtraDataSize) (toInt roll)).map
      fun newRollupWindow =>
        let newRollupWindow := addParentGas config parent timestamp newRollupWindow
        (newRollupWindow,
          baseFeeOf config parent timestamp (sumLongWindow newRollupWindow rollupWindow))

/-! ## Reading the window back -/

/-- The big-endian digits `packUInt64` writes read back as the number modulo `256 ^ k`. -/
theorem foldl_packDigits (k a n : ℕ) :
    ((List.range k).reverse.map fun i => UInt8.ofNat (n / 256 ^ i % 256)).foldl
        (fun acc x => acc * 256 + x.toNat) a = a * 256 ^ k + n % 256 ^ k := by
  induction k generalizing a with
  | zero => simp [Nat.mod_one]
  | succ k ih =>
    rw [List.range_succ, List.reverse_append, List.reverse_singleton, List.singleton_append,
      List.map_cons, List.foldl_cons, ih]
    have hdigit : (UInt8.ofNat (n / 256 ^ k % 256)).toNat = n / 256 ^ k % 256 := by
      simp
    rw [hdigit, Nat.mod_pow_succ]
    ring

@[simp] theorem length_packUInt64 (n : ℕ) : (packUInt64 n).length = 8 := by
  simp [packUInt64]

/-- `binary.BigEndian.Uint64` reads back what `PutUint64` wrote. -/
theorem bigEndianUint64_packUInt64_append (n : ℕ) (rest : Bytes) :
    bigEndianUint64 (packUInt64 n ++ rest) = n % 2 ^ 64 := by
  have htake : (packUInt64 n ++ rest).take 8 = packUInt64 n :=
    List.take_append_of_le_length (by simp) |>.trans (List.take_of_length_le (by simp))
  rw [bigEndianUint64, htake, packUInt64, foldl_packDigits]
  norm_num

/-- Only the first eight bytes are read. -/
theorem bigEndianUint64_congr {b b' : Bytes} (h : b.take 8 = b'.take 8) :
    bigEndianUint64 b = bigEndianUint64 b' := by
  rw [bigEndianUint64, bigEndianUint64, h]

theorem bigEndianUint64_replicate_zero (k : ℕ) :
    bigEndianUint64 (List.replicate k 0) = 0 := by
  have hfold : ∀ m, (List.replicate m (0 : UInt8)).foldl (fun acc x => acc * 256 + x.toNat) 0 = 0 := by
    intro m
    induction m with
    | zero => rfl
    | succ m ih => rw [List.replicate_succ, List.foldl_cons]; simpa using ih
  rw [bigEndianUint64, List.take_replicate]
  exact hfold _

/-- What `updateLongWindow` writes at slot `s` is the saturating sum; the other slots read as
before. -/
theorem longAt_updateLongWindow {window : Bytes} {s : ℕ}
    (hlen : LongLen * (s + 1) ≤ window.length) (gasConsumed i : ℕ) :
    longAt (updateLongWindow window (s * LongLen) gasConsumed) i =
      if i = s then SafeAddOrMax (longAt window s) gasConsumed else longAt window i := by
  simp only [longAt, updateLongWindow, LongLen] at hlen ⊢
  rw [Nat.mul_comm s 8]
  have htake : (window.take (8 * s)).length = 8 * s := by simp; omega
  rcases lt_trichotomy i s with hi | rfl | hi
  · -- a slot in front: the same eight bytes, untouched
    rw [if_neg hi.ne]
    apply bigEndianUint64_congr
    rw [List.append_assoc, List.drop_append_of_le_length (by omega),
      List.take_append_of_le_length (by simp; omega), List.drop_take, List.take_take]
    congr 1
    omega
  · -- the slot itself: the word written is read back, below `2^64`
    have hle : SafeAddOrMax (bigEndianUint64 (window.drop (8 * i))) gasConsumed ≤ MaxUint64 := by
      rw [SafeAddOrMax_eq]
      exact satAdd_le _ _
    rw [if_pos rfl, List.append_assoc, List.drop_left' htake, bigEndianUint64_packUInt64_append,
      Nat.mod_eq_of_lt (by unfold MaxUint64 at hle; omega)]
  · -- a slot behind: the tail after the written word
    rw [if_neg hi.ne']
    simp only [List.append_assoc, List.drop_append, htake, length_packUInt64, List.drop_drop]
    rw [List.drop_eq_nil_of_le (by omega), List.drop_eq_nil_of_le (by simp; omega),
      List.nil_append, List.nil_append]
    congr 2
    omega

/-- Copying a tail into zeros of the full length leaves zeros behind it. -/
theorem copy_replicate_drop (w : Bytes) (k : ℕ) :
    copy (List.replicate w.length 0) (w.drop k) =
      w.drop k ++ List.replicate (min k w.length) 0 := by
  have htake : (w.drop k).take w.length = w.drop k := List.take_of_length_le (by simp)
  simp only [copy, List.length_replicate, List.length_drop, List.drop_replicate, htake]
  congr 2
  omega

/-- The slots of a window moved forward by `r` slots, zeros behind. -/
theorem longAt_copy_drop {w : Bytes} {n r : ℕ} (hlen : w.length = LongLen * n) (hr : r ≤ n)
    (i : ℕ) :
    longAt (copy (List.replicate w.length 0) (w.drop (LongLen * r))) i =
      if i + r < n then longAt w (i + r) else 0 := by
  rw [copy_replicate_drop]
  simp only [longAt, LongLen] at hlen ⊢
  have hdrop : (w.drop (8 * r)).length = 8 * n - 8 * r := by simp [hlen]
  split_ifs with h
  · -- the slot `i + r` of the old window
    apply bigEndianUint64_congr
    rw [List.drop_append_of_le_length (by omega), List.take_append_of_le_length (by simp; omega),
      List.drop_drop]
    congr 2
    omega
  · -- past the old window's end: zeros
    rw [List.drop_append, List.drop_eq_nil_of_le (by omega), List.nil_append, List.drop_replicate,
      bigEndianUint64_replicate_zero]

theorem longAt_replicate_zero (k i : ℕ) : longAt (List.replicate k 0) i = 0 := by
  rw [longAt, List.drop_replicate, bigEndianUint64_replicate_zero]

/-- The early return of `sumLongWindow` at the first overflow gives the saturating sum. -/
theorem sumLongWindowLoop_eq (window : Bytes) (is : List ℕ) {sum : ℕ} (hsum : sum ≤ MaxUint64) :
    sumLongWindowLoop window is sum = (is.map (longAt window)).foldl (satAdd MaxUint64) sum := by
  induction is generalizing sum with
  | nil => rfl
  | cons i is ih =>
    have hstep := SafeAddOrMax_eq sum (longAt window i)
    simp only [SafeAddOrMax] at hstep
    simp only [sumLongWindowLoop, List.map_cons, List.foldl_cons]
    split_ifs at hstep ⊢
    · rw [← hstep, foldl_satAdd_top]
    · rw [← hstep]
      exact ih (hstep ▸ satAdd_le _ _)

theorem sumLongWindow_eq (window : Bytes) (numLongs : ℕ) :
    sumLongWindow window numLongs =
      ((List.range numLongs).map (longAt window)).foldl (satAdd MaxUint64) 0 :=
  sumLongWindowLoop_eq window _ (Nat.zero_le _)

/-- Below `2^63`, `int` arithmetic does not wrap. -/
theorem toInt_of_lt {x : ℤ} (h0 : 0 ≤ x) (h : x < 2 ^ 63) : toInt x = x := by
  have h64 : (((2 ^ 64 : ℕ) : ℤ)) = 18446744073709551616 := by norm_num
  have h63 : (2 : ℤ) ^ 63 = 9223372036854775808 := by norm_num
  rw [toInt, Int.bmod_def, h64, Int.emod_eq_of_lt h0 (by omega)]
  split_ifs <;> omega

theorem length_copy_replicate_drop (w : Bytes) (k : ℕ) :
    (copy (List.replicate w.length 0) (w.drop k)).length = w.length := by
  rw [copy_replicate_drop]
  simp only [List.length_append, List.length_drop, List.length_replicate]
  omega

/-- A gap of less than `2^60` seconds rolls the window without a wrap: by `roll` slots, or to
zeros past the window. -/
theorem rollLongWindow_of_lt {w : Bytes} (hlen : w.length = DynamicFeeExtraDataSize) {roll : ℕ}
    (hroll : roll < 2 ^ 60) :
    rollLongWindow w (toInt roll) =
      .ok (if rollupWindow < roll then List.replicate w.length 0
        else copy (List.replicate w.length 0) (w.drop (LongLen * roll))) := by
  have h60 : (2 : ℕ) ^ 60 = 1152921504606846976 := by norm_num
  have hr : toInt roll = roll := toInt_of_lt (by omega) (by push_cast; norm_num; omega)
  have hb : toInt ((roll : ℤ) * LongLen) = ((LongLen * roll : ℕ) : ℤ) := by
    rw [toInt_of_lt (by simp [LongLen]) (by simp only [LongLen]; norm_num; omega)]
    push_cast
    ring
  simp only [rollLongWindow, rollWindow, hr, hb, hlen, DynamicFeeExtraDataSize]
  -- the length is a multiple of eight and the bound is not negative
  have hmul : ((80 : ℕ) : ℤ) % (LongLen : ℤ) = 0 := by decide
  simp only [hmul, ne_eq, not_true_eq_false, if_false]
  by_cases hgt : rollupWindow < roll
  · rw [if_pos hgt, if_pos (by simp only [LongLen, rollupWindow] at hgt ⊢; omega)]
  · rw [if_neg hgt, if_neg (by simp only [LongLen, rollupWindow] at hgt ⊢; omega),
      if_neg (by omega)]
    rfl

/-- The slots of the rolled window: slot `i` holds the old slot `i + roll`, and zero past the
old window's end. -/
theorem rollLongWindow_slots {w : Bytes} (hlen : w.length = DynamicFeeExtraDataSize) {roll : ℕ}
    (hroll : roll < 2 ^ 60) :
    ∃ rolled, rollLongWindow w (toInt roll) = .ok rolled ∧
      rolled.length = DynamicFeeExtraDataSize ∧
      ∀ i, longAt rolled i = if i + roll < rollupWindow then longAt w (i + roll) else 0 := by
  rw [rollLongWindow_of_lt hlen hroll]
  split_ifs with hgt
  · refine ⟨_, rfl, by simp [hlen], fun i => ?_⟩
    rw [longAt_replicate_zero, if_neg (by omega)]
  · refine ⟨_, rfl, by rw [length_copy_replicate_drop, hlen], fun i => ?_⟩
    exact longAt_copy_drop (by simp [hlen, DynamicFeeExtraDataSize, LongLen, rollupWindow])
      (by omega) i

/-- A slot inside a prefix reads as in the whole. -/
theorem longAt_take {l : Bytes} {k j : ℕ} (h : LongLen * (j + 1) ≤ k) :
    longAt (l.take k) j = longAt l j := by
  apply bigEndianUint64_congr
  rw [List.drop_take, List.take_take]
  simp only [LongLen] at h ⊢
  congr 1
  omega

theorem length_updateLongWindow {window : Bytes} {start : ℕ} (h : start + 8 ≤ window.length)
    (gasConsumed : ℕ) : (updateLongWindow window start gasConsumed).length = window.length := by
  simp only [updateLongWindow, List.length_append, List.length_take, length_packUInt64,
    List.length_drop]
  omega

theorem rollWindow_length {consumptionWindow res : Bytes} {size roll : ℤ}
    (h : rollWindow consumptionWindow size roll = .ok res) :
    res.length = consumptionWindow.length := by
  simp only [rollWindow] at h
  split_ifs at h <;> simp only [Except.ok.injEq] at h <;> subst h
  · simp
  · exact length_copy_replicate_drop _ _

/-! ## The window `CalcBaseFee` returns -/

/-- Past the checks, `CalcBaseFee` adds the parent's gas to the rolled window and reads the fee
off the sum. -/
theorem CalcBaseFee_eq {config : ChainConfig} {parent : Header} {timestamp : ℕ}
    (hAP3 : config.IsApricotPhase3 parent.Time = true) (hnum : parent.Number ≠ 0)
    (hextra : DynamicFeeExtraDataSize ≤ parent.Extra.length) (ht : parent.Time ≤ timestamp) :
    CalcBaseFee config parent timestamp =
      (rollLongWindow (parent.Extra.take DynamicFeeExtraDataSize)
          (toInt (timestamp - parent.Time : ℕ))).map fun w =>
        (addParentGas config parent timestamp w, baseFeeOf config parent timestamp
          (sumLongWindow (addParentGas config parent timestamp w) rollupWindow)) := by
  simp [CalcBaseFee, hAP3, hnum, not_lt.mpr hextra, not_lt.mpr ht]

/-- The slot the parent's window moves into slot `i`, `roll` seconds on: the old slot
`i + roll`, or zero past the old window's end. -/
def shiftedLong (window : Bytes) (roll i : ℕ) : ℕ :=
  if i + roll < rollupWindow then longAt window (i + roll) else 0

/-- The window `CalcBaseFee` returns for a gap of less than `2^60` seconds: every slot holds the
parent's slot it moved from, and the parent's second, while inside the window, also the
parent's gas. -/
theorem CalcBaseFee_window {config : ChainConfig} {parent : Header} {timestamp : ℕ}
    (hAP3 : config.IsApricotPhase3 parent.Time = true) (hnum : parent.Number ≠ 0)
    (hextra : DynamicFeeExtraDataSize ≤ parent.Extra.length) (ht : parent.Time ≤ timestamp)
    (hroll : timestamp - parent.Time < 2 ^ 60) :
    ∃ w f, CalcBaseFee config parent timestamp = .ok (w, f) ∧
      w.length = DynamicFeeExtraDataSize ∧
      ∀ i, longAt w i =
        if timestamp - parent.Time < rollupWindow ∧ i = rollupWindow - 1 - (timestamp - parent.Time)
        then SafeAddOrMax (shiftedLong parent.Extra (timestamp - parent.Time) i)
          (parentAddedGas config parent timestamp)
        else shiftedLong parent.Extra (timestamp - parent.Time) i := by
  have hlen : (parent.Extra.take DynamicFeeExtraDataSize).length = DynamicFeeExtraDataSize := by
    simpa using hextra
  obtain ⟨rolled, hrolled, hrlen, hslots⟩ := rollLongWindow_slots hlen hroll
  -- the rolled slots, read in the parent's own window
  have hshift : ∀ i, longAt rolled i = shiftedLong parent.Extra (timestamp - parent.Time) i := by
    intro i
    rw [hslots, shiftedLong]
    split_ifs with hi
    · exact longAt_take (by simp only [LongLen, DynamicFeeExtraDataSize, rollupWindow] at hi ⊢; omega)
    · rfl
  rw [CalcBaseFee_eq hAP3 hnum hextra ht, hrolled]
  -- the parent's slot, while inside the window
  have hslot : timestamp - parent.Time < rollupWindow →
      LongLen * (rollupWindow - 1 - (timestamp - parent.Time) + 1) ≤ rolled.length := by
    simp only [hrlen, LongLen, DynamicFeeExtraDataSize, rollupWindow]
    omega
  refine ⟨_, _, rfl, ?_, fun i => ?_⟩
  · simp only [addParentGas]
    split_ifs with hr
    · have h8 := hslot hr
      rw [length_updateLongWindow (by simp only [LongLen] at h8 ⊢; omega), hrlen]
    · exact hrlen
  · simp only [addParentGas]
    by_cases hr : timestamp - parent.Time < rollupWindow
    · rw [if_pos hr, longAt_updateLongWindow (hslot hr), hshift, hshift]
      simp only [hr, true_and]
      split_ifs with hi
      · rw [hi]
      · rfl
    · rw [if_neg hr, hshift, if_neg (by tauto)]

/-! ## The fee grows with the window's sum -/

/-- Clamping to bounds in order keeps the order of values. -/
theorem selectBigWithinBounds_mono {lowerBound upperBound : Option ℤ}
    (hb : ∀ lower ∈ lowerBound, ∀ upper ∈ upperBound, lower ≤ upper) {v v' : ℤ} (h : v ≤ v') :
    selectBigWithinBounds lowerBound v upperBound ≤
      selectBigWithinBounds lowerBound v' upperBound := by
  cases lowerBound with
  | none =>
    cases upperBound with
    | none => exact h
    | some upper =>
      simp only [selectBigWithinBounds]
      split_ifs <;> omega
  | some lower =>
    cases upperBound with
    | none =>
      simp only [selectBigWithinBounds]
      split_ifs <;> omega
    | some upper =>
      have hlu : lower ≤ upper := hb lower rfl upper rfl
      simp only [selectBigWithinBounds]
      split_ifs <;> omega

theorem boundBaseFee_mono (config : ChainConfig) (parentTime : ℕ) {v v' : ℤ} (h : v ≤ v') :
    boundBaseFee config parentTime v ≤ boundBaseFee config parentTime v' := by
  unfold boundBaseFee
  split_ifs
  · exact selectBigWithinBounds_mono (by simp) h
  · exact selectBigWithinBounds_mono
      (by simp [ApricotPhase4MinBaseFee, ApricotPhase4MaxBaseFee]) h
  · exact selectBigWithinBounds_mono
      (by simp [ApricotPhase3MinBaseFee, ApricotPhase3MaxBaseFee]) h

section Change

variable {parentBaseFee : ℤ} {target denominator : ℕ} (roll : ℕ)

/-- Below the target the fee falls by at least one. -/
theorem changeBaseFee_le_of_le {totalGas : ℕ} (h : totalGas ≤ target) :
    changeBaseFee parentBaseFee target denominator roll totalGas ≤ parentBaseFee - 1 := by
  unfold changeBaseFee
  rw [if_neg (by omega)]
  dsimp only
  have hδ : 1 ≤ max (parentBaseFee * ((target - totalGas : ℕ) : ℤ) / target / denominator) 1 :=
    le_max_right _ _
  split_ifs with hroll
  · -- after a gap of more than a window the fall is taken `roll / rollupWindow ≥ 1` times
    have hm : (1 : ℤ) ≤ ((roll / rollupWindow : ℕ) : ℤ) := by
      simp only [rollupWindow] at hroll ⊢
      omega
    nlinarith
  · omega

/-- Above the target the fee rises by at least one. -/
theorem le_changeBaseFee_of_lt {totalGas : ℕ} (h : target < totalGas) :
    parentBaseFee + 1 ≤ changeBaseFee parentBaseFee target denominator roll totalGas := by
  unfold changeBaseFee
  rw [if_pos h]
  dsimp only
  have hδ : 1 ≤ max (parentBaseFee * ((totalGas - target : ℕ) : ℤ) / target / denominator) 1 :=
    le_max_right _ _
  omega

variable (hB : 0 ≤ parentBaseFee) (htarget : 0 < target) (hden : 0 < denominator)
include hB htarget hden

/-- The share of a gas difference the fee moves by grows with the difference. -/
theorem share_le_share {δ₁ δ₂ : ℕ} (h : δ₁ ≤ δ₂) :
    parentBaseFee * (δ₁ : ℤ) / target / denominator ≤
      parentBaseFee * (δ₂ : ℤ) / target / denominator := by
  apply Int.ediv_le_ediv (by exact_mod_cast hden)
  apply Int.ediv_le_ediv (by exact_mod_cast htarget)
  exact mul_le_mul_of_nonneg_left (by exact_mod_cast h) hB

/-- Below the target, the fee falls less the closer the sum comes to it. -/
theorem changeBaseFee_mono_of_le {T₁ T₂ : ℕ} (h : T₁ ≤ T₂) (h₂ : T₂ ≤ target) :
    changeBaseFee parentBaseFee target denominator roll T₁ ≤
      changeBaseFee parentBaseFee target denominator roll T₂ := by
  unfold changeBaseFee
  rw [if_neg (by omega), if_neg (by omega)]
  dsimp only
  have hδ := max_le_max (share_le_share hB htarget hden (by omega : target - T₂ ≤ target - T₁))
    (le_refl (1 : ℤ))
  split_ifs
  · have hm : (0 : ℤ) ≤ ((roll / rollupWindow : ℕ) : ℤ) := by positivity
    have := mul_le_mul_of_nonneg_right hδ hm
    linarith
  · linarith

/-- Above the target, the fee rises more the further the sum passes it. -/
theorem changeBaseFee_mono_of_lt {T₁ T₂ : ℕ} (h₁ : target < T₁) (h : T₁ ≤ T₂) :
    changeBaseFee parentBaseFee target denominator roll T₁ ≤
      changeBaseFee parentBaseFee target denominator roll T₂ := by
  unfold changeBaseFee
  rw [if_pos h₁, if_pos (by omega)]
  dsimp only
  have hδ := max_le_max (share_le_share hB htarget hden (by omega : T₁ - target ≤ T₂ - target))
    (le_refl (1 : ℤ))
  linarith

end Change

/-- The fee grows with the window's sum while the bounds of the parent's phase keep the parent's
fee: the early return at the target then agrees with the bounded fee around it. -/
theorem baseFeeOf_mono {config : ChainConfig} {parent : Header} {timestamp : ℕ}
    (hB : 0 ≤ parent.BaseFee)
    (hbound : boundBaseFee config parent.Time parent.BaseFee = parent.BaseFee)
    {T₁ T₂ : ℕ} (h : T₁ ≤ T₂) :
    baseFeeOf config parent timestamp T₁ ≤ baseFeeOf config parent timestamp T₂ := by
  have htarget : 0 < parentGasTarget config parent.Time := by
    unfold parentGasTarget
    split_ifs <;> decide
  have hden : 0 < baseFeeChangeDenominator config parent.Time := by
    unfold baseFeeChangeDenominator
    split_ifs <;> decide
  unfold baseFeeOf
  dsimp only
  have hbelow := fun (T : ℕ) (hT : T ≤ parentGasTarget config parent.Time) =>
    @changeBaseFee_le_of_le parent.BaseFee _ (baseFeeChangeDenominator config parent.Time)
      (timestamp - parent.Time) T hT
  have habove := fun (T : ℕ) (hT : parentGasTarget config parent.Time < T) =>
    @le_changeBaseFee_of_lt parent.BaseFee _ (baseFeeChangeDenominator config parent.Time)
      (timestamp - parent.Time) T hT
  rcases lt_trichotomy T₁ (parentGasTarget config parent.Time) with h₁ | h₁ | h₁
  · rw [if_neg h₁.ne]
    rcases lt_trichotomy T₂ (parentGasTarget config parent.Time) with h₂ | h₂ | h₂
    · rw [if_neg h₂.ne]
      exact boundBaseFee_mono _ _ (changeBaseFee_mono_of_le _ hB htarget hden h h₂.le)
    · -- just below the target against the parent's fee, returned at it
      rw [if_pos h₂]
      have hlow := hbelow T₁ h₁.le
      calc _ ≤ boundBaseFee config parent.Time parent.BaseFee :=
            boundBaseFee_mono _ _ (by linarith)
        _ = parent.BaseFee := hbound
    · rw [if_neg h₂.ne']
      have hlow := hbelow T₁ h₁.le
      have hhigh := habove T₂ h₂
      exact boundBaseFee_mono _ _ (by linarith)
  · rw [if_pos h₁]
    rcases eq_or_lt_of_le (h₁ ▸ h) with h₂ | h₂
    · rw [if_pos h₂.symm]
    · -- the parent's fee, returned at the target, against the fee just above it
      rw [if_neg h₂.ne']
      have hhigh := habove T₂ h₂
      calc parent.BaseFee = boundBaseFee config parent.Time parent.BaseFee := hbound.symm
        _ ≤ _ := boundBaseFee_mono _ _ (by linarith)
  · rw [if_neg h₁.ne', if_neg (by omega)]
    exact boundBaseFee_mono _ _ (changeBaseFee_mono_of_lt _ hB htarget hden h₁ h)

/-! ## The fee grows with the parent's gas -/

/-- A `uint64` reads back whole. -/
theorem bigUint64_of_lt {x : ℤ} (h0 : 0 ≤ x) (h : x < 2 ^ 64) : bigUint64 x = x.toNat := by
  unfold bigUint64
  rw [Nat.mod_eq_of_lt (by omega)]
  omega

/-- A parent with more gas, or more atomic gas, adds more to the window. -/
theorem parentAddedGas_mono {config : ChainConfig} {p₁ p₂ : Header} {timestamp : ℕ}
    (hTime : p₁.Time = p₂.Time) (hcost : p₁.BlockGasCost = p₂.BlockGasCost)
    (hgas : p₁.GasUsed ≤ p₂.GasUsed)
    (hext : (p₁.ExtDataGasUsed.map bigUint64).getD 0 ≤ (p₂.ExtDataGasUsed.map bigUint64).getD 0) :
    parentAddedGas config p₁ timestamp ≤ parentAddedGas config p₂ timestamp := by
  simp only [parentAddedGas, hTime, hcost, SafeAddOrMax_eq]
  -- the same phase for both: the sums differ only in the parent's own gas counts
  -- one goal per phase, the same phase on both sides: the sums differ only in the parent's gas
  -- counts, so each goal splits into `hgas`, `hext` and equal terms
  split_ifs <;>
    repeat' (first | apply satAdd_le_satAdd | exact hgas | exact hext | exact le_rfl)

/-- More gas added at the parent's second makes a larger window sum. -/
theorem sumLongWindow_addParentGas_mono {config : ChainConfig} {p₁ p₂ : Header}
    {timestamp : ℕ} (hTime : p₁.Time = p₂.Time)
    (hadded : parentAddedGas config p₁ timestamp ≤ parentAddedGas config p₂ timestamp)
    {w : Bytes} (hlen : w.length = DynamicFeeExtraDataSize) :
    sumLongWindow (addParentGas config p₁ timestamp w) rollupWindow ≤
      sumLongWindow (addParentGas config p₂ timestamp w) rollupWindow := by
  simp only [addParentGas, hTime]
  split_ifs with hr
  · rw [sumLongWindow_eq, sumLongWindow_eq]
    apply foldl_satAdd_le_foldl_satAdd (Nat.zero_le _)
    intro i _
    have hslot : LongLen * (rollupWindow - 1 - (timestamp - p₂.Time) + 1) ≤ w.length := by
      simp only [hlen, LongLen, DynamicFeeExtraDataSize, rollupWindow] at hr ⊢
      omega
    rw [longAt_updateLongWindow hslot, longAt_updateLongWindow hslot]
    split_ifs
    · rw [SafeAddOrMax_eq, SafeAddOrMax_eq]
      exact satAdd_le_satAdd le_rfl hadded
    · exact le_rfl
  · exact le_rfl

theorem baseFeeOf_congr {config : ChainConfig} {p₁ p₂ : Header} (hTime : p₁.Time = p₂.Time)
    (hBaseFee : p₁.BaseFee = p₂.BaseFee) (timestamp totalGas : ℕ) :
    baseFeeOf config p₁ timestamp totalGas = baseFeeOf config p₂ timestamp totalGas := by
  simp only [baseFeeOf, hTime, hBaseFee]

/-- Of two parents that differ only in the gas they add to the window, the one that adds more
gets the higher fee, while the parent's fee lies within the bounds of its phase. Both return or
neither does: the checks and the roll read neither gas count. -/
theorem CalcBaseFee_fee_le_of_addedGas_le {config : ChainConfig} {p₁ p₂ : Header}
    {timestamp : ℕ} (hTime : p₁.Time = p₂.Time) (hNumber : p₁.Number = p₂.Number)
    (hExtra : p₁.Extra = p₂.Extra) (hBaseFee : p₁.BaseFee = p₂.BaseFee)
    (hB : 0 ≤ p₁.BaseFee) (hbound : boundBaseFee config p₁.Time p₁.BaseFee = p₁.BaseFee)
    (hadded : parentAddedGas config p₁ timestamp ≤ parentAddedGas config p₂ timestamp)
    {w₁ : Bytes} {f₁ : ℤ} (h₁ : CalcBaseFee config p₁ timestamp = .ok (w₁, f₁)) :
    ∃ w₂ f₂, CalcBaseFee config p₂ timestamp = .ok (w₂, f₂) ∧ f₁ ≤ f₂ := by
  unfold CalcBaseFee at h₁ ⊢
  rw [← hTime, ← hNumber, ← hExtra]
  by_cases hinit : config.IsApricotPhase3 p₁.Time = false ∨ p₁.Number = 0
  · -- before ApricotPhase3, or after genesis: the initial fee for both
    rw [if_pos hinit] at h₁ ⊢
    cases h₁
    exact ⟨_, _, rfl, le_rfl⟩
  rw [if_neg hinit] at h₁ ⊢
  by_cases hshort : p₁.Extra.length < DynamicFeeExtraDataSize
  · rw [if_pos hshort] at h₁
    cases h₁
  rw [if_neg hshort] at h₁ ⊢
  by_cases hearly : timestamp < p₁.Time
  · rw [if_pos hearly] at h₁
    cases h₁
  rw [if_neg hearly] at h₁ ⊢
  dsimp only at h₁ ⊢
  cases hroll : rollLongWindow (p₁.Extra.take DynamicFeeExtraDataSize)
      (toInt (timestamp - p₁.Time : ℕ)) with
  | error e =>
    rw [hroll] at h₁
    cases h₁
  | ok w =>
    rw [hroll] at h₁
    simp only [Except.map, Except.ok.injEq, Prod.mk.injEq] at h₁
    obtain ⟨-, rfl⟩ := h₁
    have hlen : w.length = DynamicFeeExtraDataSize := by
      rw [rollWindow_length hroll]
      simpa using not_lt.mp hshort
    refine ⟨_, _, rfl, ?_⟩
    rw [baseFeeOf_congr hTime.symm hBaseFee.symm]
    exact baseFeeOf_mono hB hbound (sumLongWindow_addParentGas_mono hTime hadded hlen)

/-! ## Monotone in congestion -/

/-- The base fee grows with the parent's gas and with its atomic gas, every other field fixed,
while the parent's fee lies within the bounds of its phase and the atomic gas is a `uint64`. For
a gap of less than `2^60` seconds the window is the parent's, moved forward by the gap, with the
parent's gas added at its own second while that is still inside. -/
theorem CalcBaseFee_monotone_in_gas (config : ChainConfig) (parent : Header) (timestamp : ℕ)
    (hAP3 : config.IsApricotPhase3 parent.Time = true) (hnum : parent.Number ≠ 0)
    (hextra : DynamicFeeExtraDataSize ≤ parent.Extra.length) (hB : 0 < parent.BaseFee)
    (hbound : boundBaseFee config parent.Time parent.BaseFee = parent.BaseFee)
    (ht : parent.Time ≤ timestamp) :
    (∀ g₁ g₂ w₁ f₁, g₁ ≤ g₂ →
      CalcBaseFee config { parent with GasUsed := g₁ } timestamp = .ok (w₁, f₁) →
      ∃ w₂ f₂, CalcBaseFee config { parent with GasUsed := g₂ } timestamp = .ok (w₂, f₂) ∧
        f₁ ≤ f₂) ∧
    (∀ e₁ e₂ w₁ f₁, 0 ≤ e₁ → e₁ ≤ e₂ → e₂ < 2 ^ 64 →
      CalcBaseFee config { parent with ExtDataGasUsed := some e₁ } timestamp = .ok (w₁, f₁) →
      ∃ w₂ f₂,
        CalcBaseFee config { parent with ExtDataGasUsed := some e₂ } timestamp = .ok (w₂, f₂) ∧
          f₁ ≤ f₂) ∧
    (timestamp - parent.Time < 2 ^ 60 →
      ∃ w f, CalcBaseFee config parent timestamp = .ok (w, f) ∧
        w.length = DynamicFeeExtraDataSize ∧
        ∀ i, longAt w i =
          if timestamp - parent.Time < rollupWindow ∧
              i = rollupWindow - 1 - (timestamp - parent.Time)
          then SafeAddOrMax (shiftedLong parent.Extra (timestamp - parent.Time) i)
            (parentAddedGas config parent timestamp)
          else shiftedLong parent.Extra (timestamp - parent.Time) i) := by
  refine ⟨fun g₁ g₂ w₁ f₁ hg h₁ => ?_, fun e₁ e₂ w₁ f₁ he₁ he he₂ h₁ => ?_,
    fun hroll => CalcBaseFee_window hAP3 hnum hextra ht hroll⟩
  · exact @CalcBaseFee_fee_le_of_addedGas_le config { parent with GasUsed := g₁ }
      { parent with GasUsed := g₂ } timestamp rfl rfl rfl rfl hB.le hbound
      (parentAddedGas_mono rfl rfl hg le_rfl) w₁ f₁ h₁
  · -- two `uint64` atomic gas counts read back whole
    have hext : bigUint64 e₁ ≤ bigUint64 e₂ := by
      rw [bigUint64_of_lt he₁ (by omega), bigUint64_of_lt (by omega) he₂]
      omega
    exact @CalcBaseFee_fee_le_of_addedGas_le config { parent with ExtDataGasUsed := some e₁ }
      { parent with ExtDataGasUsed := some e₂ } timestamp rfl rfl rfl rfl hB.le hbound
      (parentAddedGas_mono rfl rfl le_rfl hext) w₁ f₁ h₁

/-- A chain with every Apricot phase from time zero and a floor of 48 gwei. -/
def sampleChainConfig : ChainConfig where
  ApricotPhase3BlockTimestamp := some 0
  ApricotPhase4BlockTimestamp := some 0
  ApricotPhase5BlockTimestamp := some 0
  FeeUpdate1BlockTimestamp := none
  FeeConfig := ⟨48_000_000_000, 48_000_000_000, 48_000_000_000⟩

/-- A parent at time zero with an empty window and the floor as its fee. -/
def sampleParent : Header :=
  ⟨1, 0, 0, List.replicate 80 0, 48_000_000_000, some 0, some 0⟩

theorem CalcBaseFee_monotone_in_gas_sample :
    sampleChainConfig.IsApricotPhase3 sampleParent.Time = true ∧ sampleParent.Number ≠ 0 ∧
      DynamicFeeExtraDataSize ≤ sampleParent.Extra.length ∧ 0 < sampleParent.BaseFee ∧
      boundBaseFee sampleChainConfig sampleParent.Time sampleParent.BaseFee =
        sampleParent.BaseFee ∧ sampleParent.Time ≤ 1 ∧
      ((∀ g₁ g₂ w₁ f₁, g₁ ≤ g₂ →
        CalcBaseFee sampleChainConfig { sampleParent with GasUsed := g₁ } 1 = .ok (w₁, f₁) →
        ∃ w₂ f₂, CalcBaseFee sampleChainConfig { sampleParent with GasUsed := g₂ } 1 =
          .ok (w₂, f₂) ∧ f₁ ≤ f₂) ∧
      (∀ e₁ e₂ w₁ f₁, 0 ≤ e₁ → e₁ ≤ e₂ → e₂ < 2 ^ 64 →
        CalcBaseFee sampleChainConfig { sampleParent with ExtDataGasUsed := some e₁ } 1 =
          .ok (w₁, f₁) →
        ∃ w₂ f₂, CalcBaseFee sampleChainConfig { sampleParent with ExtDataGasUsed := some e₂ } 1 =
          .ok (w₂, f₂) ∧ f₁ ≤ f₂) ∧
      (1 - sampleParent.Time < 2 ^ 60 →
        ∃ w f, CalcBaseFee sampleChainConfig sampleParent 1 = .ok (w, f) ∧
          w.length = DynamicFeeExtraDataSize ∧
          ∀ i, longAt w i =
            if 1 - sampleParent.Time < rollupWindow ∧ i = rollupWindow - 1 - (1 - sampleParent.Time)
            then SafeAddOrMax (shiftedLong sampleParent.Extra (1 - sampleParent.Time) i)
              (parentAddedGas sampleChainConfig sampleParent 1)
            else shiftedLong sampleParent.Extra (1 - sampleParent.Time) i)) := by
  have hAP3 : sampleChainConfig.IsApricotPhase3 sampleParent.Time = true := rfl
  have hnum : sampleParent.Number ≠ 0 := by decide
  have hextra : DynamicFeeExtraDataSize ≤ sampleParent.Extra.length := by decide
  have hB : 0 < sampleParent.BaseFee := by decide
  have hbound : boundBaseFee sampleChainConfig sampleParent.Time sampleParent.BaseFee =
      sampleParent.BaseFee := by decide
  have ht : sampleParent.Time ≤ 1 := by decide
  exact ⟨hAP3, hnum, hextra, hB, hbound, ht,
    CalcBaseFee_monotone_in_gas sampleChainConfig sampleParent 1 hAP3 hnum hextra hB hbound ht⟩

/-- A parent at time zero whose fee, 25 gwei, lies below the chain's floor of 48 gwei. -/
def belowFloorParent (gasUsed : ℕ) : Header :=
  ⟨1, gasUsed, 0, List.replicate 80 0, 25_000_000_000, some 0, some 0⟩

/-- A parent at time zero with the atomic gas `e`. -/
def atomicGasParent (e : ℤ) : Header :=
  ⟨1, 0, 0, List.replicate 80 0, 48_000_000_000, some e, some 0⟩

/-- A parent at time zero whose window holds 7 in its second slot. -/
def slotParent : Header :=
  ⟨1, 0, 0, packUInt64 0 ++ packUInt64 7 ++ List.replicate 64 0, 48_000_000_000, some 0, some 0⟩

/-- The fee is not monotone once the parent's fee lies outside the chain's bounds, the atomic gas
reaches `2^64`, or the time since the parent wraps `int(roll) * 8`. A parent fee below the floor is
returned as it is at the target, but raised to the floor one gas below it. An atomic gas of
`2^64` reads as zero and gives a lower fee than `2^64 - 1`. A gap of `2^61 + 1` seconds wraps
`int(roll) * 8` to 8, so the window moves by one slot instead of emptying. -/
theorem CalcBaseFee_not_monotone_outside_bounds :
    (CalcBaseFee sampleChainConfig (belowFloorParent 14_999_999) 0).map Prod.snd =
        .ok 48_000_000_000 ∧
      (CalcBaseFee sampleChainConfig (belowFloorParent 15_000_000) 0).map Prod.snd =
        .ok 25_000_000_000 ∧
      (CalcBaseFee sampleChainConfig (atomicGasParent (2 ^ 64 - 1)) 0).map Prod.snd =
        .ok 1639710584376404588000 ∧
      (CalcBaseFee sampleChainConfig (atomicGasParent (2 ^ 64)) 0).map Prod.snd =
        .ok 48_000_000_000 ∧
      CalcBaseFee sampleChainConfig slotParent (2 ^ 61 + 1) =
        .ok (packUInt64 7 ++ List.replicate 72 0, 48_000_000_000) := by
  refine ⟨?_, ?_, ?_, ?_, ?_⟩ <;> rfl

end Jeth.DynamicFees
