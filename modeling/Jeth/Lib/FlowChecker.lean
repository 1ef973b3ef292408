import Mathlib

/-!
# Checked arithmetic and flow checking, as parameters

Two services of the node library that atomic transactions call, and whose code lies outside
what is modelled here: 64-bit arithmetic that reports an overflow as an error (its `math`
package), and a flow checker (`avax.FlowChecker`), which sums per asset the amounts a
transaction produces and the amounts it consumes and accepts when no sum overflowed and no asset
is produced beyond what is consumed.

Both are parameters, given by the laws the proofs use: `CheckedArith` says that an operation
returns the exact result when it fits in 64 bits and the overflow (underflow) error when it does
not; `FlowChecker` says that an accepting check has, for every asset, produced in total at most
what it consumed (`verify_run_le`).  The reference implementations `CheckedArith.reference` and
`FlowChecker.reference` meet the laws, and let a concrete run be evaluated.
-/

namespace Jeth

/-! ## `Except` -/

theorem except_bind_eq_ok {ε α β : Type} {x : Except ε α} {f : α → Except ε β} {b : β} :
    x >>= f = .ok b ↔ ∃ a, x = .ok a ∧ f a = .ok b := by
  cases x <;> simp [bind, Except.bind]

@[simp] theorem except_pure_eq_ok {ε α : Type} (a : α) : (pure a : Except ε α) = .ok a := rfl

@[simp] theorem except_throw_eq_error {ε α : Type} (e : ε) : (throw e : Except ε α) = .error e :=
  rfl

@[simp] theorem except_ok_bind {ε α β : Type} (a : α) (f : α → Except ε β) :
    (Except.ok a >>= f) = f a := rfl

@[simp] theorem except_error_bind {ε α β : Type} (e : ε) (f : α → Except ε β) :
    (Except.error e >>= f) = .error e := rfl

/-- Results compare by their values, so that a run on a fixed input can be checked by
evaluation. -/
instance instDecidableEqExcept {ε α : Type} [DecidableEq ε] [DecidableEq α] :
    DecidableEq (Except ε α)
  | .ok a, .ok b => decidable_of_iff (a = b) (by simp)
  | .error a, .error b => decidable_of_iff (a = b) (by simp)
  | .ok _, .error _ => isFalse (by simp)
  | .error _, .ok _ => isFalse (by simp)

/-! ## Checked arithmetic -/

/-- The text of the overflow error. -/
def errOverflow : String := "overflow"

/-- The text of the underflow error. -/
def errUnderflow : String := "underflow"

/-- Checked 64-bit arithmetic (`math.Add64`, `math.Mul64`, `math.Sub`), given by its laws: each
operation is exact when the result fits in 64 bits and fails otherwise. -/
class CheckedArith where
  add64 : ℕ → ℕ → Except String ℕ
  mul64 : ℕ → ℕ → Except String ℕ
  sub64 : ℕ → ℕ → Except String ℕ
  add64_of_lt {a b : ℕ} : a + b < 2 ^ 64 → add64 a b = .ok (a + b)
  add64_of_le {a b : ℕ} : 2 ^ 64 ≤ a + b → add64 a b = .error errOverflow
  mul64_of_lt {a b : ℕ} : a * b < 2 ^ 64 → mul64 a b = .ok (a * b)
  mul64_of_le {a b : ℕ} : 2 ^ 64 ≤ a * b → mul64 a b = .error errOverflow
  sub64_of_le {a b : ℕ} : b ≤ a → sub64 a b = .ok (a - b)
  sub64_of_lt {a b : ℕ} : a < b → sub64 a b = .error errUnderflow

export CheckedArith (add64 mul64 sub64 add64_of_lt add64_of_le mul64_of_lt mul64_of_le
  sub64_of_le sub64_of_lt)

section CheckedArith

variable [CheckedArith]

/-- A successful checked addition is the exact sum. -/
theorem add64_eq_ok {a b c : ℕ} (h : add64 a b = .ok c) : c = a + b := by
  by_cases hlt : a + b < 2 ^ 64
  · rw [add64_of_lt hlt] at h
    cases h
    rfl
  · rw [add64_of_le (not_lt.mp hlt)] at h
    cases h

/-- A successful checked addition fits in 64 bits. -/
theorem add64_lt_of_eq_ok {a b c : ℕ} (h : add64 a b = .ok c) : c < 2 ^ 64 := by
  have hc := add64_eq_ok h
  by_contra hge
  rw [add64_of_le (by omega)] at h
  cases h

/-- A successful checked multiplication is the exact product. -/
theorem mul64_eq_ok {a b c : ℕ} (h : mul64 a b = .ok c) : c = a * b := by
  by_cases hlt : a * b < 2 ^ 64
  · rw [mul64_of_lt hlt] at h
    cases h
    rfl
  · rw [mul64_of_le (not_lt.mp hlt)] at h
    cases h

/-- A successful checked subtraction does not underflow and is the exact difference. -/
theorem sub64_eq_ok {a b c : ℕ} (h : sub64 a b = .ok c) : b ≤ a ∧ c = a - b := by
  by_cases hba : b ≤ a
  · rw [sub64_of_le hba] at h
    cases h
    exact ⟨hba, rfl⟩
  · rw [sub64_of_lt (not_le.mp hba)] at h
    cases h

/-- A sum folded in checked arithmetic, when it succeeds, is the exact sum. -/
theorem foldlM_add64_eq_ok {α : Type} (f : α → ℕ) {l : List α} {start s : ℕ}
    (h : l.foldlM (fun acc a => add64 acc (f a)) start = .ok s) : s = start + (l.map f).sum := by
  induction l generalizing start with
  | nil =>
    cases h
    simp
  | cons a l ih =>
    rw [List.foldlM_cons] at h
    obtain ⟨acc, hacc, h⟩ := except_bind_eq_ok.mp h
    rw [ih h, add64_eq_ok hacc, List.map_cons, List.sum_cons, Nat.add_assoc]

/-- A sum that fits in 64 bits never overflows on the way: its partial sums are smaller. -/
theorem foldlM_add64_of_lt {α : Type} (f : α → ℕ) {l : List α} {start : ℕ}
    (h : start + (l.map f).sum < 2 ^ 64) :
    l.foldlM (fun acc a => add64 acc (f a)) start = .ok (start + (l.map f).sum) := by
  induction l generalizing start with
  | nil => simp
  | cons a l ih =>
    rw [List.map_cons, List.sum_cons, ← Nat.add_assoc] at h ⊢
    rw [List.foldlM_cons, add64_of_lt (by omega), except_ok_bind]
    exact ih h

end CheckedArith

/-! ### The reference arithmetic -/

/-- Addition that fails past `2^64`. -/
def checkedAdd64 (a b : ℕ) : Except String ℕ :=
  if a + b < 2 ^ 64 then .ok (a + b) else .error errOverflow

/-- Multiplication that fails past `2^64`. -/
def checkedMul64 (a b : ℕ) : Except String ℕ :=
  if a * b < 2 ^ 64 then .ok (a * b) else .error errOverflow

/-- Subtraction that fails below `0`. -/
def checkedSub64 (a b : ℕ) : Except String ℕ :=
  if b ≤ a then .ok (a - b) else .error errUnderflow

theorem checkedAdd64_of_lt {a b : ℕ} (h : a + b < 2 ^ 64) : checkedAdd64 a b = .ok (a + b) :=
  if_pos h

theorem checkedAdd64_of_le {a b : ℕ} (h : 2 ^ 64 ≤ a + b) :
    checkedAdd64 a b = .error errOverflow :=
  if_neg (not_lt.mpr h)

theorem checkedMul64_of_lt {a b : ℕ} (h : a * b < 2 ^ 64) : checkedMul64 a b = .ok (a * b) :=
  if_pos h

theorem checkedMul64_of_le {a b : ℕ} (h : 2 ^ 64 ≤ a * b) :
    checkedMul64 a b = .error errOverflow :=
  if_neg (not_lt.mpr h)

theorem checkedSub64_of_le {a b : ℕ} (h : b ≤ a) : checkedSub64 a b = .ok (a - b) :=
  if_pos h

theorem checkedSub64_of_lt {a b : ℕ} (h : a < b) : checkedSub64 a b = .error errUnderflow :=
  if_neg (not_le.mpr h)

/-- The reference checked arithmetic. -/
@[reducible] def CheckedArith.reference : CheckedArith :=
  ⟨checkedAdd64, checkedMul64, checkedSub64, checkedAdd64_of_lt, checkedAdd64_of_le,
    checkedMul64_of_lt, checkedMul64_of_le, checkedSub64_of_le, checkedSub64_of_lt⟩

/-! ## Flow checking -/

/-- The errors a flow check returns. -/
inductive FlowError (Asset : Type*)
  /-- The overflow error. -/
  | overflow
  /-- `ErrInsufficientFunds`, for the asset with what was consumed and produced. -/
  | insufficientFunds (assetID : Asset) (consumed produced : ℕ)

namespace FlowChecker

variable {Asset : Type*} [DecidableEq Asset]

/-- The amount a map holds for an asset, `0` when it holds none, as a Go map reads. -/
def amountOf (value : AList (fun _ : Asset => ℕ)) (assetID : Asset) : ℕ :=
  (value.lookup assetID).getD 0

/-- The exact total of an asset in a list of amounts. -/
def total (amounts : List (Asset × ℕ)) (assetID : Asset) : ℕ :=
  ((amounts.filter fun a => a.1 = assetID).map Prod.snd).sum

@[simp] theorem total_nil (assetID : Asset) : total ([] : List (Asset × ℕ)) assetID = 0 := rfl

theorem total_cons (a : Asset × ℕ) (amounts : List (Asset × ℕ)) (assetID : Asset) :
    total (a :: amounts) assetID = (if a.1 = assetID then a.2 else 0) + total amounts assetID := by
  by_cases h : a.1 = assetID <;> simp [total, h]

theorem total_append (l₁ l₂ : List (Asset × ℕ)) (assetID : Asset) :
    total (l₁ ++ l₂) assetID = total l₁ assetID + total l₂ assetID := by
  simp [total, List.filter_append]

/-- The total of an asset in amounts read off a list. -/
theorem total_map {β : Type*} (l : List β) (f : β → Asset) (g : β → ℕ) (assetID : Asset) :
    total (l.map fun b => (f b, g b)) assetID = ((l.filter fun b => f b = assetID).map g).sum := by
  simp [total, List.filter_map, Function.comp_def]

/-- Totals do not depend on the order of the amounts. -/
theorem total_of_perm {l l' : List (Asset × ℕ)} (h : l.Perm l') (assetID : Asset) :
    total l assetID = total l' assetID :=
  ((h.filter _).map _).sum_nat

theorem amountOf_insert (value : AList (fun _ : Asset => ℕ)) (a b : Asset) (x : ℕ) :
    amountOf (value.insert a x) b = if a = b then x else amountOf value b := by
  by_cases h : a = b
  · subst h; simp [amountOf, AList.lookup_insert]
  · simp [amountOf, AList.lookup_insert_ne (Ne.symm h), h]

end FlowChecker

open FlowChecker in
/-- A flow checker (`avax.FlowChecker`), given by its law: `verify produces consumes` is the
result of `NewFlowChecker()`, `Produce` of each amount produced, `Consume` of each amount
consumed, then `Verify()`; and a check that accepts has, for every asset, produced in total at
most what it consumed. -/
class FlowChecker (Asset : Type*) [DecidableEq Asset] where
  verify : List (Asset × ℕ) → List (Asset × ℕ) → Except (FlowError Asset) Unit
  verify_run_le {produces consumes : List (Asset × ℕ)} :
    verify produces consumes = .ok () → ∀ b, total produces b ≤ total consumes b

/-! ### The reference flow checker -/

/-- The state of the reference flow checker: the sums consumed and produced per asset, and the
first error recorded. -/
structure FlowSums (Asset : Type*) where
  consumed : AList (fun _ : Asset => ℕ)
  produced : AList (fun _ : Asset => ℕ)
  err : Option (FlowError Asset)

namespace FlowSums

open FlowChecker

variable {Asset : Type*} [DecidableEq Asset] [CheckedArith]

/-- An empty check. -/
def new : FlowSums Asset := ⟨∅, ∅, none⟩

/-- `value[assetID], err = math.Add64(value[assetID], amount)`: the new map, and whether the
sum overflowed, in which case the map holds `0` for the asset. -/
def add64To (value : AList (fun _ : Asset => ℕ)) (assetID : Asset) (amount : ℕ) :
    AList (fun _ : Asset => ℕ) × Bool :=
  match add64 (amountOf value assetID) amount with
  | .ok sum => (value.insert assetID sum, false)
  | .error _ => (value.insert assetID 0, true)

/-- Record the first error. -/
def record (err : Option (FlowError Asset)) (overflowed : Bool) : Option (FlowError Asset) :=
  match err with
  | some e => some e
  | none => if overflowed then some .overflow else none

/-- Add an amount consumed. -/
def consume (fc : FlowSums Asset) (assetID : Asset) (amount : ℕ) : FlowSums Asset :=
  let (consumed, overflowed) := add64To fc.consumed assetID amount
  { fc with consumed, err := record fc.err overflowed }

/-- Add an amount produced. -/
def produce (fc : FlowSums Asset) (assetID : Asset) (amount : ℕ) : FlowSums Asset :=
  let (produced, overflowed) := add64To fc.produced assetID amount
  { fc with produced, err := record fc.err overflowed }

/-- The first recorded error; otherwise the first produced asset, in the map's order, that is
produced beyond what is consumed. -/
def verify (fc : FlowSums Asset) : Except (FlowError Asset) Unit :=
  match fc.err with
  | some e => .error e
  | none =>
    match fc.produced.entries.find? (fun e => amountOf fc.consumed e.1 < e.2) with
    | some e => .error (.insufficientFunds e.1 (amountOf fc.consumed e.1) e.2)
    | none => .ok ()

/-- A check that produces `produces` and then consumes `consumes`, each amount in turn. -/
def run (produces consumes : List (Asset × ℕ)) : FlowSums Asset :=
  consumes.foldl (fun fc c => fc.consume c.1 c.2) (produces.foldl (fun fc p => fc.produce p.1 p.2) new)

/-- Without an overflow, `add64To` adds the amount to the asset's sum. -/
theorem amountOf_add64To {value : AList (fun _ : Asset => ℕ)} {a : Asset} {x : ℕ}
    (h : (add64To value a x).2 = false) (b : Asset) :
    amountOf (add64To value a x).1 b = amountOf value b + if a = b then x else 0 := by
  unfold add64To at h ⊢
  split at h
  · next sum hsum =>
    rw [amountOf_insert, add64_eq_ok hsum]
    split_ifs with hab
    · subst hab; rfl
    · rfl
  · cases h

omit [DecidableEq Asset] [CheckedArith] in
@[simp] theorem record_some (e : FlowError Asset) (overflowed : Bool) :
    record (some e) overflowed = some e := rfl

omit [DecidableEq Asset] [CheckedArith] in
theorem record_eq_none {err : Option (FlowError Asset)} {overflowed : Bool}
    (h : record err overflowed = none) : err = none ∧ overflowed = false := by
  cases err with
  | some e => simp at h
  | none => cases overflowed <;> simp_all [record]

/-- A fold of `produce` that ends without an error never overflowed, and sums exactly. -/
theorem foldl_produce_spec (produces : List (Asset × ℕ)) {fc : FlowSums Asset}
    (h : (produces.foldl (fun fc p => fc.produce p.1 p.2) fc).err = none) :
    fc.err = none ∧ ∀ b, amountOf (produces.foldl (fun fc p => fc.produce p.1 p.2) fc).produced b =
      amountOf fc.produced b + total produces b := by
  induction produces generalizing fc with
  | nil => exact ⟨h, fun b => by simp⟩
  | cons p produces ih =>
    obtain ⟨h₁, hsum⟩ := ih h
    obtain ⟨h₀, hover⟩ := record_eq_none h₁
    refine ⟨h₀, fun b => ?_⟩
    rw [List.foldl_cons, hsum b, total_cons]
    show amountOf (add64To fc.produced p.1 p.2).1 b + _ = _
    rw [amountOf_add64To hover b]
    omega

theorem foldl_produce_consumed (produces : List (Asset × ℕ)) (fc : FlowSums Asset) :
    (produces.foldl (fun fc p => fc.produce p.1 p.2) fc).consumed = fc.consumed := by
  induction produces generalizing fc with
  | nil => rfl
  | cons p produces ih => exact ih _

/-- A fold of `consume` that ends without an error never overflowed, sums exactly, and leaves
what was produced alone. -/
theorem foldl_consume_spec (consumes : List (Asset × ℕ)) {fc : FlowSums Asset}
    (h : (consumes.foldl (fun fc c => fc.consume c.1 c.2) fc).err = none) :
    fc.err = none ∧ (consumes.foldl (fun fc c => fc.consume c.1 c.2) fc).produced = fc.produced ∧
      ∀ b, amountOf (consumes.foldl (fun fc c => fc.consume c.1 c.2) fc).consumed b =
        amountOf fc.consumed b + total consumes b := by
  induction consumes generalizing fc with
  | nil => exact ⟨h, rfl, fun b => by simp⟩
  | cons c consumes ih =>
    obtain ⟨h₁, hprod, hsum⟩ := ih h
    obtain ⟨h₀, hover⟩ := record_eq_none h₁
    refine ⟨h₀, hprod, fun b => ?_⟩
    rw [List.foldl_cons, hsum b, total_cons]
    show amountOf (add64To fc.consumed c.1 c.2).1 b + _ = _
    rw [amountOf_add64To hover b]
    omega

omit [CheckedArith] in
/-- An accepting `verify` compares every produced asset with what is consumed of it. -/
theorem le_of_verify_eq_ok {fc : FlowSums Asset} (h : fc.verify = .ok ()) :
    fc.err = none ∧ ∀ b, amountOf fc.produced b ≤ amountOf fc.consumed b := by
  unfold verify at h
  split at h
  · cases h
  · next herr =>
    refine ⟨herr, fun b => ?_⟩
    split at h
    · cases h
    · next hfind =>
      -- an asset the map does not hold is produced zero times
      by_cases hb : b ∈ fc.produced
      · obtain ⟨x, hx⟩ := Option.isSome_iff_exists.mp (AList.lookup_isSome.mpr hb)
        have hmem : (⟨b, x⟩ : Sigma fun _ : Asset => ℕ) ∈ fc.produced.entries :=
          AList.mem_lookup_iff.mp hx
        have := List.find?_eq_none.mp hfind _ hmem
        simp only [decide_eq_true_eq, not_lt] at this
        simpa [amountOf, hx] using this
      · simp [amountOf, AList.lookup_eq_none.mpr hb]

/-- The reference check meets the law of `FlowChecker`. -/
theorem verify_run_le {produces consumes : List (Asset × ℕ)}
    (h : (run produces consumes).verify = .ok ()) (b : Asset) :
    total produces b ≤ total consumes b := by
  obtain ⟨herr, hle⟩ := le_of_verify_eq_ok h
  obtain ⟨herr₁, hprod, hcons⟩ := foldl_consume_spec consumes herr
  obtain ⟨-, hprod'⟩ := foldl_produce_spec produces herr₁
  have := hle b
  unfold run at this
  rw [hprod, hprod' b, hcons b, foldl_produce_consumed] at this
  simpa [new, amountOf] using this

end FlowSums

/-- The reference flow checker, over any checked arithmetic. -/
@[reducible] def FlowChecker.reference {Asset : Type*} [DecidableEq Asset] [CheckedArith] :
    FlowChecker Asset :=
  ⟨fun produces consumes => (FlowSums.run produces consumes).verify, FlowSums.verify_run_le⟩

end Jeth
