import Mathlib

/-!
# Saturating sums of unsigned words

Go code that adds `uint64` amounts which must not wrap calls go-ethereum's `math.SafeAdd`. That
returns the wrapped sum and its carry, and the caller puts the largest word in place of a sum
that overflowed. This module gives the pattern a closed form: `satAdd M x y = min (x + y) M`,
with `M` the largest word (`SafeAddOrMax_eq`). It also proves the facts that code relies on:
- A running saturating sum is the true sum cut at `M` (`foldl_satAdd`).
- Once the sum saturates it stays saturated (`foldl_satAdd_top`), so a loop that returns `M` at
  the first overflow computes the same sum.
- The sum is monotone in every term (`satAdd_le_satAdd`, `foldl_satAdd_le_foldl_satAdd`).
-/

namespace Jeth.Saturating

/-- `math.MaxUint64`. -/
def MaxUint64 : ℕ := 2 ^ 64 - 1

/-- `math.SafeAdd`: the `uint64` sum, modulo `2^64`, and whether it overflowed. -/
def SafeAdd (x y : ℕ) : ℕ × Bool := ((x + y) % 2 ^ 64, decide (2 ^ 64 ≤ x + y))

/-- `sum, overflow := math.SafeAdd(x, y); if overflow { sum = math.MaxUint64 }`. -/
def SafeAddOrMax (x y : ℕ) : ℕ :=
  let r := SafeAdd x y
  if r.2 then MaxUint64 else r.1

/-- Addition that stops at `M`. -/
def satAdd (M x y : ℕ) : ℕ := min (x + y) M

example : SafeAddOrMax MaxUint64 1 = MaxUint64 ∧ SafeAddOrMax 2 3 = 5 := by decide

theorem SafeAddOrMax_eq (x y : ℕ) : SafeAddOrMax x y = satAdd MaxUint64 x y := by
  unfold SafeAddOrMax SafeAdd satAdd MaxUint64
  by_cases h : 2 ^ 64 ≤ x + y
  · simp only [h, decide_true, if_true]
    omega
  · simp only [h, decide_false, Bool.false_eq_true, if_false]
    rw [Nat.mod_eq_of_lt (by omega)]
    omega

variable {M : ℕ}

theorem satAdd_le (x y : ℕ) : satAdd M x y ≤ M := min_le_right _ _

theorem satAdd_le_satAdd {x x' y y' : ℕ} (hx : x ≤ x') (hy : y ≤ y') :
    satAdd M x y ≤ satAdd M x' y' := by
  unfold satAdd
  omega

/-- A saturating sum from `a ≤ M` is the true sum cut at `M`. -/
theorem foldl_satAdd {a : ℕ} (ha : a ≤ M) (l : List ℕ) :
    l.foldl (satAdd M) a = min (a + l.sum) M := by
  induction l generalizing a with
  | nil => simp [ha]
  | cons x l ih =>
    rw [List.foldl_cons, ih (satAdd_le a x), List.sum_cons]
    unfold satAdd
    omega

/-- A saturated sum stays saturated. -/
theorem foldl_satAdd_top (l : List ℕ) : l.foldl (satAdd M) M = M := by
  rw [foldl_satAdd le_rfl]
  omega

/-- A saturating sum over the terms `f i` grows with every term. -/
theorem foldl_satAdd_le_foldl_satAdd {a : ℕ} (ha : a ≤ M) {ι : Type} (l : List ι)
    {f g : ι → ℕ} (hfg : ∀ i ∈ l, f i ≤ g i) :
    (l.map f).foldl (satAdd M) a ≤ (l.map g).foldl (satAdd M) a := by
  rw [foldl_satAdd ha, foldl_satAdd ha]
  have hsum : (l.map f).sum ≤ (l.map g).sum := List.sum_le_sum hfg
  omega

end Jeth.Saturating
