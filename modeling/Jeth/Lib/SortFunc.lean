import Mathlib

/-!
# Sorting with a three-way comparison

Go code sorts with `slices.SortFunc(s, cmp)`, where `cmp a b` is negative, zero or positive, and
a type that sorts itself defines a `Compare` method, often by comparing a key of its values
with `<` and `>`. `sortFunc` models the sort by merge sort, which puts `a` before `b` when
`cmp a b` is not positive; Go's sort is an unstable quicksort. On a list whose keys are pairwise
distinct the two agree: every permutation of such a list that is sorted by key is the same list
(`eq_of_perm_of_pairwise_key`), so the output of any sort is `sortFunc`'s
(`eq_sortFunc_compareBy`), and the output does not depend on the order of the input
(`sortFunc_compareBy_eq_of_perm`).
-/

namespace Jeth

variable {α β : Type*}

/-- `slices.SortFunc(s, cmp)`, by merge sort: `a` goes before `b` when `cmp a b` is not
`+1`. -/
def sortFunc (cmp : α → α → Ordering) (l : List α) : List α :=
  l.mergeSort fun a b => cmp a b != .gt

theorem sortFunc_perm (cmp : α → α → Ordering) (l : List α) : (sortFunc cmp l).Perm l :=
  List.mergeSort_perm l _

/-- Sorting pairs keeps their first components, in some order, when every first component has
a partner. -/
theorem map_fst_sortFunc_zip_perm (cmp : α × β → α × β → Ordering) {l : List α} {m : List β}
    (h : l.length ≤ m.length) : ((sortFunc cmp (l.zip m)).map Prod.fst).Perm l := by
  have hperm := (sortFunc_perm cmp (l.zip m)).map Prod.fst
  rwa [List.map_fst_zip h] at hperm

/-- A list of at most one element is sorted already. -/
theorem sortFunc_of_length_le_one (cmp : α → α → Ordering) :
    ∀ {l : List α}, l.length ≤ 1 → sortFunc cmp l = l
  | [], _ => List.mergeSort_nil
  | [a], _ => List.mergeSort_singleton a
  | _ :: _ :: _, h => absurd h (by simp)

section CompareBy

variable [LinearOrder β] (key : α → β)

/-- A `Compare` method that orders values by a key: `-1` below, `+1` above, `0` otherwise. -/
def compareBy (a b : α) : Ordering :=
  if key a < key b then .lt else if key a > key b then .gt else .eq

theorem compareBy_ne_gt_iff {a b : α} : compareBy key a b ≠ .gt ↔ key a ≤ key b := by
  unfold compareBy
  split_ifs with hlt hgt
  · simp [hlt.le]
  · simp [not_le.mpr hgt]
  · simp [not_lt.mp hgt]

theorem compareBy_eq_lt_iff {a b : α} : compareBy key a b = .lt ↔ key a < key b := by
  unfold compareBy
  split_ifs with hlt hgt <;> simp [hlt]

/-- `sortFunc` of `compareBy key` sorts by key. -/
theorem pairwise_sortFunc_compareBy (l : List α) :
    (sortFunc (compareBy key) l).Pairwise fun a b => key a ≤ key b := by
  have hsorted : (sortFunc (compareBy key) l).Pairwise fun a b => (compareBy key a b != .gt) :=
    List.pairwise_mergeSort
      (fun a b c hab hbc => by
        simp only [bne_iff_ne, ne_eq, compareBy_ne_gt_iff] at hab hbc ⊢
        exact le_trans hab hbc)
      (fun a b => by
        simp only [bne_iff_ne, ne_eq, compareBy_ne_gt_iff, Bool.or_eq_true]
        exact le_total (key a) (key b))
      l
  exact hsorted.imp fun h => by simpa [compareBy_ne_gt_iff] using h

variable {key}

/-- Two permutations of one another that are sorted by key are equal when the keys are
pairwise distinct. -/
theorem eq_of_perm_of_pairwise_key {l₁ l₂ : List α} (hperm : l₁.Perm l₂)
    (h₁ : l₁.Pairwise fun a b => key a ≤ key b) (h₂ : l₂.Pairwise fun a b => key a ≤ key b)
    (hkeys : (l₁.map key).Nodup) : l₁ = l₂ := by
  refine hperm.eq_of_pairwise (fun a b ha hb hab hba => ?_) h₁ h₂
  exact List.inj_on_of_nodup_map hkeys ha (hperm.symm.subset hb) (le_antisymm hab hba)

/-- The order of the input does not matter when the keys are pairwise distinct. -/
theorem sortFunc_compareBy_eq_of_perm {l₁ l₂ : List α} (hperm : l₁.Perm l₂)
    (hkeys : (l₁.map key).Nodup) :
    sortFunc (compareBy key) l₁ = sortFunc (compareBy key) l₂ :=
  eq_of_perm_of_pairwise_key
    ((sortFunc_perm _ l₁).trans (hperm.trans (sortFunc_perm _ l₂).symm))
    (pairwise_sortFunc_compareBy key l₁) (pairwise_sortFunc_compareBy key l₂)
    (((sortFunc_perm _ l₁).map key).nodup_iff.mpr hkeys)

/-- Any sort by key returns what `sortFunc` returns when the keys are pairwise distinct. -/
theorem eq_sortFunc_compareBy {l l' : List α} (hperm : l'.Perm l)
    (hsorted : l'.Pairwise fun a b => key a ≤ key b) (hkeys : (l.map key).Nodup) :
    l' = sortFunc (compareBy key) l :=
  eq_of_perm_of_pairwise_key (hperm.trans (sortFunc_perm _ l).symm) hsorted
    (pairwise_sortFunc_compareBy key l) ((hperm.map key).nodup_iff.mpr hkeys)

end CompareBy

end Jeth
