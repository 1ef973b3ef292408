import Mathlib

/-!
# Binary heaps on a slice

The algorithms of Go's `container/heap` on a list, for any element type and any `Less` of the
heap interface. The interface's own `Push` and `Pop` stay with the caller: `upLast` is what
`heap.Push` does after the interface's `Push` has run, and `remove` ends with the `Pop` that
takes the last element off, the one every heap in the repository implements.

The sift loops carry explicit fuel: `j + 1` iterations bound `up` from `j`, since each one
moves to the parent, and `n` bound `down` over the first `n` positions, since each one moves
to a child below `n`.

The lemmas say what the sifts do to the slice as a multiset and which positions they leave
alone. From these, `remove` hands back the element at the index it was given and keeps all
the others.
-/

namespace Jeth.BinaryHeap

open scoped List

variable {α : Type*}

/-! ## The heap interface on a list -/

/-- `h.Swap(i, j)`; an index out of range leaves the slice as it is. -/
def swap (h : List α) (i j : ℕ) : List α :=
  match h[i]?, h[j]? with
  | some a, some b => (h.set i b).set j a
  | _, _ => h

theorem swap_perm (h : List α) (i j : ℕ) : swap h i j ~ h := by
  unfold swap
  split
  · next a b ha hb =>
    obtain ⟨hi, rfl⟩ := List.getElem?_eq_some_iff.mp ha
    obtain ⟨hj, rfl⟩ := List.getElem?_eq_some_iff.mp hb
    exact List.set_set_perm hi hj
  · exact List.Perm.refl h

@[simp] theorem length_swap (h : List α) (i j : ℕ) : (swap h i j).length = h.length :=
  (swap_perm h i j).length_eq

/-- A swap touches only the two positions it names. -/
theorem getElem?_swap_of_ne (h : List α) {i j k : ℕ} (hki : k ≠ i) (hkj : k ≠ j) :
    (swap h i j)[k]? = h[k]? := by
  unfold swap
  split
  · simp [Ne.symm hki, Ne.symm hkj]
  · rfl

/-- After a swap of two positions in range, the second holds what the first held. -/
theorem getElem?_swap_right (h : List α) {i j : ℕ} (hi : i < h.length) (hj : j < h.length) :
    (swap h i j)[j]? = h[i]? := by
  unfold swap
  rw [List.getElem?_eq_getElem hi, List.getElem?_eq_getElem hj]
  simp [hj]

/-- After a swap of two positions in range, the first holds what the second held. -/
theorem getElem?_swap_left (h : List α) {i j : ℕ} (hi : i < h.length) (hj : j < h.length) :
    (swap h i j)[i]? = h[j]? := by
  unfold swap
  rw [List.getElem?_eq_getElem hi, List.getElem?_eq_getElem hj]
  by_cases hij : i = j
  · subst hij
    simp [hi]
  · rw [List.getElem?_set_ne (Ne.symm hij), List.getElem?_set_self hi]

variable (less : α → α → Bool)

/-- `h.Less(i, j)`; an index out of range never compares less. -/
def lessAt (h : List α) (i j : ℕ) : Bool :=
  match h[i]?, h[j]? with
  | some a, some b => less a b
  | _, _ => false

/-! ## The sifts -/

/-- The loop of `up`: while the element at `j` is less than its parent, swap the two and go on
from the parent. At the root, `(j - 1) / 2 = j` ends the loop. -/
def upLoop : ℕ → List α → ℕ → List α
  | 0, h, _ => h
  | fuel + 1, h, j =>
    let i := (j - 1) / 2
    if i = j ∨ lessAt less h j i = false then h
    else upLoop fuel (swap h i j) i

/-- `up(h, j)`. -/
def up (h : List α) (j : ℕ) : List α := upLoop less (j + 1) h j

/-- `heap.Push(h, x)` after the interface's `h.Push(x)`: `up(h, h.Len()-1)`. -/
def upLast (h : List α) : List α := up less h (h.length - 1)

/-- The loop of `down` over the first `n` positions: while the lesser child of `i` is less than
`i`, swap the two and go on from the child. Returns the slice and the final position. -/
def downLoop : ℕ → List α → ℕ → ℕ → List α × ℕ
  | 0, h, i, _ => (h, i)
  | fuel + 1, h, i, n =>
    let j₁ := 2 * i + 1
    if n ≤ j₁ then (h, i)
    else
      let j := if j₁ + 1 < n ∧ lessAt less h (j₁ + 1) j₁ = true then j₁ + 1 else j₁
      if lessAt less h j i = false then (h, i)
      else downLoop fuel (swap h i j) j n

/-- `down(h, i0, n)`: the slice after the sift, and whether the element left `i0`. -/
def down (h : List α) (i₀ n : ℕ) : List α × Bool :=
  let (h', i) := downLoop less n h i₀ n
  (h', decide (i₀ < i))

/-- `heap.Remove(h, i)`: move the element at `i` to the end, restore the heap over the rest,
and take the last element off with the interface's `Pop`. -/
def remove (h : List α) (i : ℕ) : Option α × List α :=
  let n := h.length - 1
  let h :=
    if n ≠ i then
      let h := swap h i n
      let (h', moved) := down less h i n
      if moved then h' else up less h' i
    else h
  (h.getLast?, h.dropLast)

/-! ## What the sifts keep -/

theorem upLoop_perm (fuel : ℕ) (h : List α) (j : ℕ) : upLoop less fuel h j ~ h := by
  induction fuel generalizing h j with
  | zero => exact List.Perm.refl h
  | succ fuel ih =>
    unfold upLoop
    dsimp only
    split_ifs
    · exact List.Perm.refl h
    · exact (ih _ _).trans (swap_perm h _ j)

/-- `up` from `j` leaves every position after `j` alone: it only swaps `j` with its ancestors. -/
theorem getElem?_upLoop_of_lt (fuel : ℕ) (h : List α) {j k : ℕ} (hjk : j < k) :
    (upLoop less fuel h j)[k]? = h[k]? := by
  induction fuel generalizing h j with
  | zero => rfl
  | succ fuel ih =>
    unfold upLoop
    dsimp only
    split_ifs
    · rfl
    · have hij : (j - 1) / 2 < k := by omega
      rw [ih _ hij, getElem?_swap_of_ne h (by omega) (by omega)]

theorem downLoop_perm (fuel : ℕ) (h : List α) (i n : ℕ) : (downLoop less fuel h i n).1 ~ h := by
  induction fuel generalizing h i with
  | zero => exact List.Perm.refl h
  | succ fuel ih =>
    unfold downLoop
    dsimp only
    -- the stop at the bottom, then a stop or a swap with either child
    split_ifs
    · exact List.Perm.refl h
    · exact List.Perm.refl h
    · exact (ih _ _).trans (swap_perm h i _)
    · exact List.Perm.refl h
    · exact (ih _ _).trans (swap_perm h i _)

/-- `down` over the first `n` positions leaves every position from `n` on alone: both positions
of each swap lie below `n`. -/
theorem getElem?_downLoop_of_le (fuel : ℕ) (h : List α) {i n k : ℕ} (hnk : n ≤ k) :
    (downLoop less fuel h i n).1[k]? = h[k]? := by
  induction fuel generalizing h i with
  | zero => rfl
  | succ fuel ih =>
    unfold downLoop
    dsimp only
    split_ifs with hn hc hl
    · rfl
    · rfl
    · rw [ih, getElem?_swap_of_ne h (by omega) (by omega)]
    · rfl
    · rw [ih, getElem?_swap_of_ne h (by omega) (by omega)]

theorem up_perm (h : List α) (j : ℕ) : up less h j ~ h := upLoop_perm less _ h j

theorem getElem?_up_of_lt (h : List α) {j k : ℕ} (hjk : j < k) : (up less h j)[k]? = h[k]? :=
  getElem?_upLoop_of_lt less _ h hjk

theorem upLast_perm (h : List α) : upLast less h ~ h := up_perm less h _

theorem down_perm (h : List α) (i n : ℕ) : (down less h i n).1 ~ h := downLoop_perm less _ h i n

theorem getElem?_down_of_le (h : List α) {i n k : ℕ} (hnk : n ≤ k) :
    (down less h i n).1[k]? = h[k]? :=
  getElem?_downLoop_of_le less _ h hnk

/-! ## `heap.Remove` -/

/-- Before its final `Pop`, `heap.Remove` has permuted the slice and put the element it removes
last. -/
theorem exists_remove_eq (h : List α) {i : ℕ} (hi : i < h.length) :
    ∃ h' : List α, List.Perm h' h ∧ h'[h.length - 1]? = h[i]? ∧
      remove less h i = (h'.getLast?, h'.dropLast) := by
  by_cases hn : h.length - 1 = i
  · refine ⟨h, List.Perm.refl h, by rw [hn], ?_⟩
    simp [remove, hn]
  · -- the swap puts `h[i]` at the last position, which neither sift reaches
    have hin : i < h.length - 1 := by omega
    rcases hd : down less (swap h i (h.length - 1)) i (h.length - 1) with ⟨h₂, moved⟩
    have hperm₂ : h₂ ~ h := by
      have := down_perm less (swap h i (h.length - 1)) i (h.length - 1)
      rw [hd] at this
      exact this.trans (swap_perm h i _)
    have hlast₂ : h₂[h.length - 1]? = h[i]? := by
      have : (down less (swap h i (h.length - 1)) i (h.length - 1)).1[h.length - 1]? =
          (swap h i (h.length - 1))[h.length - 1]? := getElem?_down_of_le less _ (Nat.le_refl _)
      rw [hd] at this
      rw [this, getElem?_swap_right h hi (by omega)]
    refine ⟨if moved then h₂ else up less h₂ i, ?_, ?_, ?_⟩
    · split_ifs
      · exact hperm₂
      · exact (up_perm less h₂ i).trans hperm₂
    · split_ifs
      · exact hlast₂
      · rw [getElem?_up_of_lt less h₂ hin, hlast₂]
    · simp only [remove, ne_eq, hn, not_false_eq_true, if_true, hd]

/-- `heap.Remove(h, i)` returns the element at `i` and leaves the others, in some order. -/
theorem remove_spec (h : List α) {i : ℕ} (hi : i < h.length) :
    (remove less h i).1 = some h[i] ∧ List.Perm (remove less h i).2 (h.eraseIdx i) := by
  obtain ⟨h', hperm, hlast, heq⟩ := exists_remove_eq less h hi
  have hlen : h'.length = h.length := hperm.length_eq
  have hget : h'.getLast? = some h[i] := by
    rw [List.getLast?_eq_getElem?, hlen, hlast, List.getElem?_eq_getElem hi]
  refine ⟨by rw [heq, hget], ?_⟩
  -- `h'` is its `dropLast` followed by `h[i]`; cancel `h[i]` against `h`
  have hsplit : h'.dropLast ++ [h[i]] = h' := List.dropLast_append_getLast? _ hget
  have happ : h'.dropLast ++ [h[i]] ~ h := by rw [hsplit]; exact hperm
  have hcons : h[i] :: h'.dropLast ~ h[i] :: h.eraseIdx i :=
    ((List.perm_append_singleton _ _).symm.trans happ).trans
      (List.getElem_cons_eraseIdx_perm hi).symm
  rw [heq]
  exact hcons.cons_inv

end Jeth.BinaryHeap
