import Jeth.Lib.BinaryHeap

/-!
# `container/heap` over an interface

`BinaryHeap` runs the sifts of `container/heap` on a slice of values. A heap whose `Swap` does
more than exchange two elements, as one whose elements record their own positions does, runs the
same algorithm over a state of its own. `HeapInterface` names the methods the sifts call, and
`upLoop`, `downLoop` and `removeSift` are the sifts of `container/heap` over them; the callers add
the interface's own `Push` and `Pop`, as `heap.Push` and `heap.Remove` do.

A view of the state as a slice that `Len`, `Less` and `Swap` respect (`Simulates`), together with
an invariant that every `Swap` keeps, carries the slice algorithms over: the sifts move the view
as `BinaryHeap` moves the slice, and keep the invariant (`upLoop_view`, `downLoop_view`,
`removeSift_view`).
-/

namespace Jeth

/-- The methods of `heap.Interface` that the sifts call, on a state `σ`: `Len`, `Less` and
`Swap`. -/
structure HeapInterface (σ : Type*) where
  len : σ → ℕ
  less : σ → ℕ → ℕ → Bool
  swap : σ → ℕ → ℕ → σ

namespace HeapInterface

variable {σ : Type*} (I : HeapInterface σ)

/-- The loop of `up`, as `BinaryHeap.upLoop`. -/
def upLoop : ℕ → σ → ℕ → σ
  | 0, s, _ => s
  | fuel + 1, s, j =>
    let i := (j - 1) / 2
    if i = j ∨ I.less s j i = false then s
    else upLoop fuel (I.swap s i j) i

/-- `up(h, j)`. -/
def up (s : σ) (j : ℕ) : σ := I.upLoop (j + 1) s j

/-- The loop of `down` over the first `n` positions, as `BinaryHeap.downLoop`. -/
def downLoop : ℕ → σ → ℕ → ℕ → σ × ℕ
  | 0, s, i, _ => (s, i)
  | fuel + 1, s, i, n =>
    let j₁ := 2 * i + 1
    if n ≤ j₁ then (s, i)
    else
      let j := if j₁ + 1 < n ∧ I.less s (j₁ + 1) j₁ = true then j₁ + 1 else j₁
      if I.less s j i = false then (s, i)
      else downLoop fuel (I.swap s i j) j n

/-- `down(h, i0, n)`. -/
def down (s : σ) (i₀ n : ℕ) : σ × Bool :=
  let (s', i) := I.downLoop n s i₀ n
  (s', decide (i₀ < i))

/-- `heap.Remove(h, i)` up to its final `h.Pop()`. -/
def removeSift (s : σ) (i : ℕ) : σ :=
  let n := I.len s - 1
  if n ≠ i then
    let s := I.swap s i n
    let (s', moved) := I.down s i n
    if moved then s' else I.up s' i
  else s

variable {α : Type*}

/-- A view of the state as a slice, under which `Len`, `Less` and `Swap` are those of the slice,
on the states of an invariant that each `Swap` of positions in range keeps. -/
structure Simulates (lessV : α → α → Bool) (view : σ → List α) (Inv : σ → Prop) : Prop where
  len : ∀ s, Inv s → I.len s = (view s).length
  less : ∀ s i j, Inv s → I.less s i j = BinaryHeap.lessAt lessV (view s) i j
  swap : ∀ s i j, Inv s → i < I.len s → j < I.len s →
    view (I.swap s i j) = BinaryHeap.swap (view s) i j
  inv_swap : ∀ s i j, Inv s → i < I.len s → j < I.len s → Inv (I.swap s i j)

variable {I} {lessV : α → α → Bool} {view : σ → List α} {Inv : σ → Prop}

/-- Positions that compare less are in range. -/
theorem Simulates.lt_len (hS : I.Simulates lessV view Inv) {s : σ} (hs : Inv s) {i j : ℕ}
    (hl : I.less s i j = true) : i < I.len s ∧ j < I.len s := by
  rw [hS.less s i j hs] at hl
  unfold BinaryHeap.lessAt at hl
  split at hl
  · next a b ha hb =>
    rw [hS.len s hs]
    exact ⟨(List.getElem?_eq_some_iff.mp ha).1, (List.getElem?_eq_some_iff.mp hb).1⟩
  · cases hl

theorem Simulates.step (hS : I.Simulates lessV view Inv) {s : σ} (hs : Inv s) {i j : ℕ}
    (hl : I.less s j i = true) :
    view (I.swap s i j) = BinaryHeap.swap (view s) i j ∧ Inv (I.swap s i j) :=
  ⟨hS.swap s i j hs (hS.lt_len hs hl).2 (hS.lt_len hs hl).1,
    hS.inv_swap s i j hs (hS.lt_len hs hl).2 (hS.lt_len hs hl).1⟩

theorem upLoop_view (hS : I.Simulates lessV view Inv) :
    ∀ (fuel : ℕ) {s : σ} (j : ℕ), Inv s →
      view (I.upLoop fuel s j) = BinaryHeap.upLoop lessV fuel (view s) j ∧ Inv (I.upLoop fuel s j)
  | 0, _, _, hs => ⟨rfl, hs⟩
  | fuel + 1, s, j, hs => by
    unfold upLoop BinaryHeap.upLoop
    dsimp only
    rw [hS.less s j _ hs]
    split_ifs with hstop
    · exact ⟨rfl, hs⟩
    · -- a swap with the parent, on both sides
      simp only [not_or, Bool.not_eq_false] at hstop
      have hl : I.less s j ((j - 1) / 2) = true := by rw [hS.less s j _ hs]; exact hstop.2
      obtain ⟨hview, hinv⟩ := hS.step hs hl
      rw [← hview]
      exact upLoop_view hS fuel _ hinv

theorem downLoop_view (hS : I.Simulates lessV view Inv) :
    ∀ (fuel : ℕ) {s : σ} (i n : ℕ), Inv s →
      view (I.downLoop fuel s i n).1 = (BinaryHeap.downLoop lessV fuel (view s) i n).1 ∧
        (I.downLoop fuel s i n).2 = (BinaryHeap.downLoop lessV fuel (view s) i n).2 ∧
        Inv (I.downLoop fuel s i n).1
  | 0, _, _, _, hs => ⟨rfl, rfl, hs⟩
  | fuel + 1, s, i, n, hs => by
    unfold downLoop BinaryHeap.downLoop
    dsimp only
    simp only [hS.less s _ _ hs]
    -- the stop at the bottom, then a stop or a swap with either child
    split_ifs with hn hc hl hl
    · exact ⟨rfl, rfl, hs⟩
    · exact ⟨rfl, rfl, hs⟩
    · obtain ⟨hview, hinv⟩ := hS.step hs ((hS.less s _ _ hs).trans (Bool.not_eq_false _ ▸ hl))
      rw [← hview]
      exact downLoop_view hS fuel _ n hinv
    · exact ⟨rfl, rfl, hs⟩
    · obtain ⟨hview, hinv⟩ := hS.step hs ((hS.less s _ _ hs).trans (Bool.not_eq_false _ ▸ hl))
      rw [← hview]
      exact downLoop_view hS fuel _ n hinv

theorem down_view (hS : I.Simulates lessV view Inv) {s : σ} (i n : ℕ) (hs : Inv s) :
    view (I.down s i n).1 = (BinaryHeap.down lessV (view s) i n).1 ∧
      (I.down s i n).2 = (BinaryHeap.down lessV (view s) i n).2 ∧ Inv (I.down s i n).1 := by
  obtain ⟨h₁, h₂, h₃⟩ := downLoop_view hS n i n hs
  exact ⟨h₁, by simp only [down, BinaryHeap.down, h₂], h₃⟩

/-- `heap.Remove` before its `Pop` moves the view as `BinaryHeap.remove` moves the slice, whose
result is the sifted slice without its last element. -/
theorem removeSift_view (hS : I.Simulates lessV view Inv) {s : σ} {i : ℕ} (hs : Inv s)
    (hi : i < I.len s) :
    BinaryHeap.remove lessV (view s) i =
        ((view (I.removeSift s i)).getLast?, (view (I.removeSift s i)).dropLast) ∧
      Inv (I.removeSift s i) := by
  have hlen := hS.len s hs
  by_cases hn : I.len s - 1 = i
  · have hn' : (view s).length - 1 = i := by rw [← hlen]; exact hn
    simp [removeSift, BinaryHeap.remove, hn, hn', hs]
  · have hn' : ¬(view s).length - 1 = i := by rw [← hlen]; exact hn
    have hswap := hS.swap s i (I.len s - 1) hs hi (by omega)
    have hinv := hS.inv_swap s i (I.len s - 1) hs hi (by omega)
    obtain ⟨hd₁, hd₂, hd₃⟩ := down_view hS i (I.len s - 1) hinv
    rcases hd : I.down (I.swap s i (I.len s - 1)) i (I.len s - 1) with ⟨s₂, moved⟩
    rw [hd] at hd₁ hd₂ hd₃
    dsimp only at hd₁ hd₂ hd₃
    have hdown : BinaryHeap.down lessV (BinaryHeap.swap (view s) i ((view s).length - 1)) i
        ((view s).length - 1) = (view s₂, moved) := by
      rw [← hlen, ← hswap, Prod.ext_iff]
      exact ⟨hd₁.symm, hd₂.symm⟩
    obtain ⟨hu₁, hu₂⟩ := upLoop_view hS (i + 1) i hd₃
    simp only [removeSift, BinaryHeap.remove, ne_eq, hn, hn', not_false_eq_true, if_true, hd,
      hdown]
    cases moved
    · exact ⟨by simp only [Bool.false_eq_true, if_false, up, BinaryHeap.up, hu₁], hu₂⟩
    · exact ⟨rfl, hd₃⟩

end HeapInterface

end Jeth
