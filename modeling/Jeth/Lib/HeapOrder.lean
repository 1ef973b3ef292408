import Mathlib
import Jeth.Lib.BinaryHeap

/-!
# Heap order

What the sifts of `container/heap` are for. When `Less` compares a key in a linear order, a
slice in which no element is less than its parent (`IsHeap`) stays one when an element is
appended and sifted up (`isHeap_upLast_append`), when `up` runs on it (`upLast_of_isHeap`), and
under `remove` (`isHeap_remove`); and its first element has the least key
(`key_head_le_of_isHeap`).

The proofs carry the usual loop invariants, for the swaps `container/heap` makes. `UpOrder`
holds while an element moves up: every parent and child are in order but the element and its
parent, and the element's children are in order with that parent. `DownOrder` holds while an
element moves down: every parent and child are in order but the element and its children, and
those children are in order with its parent. Both are stated over the first `n` positions, since
`heap.Remove` sifts with the removed element parked at the end of the slice.
-/

namespace Jeth.BinaryHeap

variable {α β : Type*} [LinearOrder β] (key : α → β)

/-! ## Orders of positions -/

/-- The element at `p`, if any, has a key at most that of the element at `k`, if any. -/
def Ordered (h : List α) (p k : ℕ) : Prop :=
  ∀ a b, h[p]? = some a → h[k]? = some b → key a ≤ key b

/-- Every position below `n` but the root holds an element at or after its parent's. -/
def HeapUpTo (h : List α) (n : ℕ) : Prop :=
  ∀ k, 0 < k → k < n → Ordered key h ((k - 1) / 2) k

/-- No element of `h` is less than its parent. -/
def IsHeap (h : List α) : Prop := HeapUpTo key h h.length

variable {key}

theorem ordered_refl (h : List α) (k : ℕ) : Ordered key h k k := by
  intro a b ha hb
  rw [ha] at hb
  cases hb
  exact le_rfl

theorem Ordered.trans {h : List α} {p q k : ℕ} (hpq : Ordered key h p q) (hqk : Ordered key h q k)
    (hq : q < h.length) : Ordered key h p k := fun a c ha hc =>
  (hpq a h[q] ha (List.getElem?_eq_getElem hq)).trans (hqk h[q] c (List.getElem?_eq_getElem hq) hc)

/-- A swap of two positions in range moves the element of each to the other. -/
theorem getElem?_swap_eq (h : List α) {i j : ℕ} (hi : i < h.length) (hj : j < h.length) (k : ℕ) :
    (swap h i j)[k]? = h[Equiv.swap i j k]? := by
  by_cases hkj : k = j
  · rw [hkj, Equiv.swap_apply_right, getElem?_swap_right h hi hj]
  · by_cases hki : k = i
    · rw [hki, Equiv.swap_apply_left, getElem?_swap_left h hi hj]
    · rw [Equiv.swap_apply_of_ne_of_ne hki hkj, getElem?_swap_of_ne h hki hkj]

theorem ordered_swap_iff {h : List α} {i j : ℕ} (hi : i < h.length) (hj : j < h.length) (p k : ℕ) :
    Ordered key (swap h i j) p k ↔ Ordered key h (Equiv.swap i j p) (Equiv.swap i j k) := by
  simp only [Ordered, getElem?_swap_eq h hi hj]

theorem HeapUpTo.mono {h : List α} {n m : ℕ} (hh : HeapUpTo key h n) (hmn : m ≤ n) :
    HeapUpTo key h m := fun k hk hkm => hh k hk (by omega)

/-- A slice that is a heap on its first `n` positions, with one more after them, is a heap
without its last. -/
theorem isHeap_dropLast {h : List α} {n : ℕ} (hh : HeapUpTo key h n) (hlen : h.length = n + 1) :
    IsHeap key h.dropLast := by
  intro k hk hkn
  rw [List.length_dropLast, hlen] at hkn
  intro a b ha hb
  rw [List.getElem?_dropLast, if_pos (by omega)] at ha hb
  exact hh k hk (by omega) a b ha hb

/-- In a heap on its first `n` positions, the first element is at or before every other. -/
theorem HeapUpTo.ordered_zero {h : List α} {n : ℕ} (hh : HeapUpTo key h n) (hn : n ≤ h.length) :
    ∀ k < n, Ordered key h 0 k := by
  intro k
  induction k using Nat.strongRecOn with
  | ind k ih =>
    intro hk
    rcases Nat.eq_zero_or_pos k with rfl | hpos
    · exact ordered_refl h 0
    · -- through the parent, which is nearer the root
      exact (ih ((k - 1) / 2) (by omega) (by omega)).trans (hh k hpos hk) (by omega)

theorem key_head_le_of_isHeap {h : List α} (hh : IsHeap key h) {r a : α} (hr : h.head? = some r)
    (ha : a ∈ h) : key r ≤ key a := by
  obtain ⟨k, hk, rfl⟩ := List.getElem_of_mem ha
  exact hh.ordered_zero (Nat.le_refl _) k hk r _ (by rw [← List.head?_eq_getElem?, hr])
    (List.getElem?_eq_getElem hk)

/-! ## `Less` on keys -/

section Less

variable {less : α → α → Bool}

theorem ordered_of_lessAt_eq_false (hless : ∀ a b, less a b = decide (key a < key b))
    {h : List α} {i j : ℕ} (hl : lessAt less h j i = false) : Ordered key h i j := by
  intro a b ha hb
  simp only [lessAt, hb, ha, hless, decide_eq_false_iff_not, not_lt] at hl
  exact hl

theorem lessAt_eq_false_of_ordered (hless : ∀ a b, less a b = decide (key a < key b))
    {h : List α} {i j : ℕ} (ho : Ordered key h i j) : lessAt less h j i = false := by
  unfold lessAt
  split
  · next a b hb ha => rw [hless, decide_eq_false_iff_not, not_lt]; exact ho b a ha hb
  · rfl

/-- Positions that compare less are in range, and their keys compare so. -/
theorem lt_of_lessAt_eq_true (hless : ∀ a b, less a b = decide (key a < key b))
    {h : List α} {i j : ℕ} (hl : lessAt less h j i = true) :
    j < h.length ∧ i < h.length ∧ ∀ a b, h[i]? = some a → h[j]? = some b → key b < key a := by
  unfold lessAt at hl
  split at hl
  · next b a hb ha =>
    rw [hless, decide_eq_true_iff] at hl
    refine ⟨(List.getElem?_eq_some_iff.mp hb).1, (List.getElem?_eq_some_iff.mp ha).1, ?_⟩
    intro a' b' ha' hb'
    rw [ha] at ha'
    rw [hb] at hb'
    cases ha'
    cases hb'
    exact hl
  · cases hl

end Less

/-! ## Sifting up -/

variable (key) in
/-- The invariant of `up` at `j` over the first `n` positions: every pair of a parent and a child
is in order but that of `j` and its parent, and the children of `j` are in order with that
parent. -/
structure UpOrder (h : List α) (n j : ℕ) : Prop where
  except : ∀ k, 0 < k → k < n → k ≠ j → Ordered key h ((k - 1) / 2) k
  grand : 0 < j → ∀ c, 0 < c → (c - 1) / 2 = j → c < n → Ordered key h ((j - 1) / 2) c

/-- A swap of `j` with the parent it is less than moves the invariant to the parent. -/
theorem UpOrder.swap {h : List α} {n j : ℕ} (o : UpOrder key h n j) (hjn : j < n)
    (hn : n ≤ h.length) (hj : 0 < j) (hlt : ∀ a b, h[(j - 1) / 2]? = some a → h[j]? = some b →
      key b < key a) :
    UpOrder key (swap h ((j - 1) / 2) j) n ((j - 1) / 2) := by
  set p := (j - 1) / 2 with hp
  have hpj : p < j := by omega
  have hplen : p < h.length := by omega
  have hjlen : j < h.length := by omega
  -- the parent holds the element, and `j` the parent's former element
  have hmove : Ordered key h j p := fun a b ha hb => (hlt b a hb ha).le
  constructor
  · intro k hk hkn hkp
    rw [ordered_swap_iff hplen hjlen]
    by_cases hkj : k = j
    · subst hkj
      rw [← hp, Equiv.swap_apply_left, Equiv.swap_apply_right]
      exact hmove
    rw [Equiv.swap_apply_of_ne_of_ne hkp hkj]
    by_cases hsib : (k - 1) / 2 = p
    · -- a sibling of `j`: it was after the parent, which was after the element
      rw [hsib, Equiv.swap_apply_left]
      exact hmove.trans (hsib ▸ o.except k hk hkn hkj) hplen
    by_cases hchild : (k - 1) / 2 = j
    · -- a child of `j`: it was after the grandparent of the moving element
      rw [hchild, Equiv.swap_apply_right]
      exact o.grand hj k hk hchild hkn
    rw [Equiv.swap_apply_of_ne_of_ne hsib hchild]
    exact o.except k hk hkn hkj
  · intro hp0 c hc hcp hcn
    rw [ordered_swap_iff hplen hjlen]
    have hg : (p - 1) / 2 ≠ p := by omega
    have hgj : (p - 1) / 2 ≠ j := by omega
    rw [Equiv.swap_apply_of_ne_of_ne hg hgj]
    have hgp : Ordered key h ((p - 1) / 2) p := o.except p hp0 (by omega) (by omega)
    by_cases hcj : c = j
    · rw [hcj, Equiv.swap_apply_right]
      exact hgp
    · rw [Equiv.swap_apply_of_ne_of_ne (by omega) hcj]
      exact hgp.trans (hcp ▸ o.except c hc hcn hcj) hplen

/-- Where `j` is at the root or not less than its parent, the invariant is the heap order. -/
theorem UpOrder.heapUpTo {h : List α} {n j : ℕ} (o : UpOrder key h n j)
    (hstop : j = 0 ∨ Ordered key h ((j - 1) / 2) j) : HeapUpTo key h n := by
  intro k hk hkn
  by_cases hkj : k = j
  · subst hkj
    rcases hstop with h0 | hord
    · omega
    · exact hord
  · exact o.except k hk hkn hkj

theorem heapUpTo_upLoop {less : α → α → Bool} (hless : ∀ a b, less a b = decide (key a < key b))
    {n : ℕ} : ∀ (fuel : ℕ) {h : List α} {j : ℕ}, j < fuel → j < n → n ≤ h.length → UpOrder key h n j →
      HeapUpTo key (upLoop less fuel h j) n
  | 0, _, _, hfuel, _, _, _ => absurd hfuel (Nat.not_lt_zero _)
  | fuel + 1, h, j, hfuel, hjn, hlen, o => by
    unfold upLoop
    dsimp only
    split_ifs with hstop
    · refine o.heapUpTo ?_
      rcases hstop with hroot | hl
      · exact .inl (by omega)
      · exact .inr (ordered_of_lessAt_eq_false hless hl)
    · -- the element is less than its parent: swap, and go on from the parent
      simp only [not_or, Bool.not_eq_false] at hstop
      obtain ⟨hroot, hl⟩ := hstop
      have hlt := (lt_of_lessAt_eq_true hless hl).2.2
      exact heapUpTo_upLoop hless fuel (by omega) (by omega) (by simpa using hlen)
        (o.swap hjn hlen (by omega) hlt)

section Up

variable {less : α → α → Bool}

/-- On a heap, `up` stops at once. -/
theorem upLoop_of_heapUpTo (hless : ∀ a b, less a b = decide (key a < key b)) {h : List α}
    {n j : ℕ} (hh : HeapUpTo key h n) (hjn : j < n) : ∀ fuel, upLoop less fuel h j = h
  | 0 => rfl
  | fuel + 1 => by
    unfold upLoop
    rw [if_pos]
    rcases Nat.eq_zero_or_pos j with rfl | hj
    · exact .inl rfl
    · exact .inr (lessAt_eq_false_of_ordered hless (hh j hj hjn))

/-- `heap.Push` of an element whose `Push` appended nothing leaves a heap as it is. -/
theorem upLast_of_isHeap (hless : ∀ a b, less a b = decide (key a < key b)) {h : List α}
    (hh : IsHeap key h) : upLast less h = h := by
  cases h with
  | nil => simp [upLast, up, upLoop]
  | cons a t => exact upLoop_of_heapUpTo hless hh (by simp) _

/-- `heap.Push` of an element appended to a heap gives a heap. -/
theorem isHeap_upLast_append (hless : ∀ a b, less a b = decide (key a < key b)) {h : List α}
    (hh : IsHeap key h) (x : α) : IsHeap key (upLast less (h ++ [x])) := by
  have hlen : (h ++ [x]).length = h.length + 1 := by simp
  -- the appended element has no children yet, and every other pair is in order in `h`
  have o : UpOrder key (h ++ [x]) (h.length + 1) h.length := by
    constructor
    · intro k hk hkn hkj a b ha hb
      rw [List.getElem?_append_left (by omega)] at ha hb
      exact hh k hk (by omega) a b ha hb
    · intro _ c hc hcj hcn
      omega
  have hheap := heapUpTo_upLoop hless (h.length + 1) (Nat.lt_succ_self _) (by omega) (by omega) o
  unfold IsHeap
  rw [(upLast_perm less (h ++ [x])).length_eq, hlen]
  simpa only [upLast, up, hlen, Nat.add_sub_cancel] using hheap

end Up

/-! ## Sifting down -/

variable (key) in
/-- The invariant of `down` at `i` over the first `n` positions: every pair of a parent and a
child is in order but those of `i` and its children, and the children of `i` are in order with
the parent of `i`. -/
structure DownOrder (h : List α) (n i : ℕ) : Prop where
  except : ∀ k, 0 < k → k < n → (k - 1) / 2 ≠ i → Ordered key h ((k - 1) / 2) k
  grand : 0 < i → ∀ c, 0 < c → (c - 1) / 2 = i → c < n → Ordered key h ((i - 1) / 2) c

/-- A swap of `i` with a child that is at or before it and its sibling moves the invariant to
the child. -/
theorem DownOrder.swap {h : List α} {n i j : ℕ} (o : DownOrder key h n i) (hn : n ≤ h.length)
    (hj : 0 < j) (hji : (j - 1) / 2 = i) (hjn : j < n)
    (hmin : ∀ c, 0 < c → (c - 1) / 2 = i → c < n → Ordered key h j c)
    (hmove : Ordered key h j i) :
    DownOrder key (swap h i j) n j := by
  have hij : i < j := by omega
  have hilen : i < h.length := by omega
  have hjlen : j < h.length := by omega
  constructor
  · intro k hk hkn hkj
    rw [ordered_swap_iff hilen hjlen]
    by_cases hkj' : k = j
    · subst hkj'
      rw [hji, Equiv.swap_apply_left, Equiv.swap_apply_right]
      exact hmove
    by_cases hki : k = i
    · -- `i` itself: its parent was before the child that moves up
      subst hki
      have hg : (k - 1) / 2 ≠ k := by omega
      have hgj : (k - 1) / 2 ≠ j := by omega
      rw [Equiv.swap_apply_of_ne_of_ne hg hgj, Equiv.swap_apply_left]
      exact o.grand hk j hj hji hjn
    rw [Equiv.swap_apply_of_ne_of_ne hki hkj']
    by_cases hsib : (k - 1) / 2 = i
    · -- the sibling of `j`: the child that moves up is at or before it
      rw [hsib, Equiv.swap_apply_left]
      exact hmin k hk hsib hkn
    rw [Equiv.swap_apply_of_ne_of_ne hsib hkj]
    exact o.except k hk hkn hsib
  · intro _ c hc hcj hcn
    rw [ordered_swap_iff hilen hjlen, hji, Equiv.swap_apply_left,
      Equiv.swap_apply_of_ne_of_ne (by omega) (by omega)]
    exact hcj ▸ o.except c hc hcn (by omega)

/-- Where `i` is at or before each of its children, the invariant is the heap order. -/
theorem DownOrder.heapUpTo {h : List α} {n i : ℕ} (o : DownOrder key h n i)
    (hstop : ∀ c, 0 < c → (c - 1) / 2 = i → c < n → Ordered key h i c) : HeapUpTo key h n := by
  intro k hk hkn
  by_cases hki : (k - 1) / 2 = i
  · rw [hki]
    exact hstop k hk hki hkn
  · exact o.except k hk hkn hki

section Down

variable (less : α → α → Bool)

/-- The child of `i` that `down` compares with `i`: the second if it lies below `n` and is less
than the first, the first otherwise. -/
def pickChild (h : List α) (i n : ℕ) : ℕ :=
  if 2 * i + 1 + 1 < n ∧ lessAt less h (2 * i + 1 + 1) (2 * i + 1) = true then 2 * i + 1 + 1
  else 2 * i + 1

theorem downLoop_succ (fuel : ℕ) (h : List α) (i n : ℕ) :
    downLoop less (fuel + 1) h i n =
      if n ≤ 2 * i + 1 then (h, i)
      else if lessAt less h (pickChild less h i n) i = false then (h, i)
      else downLoop less fuel (swap h i (pickChild less h i n)) (pickChild less h i n) n := rfl

variable {less}

/-- The child `down` picks is a child of `i` below `n`, at or before its sibling. -/
theorem pickChild_spec (hless : ∀ a b, less a b = decide (key a < key b)) {h : List α}
    {i n : ℕ} (hn : 2 * i + 1 < n) :
    0 < pickChild less h i n ∧ (pickChild less h i n - 1) / 2 = i ∧ pickChild less h i n < n ∧
      ∀ c, 0 < c → (c - 1) / 2 = i → c < n → Ordered key h (pickChild less h i n) c := by
  unfold pickChild
  split_ifs with hsecond
  · refine ⟨by omega, by omega, hsecond.1, fun c hc hci hcn => ?_⟩
    have hfirst : Ordered key h (2 * i + 1 + 1) (2 * i + 1) := fun a b ha hb =>
      ((lt_of_lessAt_eq_true hless hsecond.2).2.2 b a hb ha).le
    rcases (show c = 2 * i + 1 ∨ c = 2 * i + 1 + 1 by omega) with rfl | rfl
    · exact hfirst
    · exact ordered_refl h _
  · refine ⟨by omega, by omega, hn, fun c hc hci hcn => ?_⟩
    rcases (show c = 2 * i + 1 ∨ c = 2 * i + 1 + 1 by omega) with rfl | rfl
    · exact ordered_refl h _
    · -- the second child is below `n`, so it was not less than the first
      have hl : lessAt less h (2 * i + 1 + 1) (2 * i + 1) = false := by
        simpa [hcn] using hsecond
      exact ordered_of_lessAt_eq_false hless hl

theorem heapUpTo_downLoop (hless : ∀ a b, less a b = decide (key a < key b)) {n : ℕ} :
    ∀ (fuel : ℕ) {h : List α} {i : ℕ}, n ≤ fuel + i → n ≤ h.length → DownOrder key h n i →
      HeapUpTo key (downLoop less fuel h i n).1 n
  | 0, _, _, hfuel, _, o => o.heapUpTo fun c _ hci hcn => absurd hcn (by omega)
  | fuel + 1, h, i, hfuel, hlen, o => by
    rw [downLoop_succ]
    by_cases hbottom : n ≤ 2 * i + 1
    · rw [if_pos hbottom]
      exact o.heapUpTo fun c _ hci hcn => absurd hcn (by omega)
    rw [if_neg hbottom]
    obtain ⟨hj, hji, hjn, hmin⟩ := pickChild_spec hless (h := h) (by omega : 2 * i + 1 < n)
    split_ifs with hstop
    · -- `i` is at or before the child it is compared with, hence before both
      exact o.heapUpTo fun c hc hci hcn =>
        (ordered_of_lessAt_eq_false hless hstop).trans (hmin c hc hci hcn) (by omega)
    · -- the child is less: swap, and go on from the child
      have hlt := (lt_of_lessAt_eq_true hless (Bool.not_eq_false _ ▸ hstop)).2.2
      exact heapUpTo_downLoop hless fuel (by omega) (by simpa using hlen)
        (o.swap hlen hj hji hjn hmin fun a b ha hb => (hlt b a hb ha).le)

/-- Where `i` is at or before each of its children, `down` stops at once. -/
theorem downLoop_of_ordered (hless : ∀ a b, less a b = decide (key a < key b)) {h : List α}
    {i n : ℕ} (hstop : ∀ c, 0 < c → (c - 1) / 2 = i → c < n → Ordered key h i c) :
    ∀ fuel, downLoop less fuel h i n = (h, i)
  | 0 => rfl
  | fuel + 1 => by
    rw [downLoop_succ]
    by_cases hbottom : n ≤ 2 * i + 1
    · rw [if_pos hbottom]
    · rw [if_neg hbottom]
      obtain ⟨hj, hji, hjn, -⟩ := pickChild_spec hless (h := h) (by omega : 2 * i + 1 < n)
      rw [if_pos (lessAt_eq_false_of_ordered hless (hstop _ hj hji hjn))]

/-- `heap.Remove` keeps a heap. The element moved into the hole goes down if it is after its
new parent, and up otherwise, where `down` stays at once. -/
theorem isHeap_remove (hless : ∀ a b, less a b = decide (key a < key b)) {h : List α}
    (hh : IsHeap key h) {i : ℕ} (hi : i < h.length) : IsHeap key (remove less h i).2 := by
  by_cases hn : h.length - 1 = i
  · -- the last element: `Pop` alone
    have hrem : (remove less h i).2 = h.dropLast := by simp [remove, hn]
    rw [hrem]
    exact isHeap_dropLast (n := h.length - 1) (hh.mono (Nat.sub_le _ _)) (by omega)
  set n := h.length - 1 with hn_def
  have hin : i < n := by omega
  have hnlen : n < h.length := by omega
  set P := swap h i n with hP
  have hPlen : P.length = n + 1 := by rw [hP, length_swap]; omega
  rcases hd : down less P i n with ⟨h₂, moved⟩
  have hperm₂ : h₂.Perm h := by
    have := down_perm less P i n
    rw [hd] at this
    exact this.trans (swap_perm h i n)
  have hrem : (remove less h i).2 = (if moved then h₂ else up less h₂ i).dropLast := by
    simp only [remove, ne_eq, ← hn_def, hn, not_false_eq_true, if_true, ← hP, hd]
  rw [hrem]
  refine isHeap_dropLast (n := n) ?_ ?_
  rotate_left
  · split_ifs
    · rw [hperm₂.length_eq]; omega
    · rw [(up_perm less h₂ i).length_eq, hperm₂.length_eq]; omega
  -- in `P` the pairs off `i` are those of `h`
  have hoff : ∀ k, 0 < k → k < n → k ≠ i → (k - 1) / 2 ≠ i → Ordered key P ((k - 1) / 2) k := by
    intro k hk hkn hki hpi
    rw [hP, ordered_swap_iff hi hnlen, Equiv.swap_apply_of_ne_of_ne hpi (by omega),
      Equiv.swap_apply_of_ne_of_ne hki (by omega)]
    exact hh k hk (by omega)
  -- the children of `i` are after the parent of `i`, through the element removed
  have hgrand : 0 < i → ∀ c, 0 < c → (c - 1) / 2 = i → c < n → Ordered key P ((i - 1) / 2) c := by
    intro hi0 c hc hci hcn
    rw [hP, ordered_swap_iff hi hnlen, Equiv.swap_apply_of_ne_of_ne (by omega) (by omega),
      Equiv.swap_apply_of_ne_of_ne (by omega) (by omega)]
    exact (hh i hi0 hi).trans (hci ▸ hh c hc (by omega)) hi
  by_cases hup : 0 < i ∧ lessAt less P i ((i - 1) / 2) = true
  · -- the moved element is less than the parent of `i`: `down` stays, and `up` moves it
    have hlt := (lt_of_lessAt_eq_true hless hup.2).2.2
    have hig : Ordered key P i ((i - 1) / 2) := fun a b ha hb => (hlt b a hb ha).le
    have hstay : ∀ c, 0 < c → (c - 1) / 2 = i → c < n → Ordered key P i c := fun c hc hci hcn =>
      hig.trans (hgrand hup.1 c hc hci hcn) (by omega)
    have hdown : down less P i n = (P, false) := by
      unfold down
      rw [downLoop_of_ordered hless hstay]
      simp
    rw [hd] at hdown
    obtain ⟨rfl, rfl⟩ := Prod.mk.inj hdown
    have o : UpOrder key P n i := by
      refine ⟨fun k hk hkn hki => ?_, hgrand⟩
      by_cases hpi : (k - 1) / 2 = i
      · rw [hpi]
        exact hstay k hk hpi hkn
      · exact hoff k hk hkn hki hpi
    exact heapUpTo_upLoop hless (i + 1) (Nat.lt_succ_self i) hin (by omega) o
  · -- the moved element is after the parent of `i`: `down` restores the order
    have o : DownOrder key P n i := by
      refine ⟨fun k hk hkn hpi => ?_, hgrand⟩
      by_cases hki : k = i
      · subst hki
        exact ordered_of_lessAt_eq_false hless (by simpa [hk] using hup)
      · exact hoff k hk hkn hki hpi
    have hheap₂ : HeapUpTo key h₂ n := by
      have := heapUpTo_downLoop hless n (by omega) (by omega) o
      have hfst : (down less P i n).1 = (downLoop less n P i n).1 := rfl
      rw [← hfst, hd] at this
      exact this
    split_ifs
    · exact hheap₂
    · rw [up, upLoop_of_heapUpTo hless hheap₂ hin]
      exact hheap₂

end Down

end Jeth.BinaryHeap
