import Mathlib
import Jeth.Lib.HeapOrder
import Jeth.Evm.TxHeap

/-!
# The transaction heap: order and contents

What `txHeap` is for, over the list model `TxHeap`. Each of its two heaps is in heap order by
gas price (`TxHeap.Ordered`), so that `PeekMax` and `PeekMin` see a greatest and a least gas
price (`peekMax_ge`, `peekMin_le`). What it holds is a multiset of entries, one for each ID
(`pool`), which each operation changes as `PoolStep` says: a push of a new ID adds its entry, a
push of a held ID changes nothing, a removal takes its ID away, and a pop takes away an entry of
greatest or least gas price (`poolStep_step`).
-/

namespace Jeth

variable {ID UTXO Asset : Type*} [DecidableEq ID]

open scoped List

namespace InternalTxHeap

/-- The key `Less` compares: the gas price in the min-heap, its negation in the max-heap. -/
def key (th : InternalTxHeap ID UTXO Asset) (e : TxEntry ID UTXO Asset) : ℤ :=
  if th.isMinHeap then (e.gasPrice : ℤ) else -(e.gasPrice : ℤ)

omit [DecidableEq ID] in
/-- `Less` compares the keys, in either heap. -/
theorem less_eq_decide (th : InternalTxHeap ID UTXO Asset) (a b : TxEntry ID UTXO Asset) :
    th.less a b = decide (th.key a < th.key b) := by
  unfold less key
  split_ifs <;> simp

/-- The heap is in heap order by its key. -/
def HeapOrdered (th : InternalTxHeap ID UTXO Asset) : Prop := BinaryHeap.IsHeap th.key th.items

omit [DecidableEq ID] in
/-- `heap.Remove` on the internal heap is the binary-heap removal under its `Less`. -/
theorem remove_items (th : InternalTxHeap ID UTXO Asset) (i : ℕ) :
    (th.remove i).2.items = (BinaryHeap.remove th.less th.items i).2 := rfl

/-- `heap.Push` keeps the heap order, whether or not the ID was held already. -/
theorem heapOrdered_push {th : InternalTxHeap ID UTXO Asset} (h : th.HeapOrdered)
    (entry : TxEntry ID UTXO Asset) : (th.push entry).HeapOrdered := by
  show BinaryHeap.IsHeap th.key (BinaryHeap.upLast th.less _)
  split_ifs
  · -- a held ID: `up` runs on the heap as it is, and stops at once
    rw [BinaryHeap.upLast_of_isHeap th.less_eq_decide h]
    exact h
  · exact BinaryHeap.isHeap_upLast_append th.less_eq_decide h entry

omit [DecidableEq ID] in
/-- `heap.Remove` at an index in range keeps the heap order. -/
theorem heapOrdered_remove {th : InternalTxHeap ID UTXO Asset} (h : th.HeapOrdered) {i : ℕ}
    (hi : i < th.items.length) : (th.remove i).2.HeapOrdered :=
  BinaryHeap.isHeap_remove th.less_eq_decide h hi

omit [DecidableEq ID] in
/-- The root of a heap in heap order has the least key. -/
theorem key_head_le {th : InternalTxHeap ID UTXO Asset} (h : th.HeapOrdered)
    {r e : TxEntry ID UTXO Asset} (hr : th.items.head? = some r) (he : e ∈ th.items) :
    th.key r ≤ th.key e :=
  BinaryHeap.key_head_le_of_isHeap h hr he

/-- No position holds an ID exactly when no entry has it. -/
theorem indexOf_eq_none_iff {th : InternalTxHeap ID UTXO Asset} {id : ID} :
    th.indexOf id = none ↔ ∀ e ∈ th.items, e.id ≠ id := by
  simp [indexOf, List.findIdx?_eq_none_iff]

end InternalTxHeap

/-- Without the entry at `i`, a list of entries with distinct IDs is the list without the ID
of that entry. -/
theorem eraseIdx_perm_filter {l : List (TxEntry ID UTXO Asset)} (hnodup : (l.map TxEntry.id).Nodup)
    {i : ℕ} (hi : i < l.length) :
    l.eraseIdx i ~ l.filter fun e => e.id ≠ l[i].id := by
  have hp := List.getElem_cons_eraseIdx_perm hi
  have hnd : ((l[i] :: l.eraseIdx i).map TxEntry.id).Nodup := (hp.map _).nodup_iff.mpr hnodup
  rw [List.map_cons, List.nodup_cons] at hnd
  have hfilter := hp.filter fun e => decide (e.id ≠ l[i].id)
  rw [List.filter_cons_of_neg (by simp), List.filter_eq_self.mpr fun e he => by
    have hne : e.id ≠ l[i].id := fun heq => hnd.1 (heq ▸ List.mem_map_of_mem he)
    simpa using hne] at hfilter
  exact hfilter

/-! ## Operations and what they do to the contents -/

/-- An operation of `txHeap` with its arguments. -/
inductive TxHeapOp (ID UTXO Asset : Type*) where
  | push (tx : Tx ID UTXO Asset) (gasPrice : ℕ)
  | remove (id : ID)
  | popMax
  | popMin

/-- What the heap is for: the pending entries, one for each ID, as a multiset. A push of a new
ID adds its entry and one of a held ID changes nothing, a removal takes the entries of its ID
away, and a pop, on a heap that is not empty, takes away an entry of greatest or least gas
price. -/
inductive PoolStep : Multiset (TxEntry ID UTXO Asset) → TxHeapOp ID UTXO Asset →
    Multiset (TxEntry ID UTXO Asset) → Prop
  | push_new {m : Multiset (TxEntry ID UTXO Asset)} {tx : Tx ID UTXO Asset} {gasPrice : ℕ} :
    tx.id ∉ m.map TxEntry.id → PoolStep m (.push tx gasPrice) (⟨tx.id, gasPrice, tx⟩ ::ₘ m)
  | push_held {m : Multiset (TxEntry ID UTXO Asset)} {tx : Tx ID UTXO Asset} {gasPrice : ℕ} :
    tx.id ∈ m.map TxEntry.id → PoolStep m (.push tx gasPrice) m
  | remove {m : Multiset (TxEntry ID UTXO Asset)} {id : ID} :
    PoolStep m (.remove id) (m.filter fun e => e.id ≠ id)
  | popMax {m : Multiset (TxEntry ID UTXO Asset)} {e : TxEntry ID UTXO Asset} : e ∈ m →
    (∀ e' ∈ m, e'.gasPrice ≤ e.gasPrice) → PoolStep m .popMax (m.filter fun e' => e'.id ≠ e.id)
  | popMin {m : Multiset (TxEntry ID UTXO Asset)} {e : TxEntry ID UTXO Asset} : e ∈ m →
    (∀ e' ∈ m, e.gasPrice ≤ e'.gasPrice) → PoolStep m .popMin (m.filter fun e' => e'.id ≠ e.id)

/-- `PoolStep` along a list of operations. -/
inductive PoolRun : Multiset (TxEntry ID UTXO Asset) → List (TxHeapOp ID UTXO Asset) →
    Multiset (TxEntry ID UTXO Asset) → Prop
  | nil {m : Multiset (TxEntry ID UTXO Asset)} : PoolRun m [] m
  | cons {m m' m'' : Multiset (TxEntry ID UTXO Asset)} {op : TxHeapOp ID UTXO Asset}
      {ops : List (TxHeapOp ID UTXO Asset)} :
    PoolStep m op m' → PoolRun m' ops m'' → PoolRun m (op :: ops) m''

namespace TxHeap

/-- Both heaps in heap order, the first a max-heap and the second a min-heap. -/
structure Ordered (th : TxHeap ID UTXO Asset) : Prop where
  max_flag : th.maxHeap.isMinHeap = false
  min_flag : th.minHeap.isMinHeap = true
  max_ordered : th.maxHeap.HeapOrdered
  min_ordered : th.minHeap.HeapOrdered

/-- The entries the heap holds, as a multiset. -/
def pool (th : TxHeap ID UTXO Asset) : Multiset (TxEntry ID UTXO Asset) := th.maxHeap.items

/-- One operation; `none` where `PopMax` or `PopMin` would index an empty slice. -/
def step (th : TxHeap ID UTXO Asset) : TxHeapOp ID UTXO Asset → Option (TxHeap ID UTXO Asset)
  | .push tx gasPrice => some (th.push tx gasPrice)
  | .remove id => some (th.remove id).2
  | .popMax => if th.len = 0 then none else some th.popMax.2
  | .popMin => if th.len = 0 then none else some th.popMin.2

omit [DecidableEq ID] in
/-- The heaps `newTxHeap` makes are in heap order. -/
theorem ordered_empty : (empty : TxHeap ID UTXO Asset).Ordered :=
  ⟨rfl, rfl, fun _ _ hk => absurd hk (Nat.not_lt_zero _),
    fun _ _ hk => absurd hk (Nat.not_lt_zero _)⟩

omit [DecidableEq ID] in
/-- `Len()` counts the entries of the pool. -/
theorem len_eq_card_pool (th : TxHeap ID UTXO Asset) : th.len = Multiset.card th.pool := rfl

omit [DecidableEq ID] in
/-- The pool holds each ID at most once. -/
theorem nodup_map_id_pool (th : TxHeap ID UTXO Asset) : (th.pool.map TxEntry.id).Nodup :=
  th.nodup

/-- `Remove` of an ID the heap does not hold changes nothing. -/
theorem remove_of_indexOf_eq_none {th : TxHeap ID UTXO Asset} {id : ID}
    (hi : th.maxHeap.indexOf id = none) : th.remove id = (none, th) := by
  unfold remove
  split
  · rfl
  · next i hi' => rw [hi] at hi'; cases hi'

/-- `Remove` of a held ID removes its entry from each heap at its own position there. -/
theorem remove_of_indexOf_eq_some {th : TxHeap ID UTXO Asset} {id : ID} {i j : ℕ}
    (hi : th.maxHeap.indexOf id = some i) (hj : th.minHeap.indexOf id = some j) :
    (th.remove id).1 = (th.minHeap.remove j).1.map TxEntry.tx ∧
      (th.remove id).2.maxHeap = (th.maxHeap.remove i).2 ∧
      (th.remove id).2.minHeap = (th.minHeap.remove j).2 := by
  unfold remove
  split
  · next hi' => rw [hi] at hi'; cases hi'
  · next i' hi' =>
    rw [hi] at hi'
    cases hi'
    split
    · next hj' => rw [hj] at hj'; cases hj'
    · next j' hj' =>
      rw [hj] at hj'
      cases hj'
      exact ⟨rfl, rfl, rfl⟩

/-- `Push` keeps both heaps in heap order. -/
theorem Ordered.push {th : TxHeap ID UTXO Asset} (h : th.Ordered) (tx : Tx ID UTXO Asset)
    (gasPrice : ℕ) : (th.push tx gasPrice).Ordered :=
  ⟨h.max_flag, h.min_flag, InternalTxHeap.heapOrdered_push h.max_ordered _,
    InternalTxHeap.heapOrdered_push h.min_ordered _⟩

/-- `Remove` keeps both heaps in heap order. -/
theorem Ordered.remove {th : TxHeap ID UTXO Asset} (h : th.Ordered) (id : ID) :
    (th.remove id).2.Ordered := by
  cases hi : th.maxHeap.indexOf id with
  | none => rw [remove_of_indexOf_eq_none hi]; exact h
  | some i =>
    obtain ⟨j, hj⟩ := Option.ne_none_iff_exists'.mp (th.minHeap_indexOf_ne_none hi)
    obtain ⟨-, hmax, hmin⟩ := remove_of_indexOf_eq_some hi hj
    refine ⟨by rw [hmax]; exact h.max_flag, by rw [hmin]; exact h.min_flag, ?_, ?_⟩
    · rw [hmax]
      exact InternalTxHeap.heapOrdered_remove h.max_ordered (InternalTxHeap.indexOf_spec hi).1
    · rw [hmin]
      exact InternalTxHeap.heapOrdered_remove h.min_ordered (InternalTxHeap.indexOf_spec hj).1

/-- `Push` adds the entry to the pool unless its ID is held already. -/
theorem pool_push (th : TxHeap ID UTXO Asset) (tx : Tx ID UTXO Asset) (gasPrice : ℕ) :
    (th.push tx gasPrice).pool =
      if tx.id ∈ th.pool.map TxEntry.id then th.pool else ⟨tx.id, gasPrice, tx⟩ ::ₘ th.pool := by
  have hperm := th.maxHeap.push_perm ⟨tx.id, gasPrice, tx⟩
  have hhas : th.maxHeap.has tx.id = true ↔ tx.id ∈ th.pool.map TxEntry.id := by
    rw [InternalTxHeap.has_iff, pool, Multiset.map_coe, Multiset.mem_coe]
  by_cases hheld : tx.id ∈ th.pool.map TxEntry.id
  · rw [if_pos (hhas.mpr hheld)] at hperm
    rw [if_pos hheld, pool, pool]
    exact Multiset.coe_eq_coe.mpr hperm
  · rw [if_neg (fun h => hheld (hhas.mp h))] at hperm
    rw [if_neg hheld, pool, pool, Multiset.cons_coe, Multiset.coe_eq_coe]
    exact hperm.trans (List.perm_append_singleton _ _)

/-- `Remove` takes the entries of the ID out of the pool. -/
theorem pool_remove (th : TxHeap ID UTXO Asset) (id : ID) :
    (th.remove id).2.pool = th.pool.filter fun e => e.id ≠ id := by
  cases hi : th.maxHeap.indexOf id with
  | none =>
    -- no entry holds the ID
    rw [remove_of_indexOf_eq_none hi, pool, Multiset.filter_coe,
      List.filter_eq_self.mpr fun e he => by
        simpa using InternalTxHeap.indexOf_eq_none_iff.mp hi e he]
  | some i =>
    obtain ⟨j, hj⟩ := Option.ne_none_iff_exists'.mp (th.minHeap_indexOf_ne_none hi)
    obtain ⟨-, hmax, -⟩ := remove_of_indexOf_eq_some hi hj
    obtain ⟨hi', hid⟩ := InternalTxHeap.indexOf_spec hi
    rw [pool, pool, hmax, Multiset.filter_coe, Multiset.coe_eq_coe]
    exact (th.maxHeap.remove_spec hi').2.trans (hid ▸ eraseIdx_perm_filter th.nodup hi')

/-- `PopMax` removes the ID at the root of the max-heap. -/
theorem popMax_of_head {th : TxHeap ID UTXO Asset} {e : TxEntry ID UTXO Asset}
    (he : th.maxHeap.items.head? = some e) : th.popMax = th.remove e.id := by
  unfold popMax
  split
  · next hnil => rw [hnil] at he; cases he
  · next e' _ hcons => rw [hcons] at he; cases he; rfl

/-- `PopMin` removes the ID at the root of the min-heap. -/
theorem popMin_of_head {th : TxHeap ID UTXO Asset} {e : TxEntry ID UTXO Asset}
    (he : th.minHeap.items.head? = some e) : th.popMin = th.remove e.id := by
  unfold popMin
  split
  · next hnil => rw [hnil] at he; cases he
  · next e' _ hcons => rw [hcons] at he; cases he; rfl

omit [DecidableEq ID] in
/-- The root of the max-heap has a greatest gas price. -/
theorem Ordered.le_head_max {th : TxHeap ID UTXO Asset} (h : th.Ordered)
    {r : TxEntry ID UTXO Asset} (hr : th.maxHeap.items.head? = some r) :
    ∀ e ∈ th.pool, e.gasPrice ≤ r.gasPrice := by
  intro e he
  have hkey := InternalTxHeap.key_head_le h.max_ordered hr (Multiset.mem_coe.mp he)
  simp only [InternalTxHeap.key, h.max_flag, Bool.false_eq_true, if_false] at hkey
  omega

omit [DecidableEq ID] in
/-- The root of the min-heap has a least gas price. -/
theorem Ordered.head_min_le {th : TxHeap ID UTXO Asset} (h : th.Ordered)
    {r : TxEntry ID UTXO Asset} (hr : th.minHeap.items.head? = some r) :
    ∀ e ∈ th.pool, r.gasPrice ≤ e.gasPrice := by
  intro e he
  have hkey := InternalTxHeap.key_head_le h.min_ordered hr
    (th.synced.subset (Multiset.mem_coe.mp he))
  simp only [InternalTxHeap.key, h.min_flag, if_true] at hkey
  omega

omit [DecidableEq ID] in
/-- The root of the min-heap is an entry of the pool. -/
theorem mem_pool_of_head_min {th : TxHeap ID UTXO Asset} {r : TxEntry ID UTXO Asset}
    (hr : th.minHeap.items.head? = some r) : r ∈ th.pool :=
  Multiset.mem_coe.mpr (th.synced.symm.subset (List.mem_of_mem_head? hr))

omit [DecidableEq ID] in
/-- `PeekMax` sees a greatest gas price of the heap. -/
theorem peekMax_ge {th : TxHeap ID UTXO Asset} (h : th.Ordered) (hlen : 0 < th.len) :
    ∀ e ∈ th.pool, e.gasPrice ≤ (th.peekMax hlen).2 :=
  h.le_head_max (List.head?_eq_getElem?.trans (List.getElem?_eq_getElem hlen))

omit [DecidableEq ID] in
/-- `PeekMin` sees a least gas price of the heap. -/
theorem peekMin_le {th : TxHeap ID UTXO Asset} (h : th.Ordered) (hlen : 0 < th.len) :
    ∀ e ∈ th.pool, (th.peekMin hlen).2 ≤ e.gasPrice :=
  h.head_min_le (List.head?_eq_getElem?.trans
    (List.getElem?_eq_getElem (by rw [th.length_minHeap]; exact hlen)))

omit [DecidableEq ID] in
/-- A heap that is not empty has a root in its max-heap. -/
theorem exists_head_max {th : TxHeap ID UTXO Asset} (hlen : th.len ≠ 0) :
    ∃ r, th.maxHeap.items.head? = some r := by
  cases hitems : th.maxHeap.items with
  | nil => simp [len, hitems] at hlen
  | cons r _ => exact ⟨r, rfl⟩

omit [DecidableEq ID] in
/-- A heap that is not empty has a root in its min-heap. -/
theorem exists_head_min {th : TxHeap ID UTXO Asset} (hlen : th.len ≠ 0) :
    ∃ r, th.minHeap.items.head? = some r := by
  cases hitems : th.minHeap.items with
  | nil => rw [← th.length_minHeap, hitems] at hlen; simp at hlen
  | cons r _ => exact ⟨r, rfl⟩

/-- Every operation keeps both heaps in heap order. -/
theorem Ordered.step {th th' : TxHeap ID UTXO Asset} (h : th.Ordered)
    {op : TxHeapOp ID UTXO Asset} (hs : th.step op = some th') : th'.Ordered := by
  cases op with
  | push tx gasPrice =>
    simp only [TxHeap.step, Option.some.injEq] at hs
    exact hs ▸ h.push tx gasPrice
  | remove id =>
    simp only [TxHeap.step, Option.some.injEq] at hs
    exact hs ▸ h.remove id
  | popMax =>
    simp only [TxHeap.step] at hs
    split_ifs at hs with hlen
    obtain ⟨r, hr⟩ := exists_head_max hlen
    simp only [Option.some.injEq, popMax_of_head hr] at hs
    exact hs ▸ h.remove r.id
  | popMin =>
    simp only [TxHeap.step] at hs
    split_ifs at hs with hlen
    obtain ⟨r, hr⟩ := exists_head_min hlen
    simp only [Option.some.injEq, popMin_of_head hr] at hs
    exact hs ▸ h.remove r.id

/-- Every operation changes the contents as `PoolStep` says. -/
theorem poolStep_step {th th' : TxHeap ID UTXO Asset} (h : th.Ordered)
    {op : TxHeapOp ID UTXO Asset} (hs : th.step op = some th') : PoolStep th.pool op th'.pool := by
  cases op with
  | push tx gasPrice =>
    simp only [TxHeap.step, Option.some.injEq] at hs
    subst hs
    rw [pool_push]
    split_ifs with hheld
    · exact .push_held hheld
    · exact .push_new hheld
  | remove id =>
    simp only [TxHeap.step, Option.some.injEq] at hs
    subst hs
    rw [pool_remove]
    exact .remove
  | popMax =>
    simp only [TxHeap.step] at hs
    split_ifs at hs with hlen
    obtain ⟨r, hr⟩ := exists_head_max hlen
    simp only [Option.some.injEq, popMax_of_head hr] at hs
    subst hs
    rw [pool_remove]
    exact .popMax (Multiset.mem_coe.mpr (List.mem_of_mem_head? hr)) (h.le_head_max hr)
  | popMin =>
    simp only [TxHeap.step] at hs
    split_ifs at hs with hlen
    obtain ⟨r, hr⟩ := exists_head_min hlen
    simp only [Option.some.injEq, popMin_of_head hr] at hs
    subst hs
    rw [pool_remove]
    exact .popMin (mem_pool_of_head_min hr) (h.head_min_le hr)

/-- The operations one after the other; `none` if a pop meets an empty heap. -/
def run (th : TxHeap ID UTXO Asset) (ops : List (TxHeapOp ID UTXO Asset)) :
    Option (TxHeap ID UTXO Asset) :=
  ops.foldlM step th

/-- Along any run, both heaps stay in heap order, and the contents follow `PoolStep`. -/
theorem run_ordered_poolRun {th : TxHeap ID UTXO Asset} (h : th.Ordered) :
    ∀ {ops : List (TxHeapOp ID UTXO Asset)} {th' : TxHeap ID UTXO Asset}, th.run ops = some th' →
      th'.Ordered ∧ PoolRun th.pool ops th'.pool
  | [], _, hrun => by
    simp only [run, List.foldlM_nil, Option.pure_def, Option.some.injEq] at hrun
    subst hrun
    exact ⟨h, .nil⟩
  | op :: ops, th', hrun => by
    simp only [run, List.foldlM_cons, Option.bind_eq_bind, Option.bind_eq_some_iff] at hrun
    obtain ⟨th₁, hs, hrest⟩ := hrun
    obtain ⟨h', hpool⟩ := run_ordered_poolRun (h.step hs) hrest
    exact ⟨h', .cons (poolStep_step h hs) hpool⟩

/-- Whatever operations a heap made by `newTxHeap` has run, it holds what `PoolStep` says they
leave, and `PeekMin` and `PeekMax` see a least and a greatest gas price of it. -/
theorem run_empty_peeks_bound {ops : List (TxHeapOp ID UTXO Asset)} {th : TxHeap ID UTXO Asset}
    (hrun : (empty : TxHeap ID UTXO Asset).run ops = some th) (hlen : 0 < th.len) :
    PoolRun 0 ops th.pool ∧
      ∀ e ∈ th.pool, (th.peekMin hlen).2 ≤ e.gasPrice ∧ e.gasPrice ≤ (th.peekMax hlen).2 := by
  obtain ⟨hord, hpool⟩ := run_ordered_poolRun ordered_empty hrun
  exact ⟨hpool, fun e he => ⟨peekMin_le hord hlen e he, peekMax_ge hord hlen e he⟩⟩

/-- Three pushes and a `PopMax`, which takes the entry of gas price 9 out. -/
def sampleHeapOps : List (TxHeapOp ℕ ℕ ℕ) :=
  [.push ⟨1, [], .ok 0, fun _ => .ok 0⟩ 5, .push ⟨2, [], .ok 0, fun _ => .ok 0⟩ 9,
    .push ⟨3, [], .ok 0, fun _ => .ok 0⟩ 7, .popMax]

/-- The heap the sample operations leave. -/
def sampleHeap : TxHeap ℕ ℕ ℕ :=
  ((empty : TxHeap ℕ ℕ ℕ).run sampleHeapOps).get (by decide)

/-- The sample run from `newTxHeap` leaves a heap whose peeks bound the gas prices of its pool. -/
theorem run_empty_peeks_bound_sample :
    (empty : TxHeap ℕ ℕ ℕ).run sampleHeapOps = some sampleHeap ∧
      ∃ hlen : 0 < sampleHeap.len, PoolRun 0 sampleHeapOps sampleHeap.pool ∧
        ∀ e ∈ sampleHeap.pool,
          (sampleHeap.peekMin hlen).2 ≤ e.gasPrice ∧ e.gasPrice ≤ (sampleHeap.peekMax hlen).2 := by
  have hrun : (empty : TxHeap ℕ ℕ ℕ).run sampleHeapOps = some sampleHeap := by
    simp only [sampleHeap, Option.some_get]
  have hlen : 0 < sampleHeap.len := by decide
  exact ⟨hrun, hlen, run_empty_peeks_bound hrun hlen⟩

end TxHeap

end Jeth
