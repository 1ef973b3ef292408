import Mathlib
import Jeth.Lib.BinaryHeap

/-!
# The double-ended transaction heap

`txHeap` of `plugin/evm/tx_heap.go`: the pending atomic transactions of the mempool, kept twice,
in a max-heap and in a min-heap by gas price, so that both the best and the worst pending
transaction are at hand.

An entry's `index` field is always its position in `items` (`Swap` rewrites it, and `Push`
sets it to the old length, the position it is appended at), and `lookup` maps each ID to the
entry holding it. The model keeps neither: `indexOf` finds the position of an ID in `items`.

The two heaps hold the same entries with pairwise distinct IDs. `TxHeap` carries this as two
fields, so that the branch of `Remove` for a heap that lacks an ID the other one has, which
the source marks as one that should never happen, has no counterpart here.
-/

namespace Jeth

open scoped List

/-- What the mempool reads of an atomic transaction `*Tx`: `tx.ID()`, `tx.InputUTXOs()` in its
iteration order, `tx.GasUsed(true)` and `tx.Burned(assetID)`; an `error` stands for the error
either of the last two returns. -/
structure Tx (ID UTXO Asset : Type*) where
  id : ID
  inputUTXOs : List UTXO
  gasUsed : Except String ℕ
  burned : Asset → Except String ℕ

/-- `txEntry`, without its `index`. -/
structure TxEntry (ID UTXO Asset : Type*) where
  id : ID
  gasPrice : ℕ
  tx : Tx ID UTXO Asset

/-- `internalTxHeap`, without its `lookup` map. -/
structure InternalTxHeap (ID UTXO Asset : Type*) where
  isMinHeap : Bool
  items : List (TxEntry ID UTXO Asset)

variable {ID UTXO Asset : Type*} [DecidableEq ID]

namespace InternalTxHeap

/-- `Less(i, j)` on the entries at `i` and `j`. -/
def less (th : InternalTxHeap ID UTXO Asset) (a b : TxEntry ID UTXO Asset) : Bool :=
  if th.isMinHeap then decide (a.gasPrice < b.gasPrice) else decide (a.gasPrice > b.gasPrice)

/-- The `index` of the entry `lookup` holds for `id`. -/
def indexOf (th : InternalTxHeap ID UTXO Asset) (id : ID) : Option ℕ :=
  th.items.findIdx? fun e => decide (e.id = id)

/-- `Has(id)`. -/
def has (th : InternalTxHeap ID UTXO Asset) (id : ID) : Bool := (th.indexOf id).isSome

/-- `Get(id)`. -/
def get (th : InternalTxHeap ID UTXO Asset) (id : ID) : Option (TxEntry ID UTXO Asset) :=
  (th.indexOf id).bind fun i => th.items[i]?

/-- `heap.Push(th, entry)`: the interface's `Push` appends the entry unless its ID is already
held, and `up` runs from the last position either way. -/
def push (th : InternalTxHeap ID UTXO Asset) (entry : TxEntry ID UTXO Asset) :
    InternalTxHeap ID UTXO Asset :=
  ⟨th.isMinHeap,
    BinaryHeap.upLast th.less (if th.has entry.id then th.items else th.items ++ [entry])⟩

/-- `heap.Remove(th, i)`. -/
def remove (th : InternalTxHeap ID UTXO Asset) (i : ℕ) :
    Option (TxEntry ID UTXO Asset) × InternalTxHeap ID UTXO Asset :=
  let (entry, items) := BinaryHeap.remove th.less th.items i
  (entry, ⟨th.isMinHeap, items⟩)

theorem has_iff (th : InternalTxHeap ID UTXO Asset) (id : ID) :
    th.has id = true ↔ id ∈ th.items.map TxEntry.id := by
  simp [has, indexOf, List.findIdx?_isSome, List.any_eq_true]

theorem has_eq_of_perm {th th' : InternalTxHeap ID UTXO Asset} (hp : th.items ~ th'.items)
    (id : ID) : th.has id = th'.has id := by
  rw [Bool.eq_iff_iff, has_iff, has_iff]
  exact (hp.map TxEntry.id).mem_iff

/-- The position `indexOf` finds is in range and holds the ID. -/
theorem indexOf_spec {th : InternalTxHeap ID UTXO Asset} {id : ID} {i : ℕ}
    (h : th.indexOf id = some i) : ∃ hi : i < th.items.length, th.items[i].id = id := by
  obtain ⟨hi, hp, -⟩ := List.findIdx?_eq_some_iff_getElem.mp h
  exact ⟨hi, of_decide_eq_true hp⟩

theorem push_perm (th : InternalTxHeap ID UTXO Asset) (entry : TxEntry ID UTXO Asset) :
    (th.push entry).items ~ if th.has entry.id then th.items else th.items ++ [entry] :=
  BinaryHeap.upLast_perm _ _

omit [DecidableEq ID] in
theorem remove_spec (th : InternalTxHeap ID UTXO Asset) {i : ℕ} (hi : i < th.items.length) :
    (th.remove i).1 = some th.items[i] ∧ (th.remove i).2.items ~ th.items.eraseIdx i :=
  BinaryHeap.remove_spec th.less th.items hi

end InternalTxHeap

/-! ## The two heaps -/

/-- Two lists that are permutations of each other, with the same element at `i` and at `j`,
stay permutations of each other without it. -/
theorem perm_eraseIdx_of_getElem_eq {α : Type*} {l₁ l₂ : List α} (hp : l₁ ~ l₂) {i j : ℕ}
    (hi : i < l₁.length) (hj : j < l₂.length) (he : l₁[i] = l₂[j]) :
    l₁.eraseIdx i ~ l₂.eraseIdx j := by
  have h₁ := List.getElem_cons_eraseIdx_perm hi
  have h₂ := List.getElem_cons_eraseIdx_perm hj
  rw [he] at h₁
  exact (h₁.trans (hp.trans h₂.symm)).cons_inv

/-- `txHeap`: a max-heap and a min-heap of the same entries, with pairwise distinct IDs. -/
structure TxHeap (ID UTXO Asset : Type*) where
  maxHeap : InternalTxHeap ID UTXO Asset
  minHeap : InternalTxHeap ID UTXO Asset
  synced : maxHeap.items ~ minHeap.items
  nodup : (maxHeap.items.map TxEntry.id).Nodup

namespace TxHeap

/-- `newTxHeap`. -/
def empty : TxHeap ID UTXO Asset :=
  ⟨⟨false, []⟩, ⟨true, []⟩, List.Perm.refl [], List.nodup_nil⟩

/-- `Len()`. -/
def len (th : TxHeap ID UTXO Asset) : ℕ := th.maxHeap.items.length

/-- `Has(id)`. -/
def has (th : TxHeap ID UTXO Asset) (id : ID) : Bool := th.maxHeap.has id

/-- `Get(id)`. -/
def get (th : TxHeap ID UTXO Asset) (id : ID) : Option (Tx ID UTXO Asset) :=
  (th.maxHeap.get id).map TxEntry.tx

omit [DecidableEq ID] in
theorem length_minHeap (th : TxHeap ID UTXO Asset) : th.minHeap.items.length = th.len :=
  th.synced.length_eq.symm

theorem push_synced (th : TxHeap ID UTXO Asset) (entry : TxEntry ID UTXO Asset) :
    (th.maxHeap.push entry).items ~ (th.minHeap.push entry).items := by
  refine (th.maxHeap.push_perm entry).trans (List.Perm.trans ?_ (th.minHeap.push_perm entry).symm)
  rw [InternalTxHeap.has_eq_of_perm th.synced]
  split_ifs
  · exact th.synced
  · exact th.synced.append_right [entry]

theorem push_nodup (th : TxHeap ID UTXO Asset) (entry : TxEntry ID UTXO Asset) :
    ((th.maxHeap.push entry).items.map TxEntry.id).Nodup := by
  refine ((th.maxHeap.push_perm entry).map TxEntry.id).nodup_iff.mpr ?_
  split_ifs with hhas
  · exact th.nodup
  · rw [InternalTxHeap.has_iff] at hhas
    rw [List.map_append, List.map_singleton, ← List.concat_eq_append]
    exact th.nodup.concat hhas

/-- `Push(tx, gasPrice)`. -/
def push (th : TxHeap ID UTXO Asset) (tx : Tx ID UTXO Asset) (gasPrice : ℕ) :
    TxHeap ID UTXO Asset :=
  let entry : TxEntry ID UTXO Asset := ⟨tx.id, gasPrice, tx⟩
  ⟨th.maxHeap.push entry, th.minHeap.push entry, th.push_synced entry, th.push_nodup entry⟩

/-- An ID the max-heap holds, the min-heap holds too. -/
theorem minHeap_indexOf_ne_none (th : TxHeap ID UTXO Asset) {id : ID} {i : ℕ}
    (hi : th.maxHeap.indexOf id = some i) : th.minHeap.indexOf id ≠ none := by
  have hhas : th.maxHeap.has id = true := by simp [InternalTxHeap.has, hi]
  rw [InternalTxHeap.has_eq_of_perm th.synced] at hhas
  simpa [InternalTxHeap.has, Option.isSome_iff_ne_none] using hhas

/-- The entries of an ID in the two heaps are the same entry. -/
theorem getElem_maxHeap_eq (th : TxHeap ID UTXO Asset) {id : ID} {i j : ℕ}
    (hi : th.maxHeap.indexOf id = some i) (hj : th.minHeap.indexOf id = some j) :
    ∃ (hi' : i < th.maxHeap.items.length) (hj' : j < th.minHeap.items.length),
      th.maxHeap.items[i] = th.minHeap.items[j] := by
  obtain ⟨hi', hid⟩ := InternalTxHeap.indexOf_spec hi
  obtain ⟨hj', hjd⟩ := InternalTxHeap.indexOf_spec hj
  refine ⟨hi', hj', ?_⟩
  have hnodup : (th.minHeap.items.map TxEntry.id).Nodup :=
    (th.synced.map TxEntry.id).nodup_iff.mp th.nodup
  exact List.inj_on_of_nodup_map hnodup (th.synced.subset (List.getElem_mem hi'))
    (List.getElem_mem hj') (hid.trans hjd.symm)

theorem remove_synced (th : TxHeap ID UTXO Asset) {id : ID} {i j : ℕ}
    (hi : th.maxHeap.indexOf id = some i) (hj : th.minHeap.indexOf id = some j) :
    (th.maxHeap.remove i).2.items ~ (th.minHeap.remove j).2.items := by
  obtain ⟨hi', hj', he⟩ := th.getElem_maxHeap_eq hi hj
  exact ((th.maxHeap.remove_spec hi').2.trans
    (perm_eraseIdx_of_getElem_eq th.synced hi' hj' he)).trans (th.minHeap.remove_spec hj').2.symm

omit [DecidableEq ID] in
theorem remove_nodup (th : TxHeap ID UTXO Asset) {i : ℕ} (hi : i < th.maxHeap.items.length) :
    ((th.maxHeap.remove i).2.items.map TxEntry.id).Nodup := by
  refine (((th.maxHeap.remove_spec hi).2).map TxEntry.id).nodup_iff.mpr ?_
  exact th.nodup.sublist ((List.eraseIdx_sublist _ i).map TxEntry.id)

/-- `Remove(id)`: the entry is removed from both heaps, and its transaction returned. -/
def remove (th : TxHeap ID UTXO Asset) (id : ID) : Option (Tx ID UTXO Asset) × TxHeap ID UTXO Asset :=
  match hi : th.maxHeap.indexOf id with
  | none => (none, th)
  | some i =>
    match hj : th.minHeap.indexOf id with
    | none => absurd hj (th.minHeap_indexOf_ne_none hi)
    | some j =>
      ((th.minHeap.remove j).1.map TxEntry.tx,
        ⟨(th.maxHeap.remove i).2, (th.minHeap.remove j).2, th.remove_synced hi hj,
          th.remove_nodup (InternalTxHeap.indexOf_spec hi).1⟩)

/-- A removal that returns a transaction takes one entry off the heap. -/
theorem len_remove {th th' : TxHeap ID UTXO Asset} {id : ID} {tx : Tx ID UTXO Asset}
    (h : th.remove id = (some tx, th')) : th'.len + 1 = th.len := by
  unfold remove at h
  split at h
  · cases h
  · next i hi =>
    split at h
    · exact absurd ‹_› (th.minHeap_indexOf_ne_none hi)
    · obtain ⟨-, rfl⟩ := Prod.mk.inj h
      obtain ⟨hi', -⟩ := InternalTxHeap.indexOf_spec hi
      have hlen := (th.maxHeap.remove_spec hi').2.length_eq
      rw [List.length_eraseIdx_of_lt hi'] at hlen
      simp only [len, hlen]
      omega

/-- `PeekMin()` of a heap that is not empty. -/
def peekMin (th : TxHeap ID UTXO Asset) (h : 0 < th.len) : Tx ID UTXO Asset × ℕ :=
  have h : 0 < th.minHeap.items.length := by rw [th.length_minHeap]; exact h
  let entry := th.minHeap.items[0]
  (entry.tx, entry.gasPrice)

/-- `PeekMax()` of a heap that is not empty. -/
def peekMax (th : TxHeap ID UTXO Asset) (h : 0 < th.len) : Tx ID UTXO Asset × ℕ :=
  have h : 0 < th.maxHeap.items.length := h
  let entry := th.maxHeap.items[0]
  (entry.tx, entry.gasPrice)

/-- `PopMax()`: `Remove` of the ID at the root of the max-heap. The source indexes the root
without a check; its callers test `Len() > 0` first, and an empty heap here returns nothing. -/
def popMax (th : TxHeap ID UTXO Asset) : Option (Tx ID UTXO Asset) × TxHeap ID UTXO Asset :=
  match th.maxHeap.items with
  | [] => (none, th)
  | entry :: _ => th.remove entry.id

/-- `PopMin()`: `Remove` of the ID at the root of the min-heap. -/
def popMin (th : TxHeap ID UTXO Asset) : Option (Tx ID UTXO Asset) × TxHeap ID UTXO Asset :=
  match th.minHeap.items with
  | [] => (none, th)
  | entry :: _ => th.remove entry.id

theorem len_popMax {th th' : TxHeap ID UTXO Asset} {tx : Tx ID UTXO Asset}
    (h : th.popMax = (some tx, th')) : th'.len + 1 = th.len := by
  unfold popMax at h
  split at h
  · cases h
  · exact len_remove h

/-- `Remove` only takes IDs away. -/
theorem has_of_has_remove {th : TxHeap ID UTXO Asset} {id x : ID}
    (h : (th.remove id).2.has x = true) : th.has x = true := by
  unfold remove at h
  split at h
  · exact h
  · next i hi =>
    split at h
    · exact absurd ‹_› (th.minHeap_indexOf_ne_none hi)
    · obtain ⟨hi', -⟩ := InternalTxHeap.indexOf_spec hi
      unfold has at h ⊢
      rw [InternalTxHeap.has_iff] at h ⊢
      have hsub : (th.maxHeap.remove i).2.items.map TxEntry.id ⊆ th.maxHeap.items.map TxEntry.id :=
        List.Subset.trans ((th.maxHeap.remove_spec hi').2.map TxEntry.id).subset
          ((List.eraseIdx_sublist _ i).map TxEntry.id).subset
      exact hsub h

/-- A transaction whose ID the heap does not hold is pushed as a new entry. -/
theorem mem_push_minHeap {th : TxHeap ID UTXO Asset} {tx : Tx ID UTXO Asset} {gasPrice : ℕ}
    (h : th.has tx.id = false) : ⟨tx.id, gasPrice, tx⟩ ∈ (th.push tx gasPrice).minHeap.items := by
  have hmin : th.minHeap.has tx.id = false := by
    rw [← InternalTxHeap.has_eq_of_perm th.synced]
    exact h
  have hperm := th.minHeap.push_perm ⟨tx.id, gasPrice, tx⟩
  rw [if_neg (by simpa using hmin)] at hperm
  exact hperm.symm.subset (List.mem_append_right _ (List.mem_singleton_self _))

end TxHeap

end Jeth
