import Jeth.Evm.Mempool

/-!
# The gossip bloom filter of the atomic mempool

The mempool sends its peers a bloom filter of the transactions it holds (`GetFilter`), so that
they do not gossip those back. `addTx` adds each transaction it accepts to the filter. When
`ResetBloomFilterIfNeeded` replaces the filter, `addTx` refills it from the pending transactions
of `txHeap`, and from nothing else.

Every call on the mempool either keeps what the filter held or leaves it holding exactly the
pending transactions (`GetFilter_grows_or_resets_to_pending`). The second case drops the current
and issued transactions, which `Has` still reports as held.
-/

namespace Jeth

namespace Mempool

variable {ID UTXO Asset : Type*} [DecidableEq ID] [DecidableEq UTXO]

/-- The IDs of the pending transactions, in the order a reset re-adds them. -/
def pendingTxIDs (m : Mempool ID UTXO Asset) : List ID :=
  m.txHeap.minHeap.items.map fun e => e.tx.id

/-! ## The calls that leave the filter alone -/

omit [DecidableEq ID] [DecidableEq UTXO] in
/-- A fold of calls that each keep the filter keeps it. -/
theorem bloom_foldl {β : Type*} (f : Mempool ID UTXO Asset → β → Mempool ID UTXO Asset)
    (hf : ∀ m x, (f m x).bloom = m.bloom) (l : List β) (m : Mempool ID UTXO Asset) :
    (l.foldl f m).bloom = m.bloom := by
  induction l generalizing m with
  | nil => rfl
  | cons x l ih => rw [List.foldl_cons, ih, hf]

omit [DecidableEq ID] [DecidableEq UTXO] in
/-- `addPending` keeps the filter. -/
@[simp] theorem bloom_addPending (m : Mempool ID UTXO Asset) : m.addPending.bloom = m.bloom := rfl

/-- `removeTx` keeps the filter. -/
@[simp] theorem bloom_removeTx (m : Mempool ID UTXO Asset) (tx : Tx ID UTXO Asset)
    (discard : Bool) : (m.removeTx tx discard).bloom = m.bloom := by
  unfold removeTx
  split <;> rfl

/-- `removeTx` takes the ID of the transaction out of the heap. -/
theorem txHeap_removeTx (m : Mempool ID UTXO Asset) (tx : Tx ID UTXO Asset) (discard : Bool) :
    (m.removeTx tx discard).txHeap = (m.txHeap.remove tx.id).2 := by
  unfold removeTx
  split <;> rfl

omit [DecidableEq UTXO] in
/-- `NextTx` keeps the filter. -/
@[simp] theorem bloom_NextTx (m : Mempool ID UTXO Asset) : m.NextTx.2.bloom = m.bloom := by
  unfold NextTx
  split
  · split <;> rfl
  · rfl

omit [DecidableEq UTXO] in
/-- `IssueCurrentTxs` keeps the filter. -/
@[simp] theorem bloom_IssueCurrentTxs (m : Mempool ID UTXO Asset) :
    m.IssueCurrentTxs.bloom = m.bloom := by
  unfold IssueCurrentTxs
  dsimp only
  split
  · rw [bloom_addPending]
    apply bloom_foldl
    intro _ _
    rfl
  · apply bloom_foldl
    intro _ _
    rfl

/-- `cancelTx` keeps the filter. -/
@[simp] theorem bloom_cancelTx (m : Mempool ID UTXO Asset) (tx : Tx ID UTXO Asset) :
    (m.cancelTx tx).bloom = m.bloom := by
  unfold cancelTx
  split <;> rfl

/-- `CancelCurrentTx` keeps the filter. -/
@[simp] theorem bloom_CancelCurrentTx (m : Mempool ID UTXO Asset) (txID : ID) :
    (m.CancelCurrentTx txID).bloom = m.bloom := by
  unfold CancelCurrentTx
  split
  · exact bloom_cancelTx m _
  · rfl

/-- `CancelCurrentTxs` keeps the filter. -/
@[simp] theorem bloom_CancelCurrentTxs (m : Mempool ID UTXO Asset) :
    m.CancelCurrentTxs.bloom = m.bloom := by
  unfold CancelCurrentTxs
  dsimp only
  split
  · rw [bloom_addPending]
    apply bloom_foldl
    intro m e
    exact bloom_cancelTx m _
  · apply bloom_foldl
    intro m e
    exact bloom_cancelTx m _

/-- `DiscardCurrentTx` keeps the filter. -/
@[simp] theorem bloom_DiscardCurrentTx (m : Mempool ID UTXO Asset) (txID : ID) :
    (m.DiscardCurrentTx txID).bloom = m.bloom := by
  unfold DiscardCurrentTx
  split <;> rfl

/-- `DiscardCurrentTxs` keeps the filter. -/
@[simp] theorem bloom_DiscardCurrentTxs (m : Mempool ID UTXO Asset) :
    m.DiscardCurrentTxs.bloom = m.bloom := by
  apply bloom_foldl
  intro _ _
  rfl

omit [DecidableEq UTXO] in
/-- `GetTx` keeps the filter. -/
@[simp] theorem bloom_GetTx (m : Mempool ID UTXO Asset) (txID : ID) :
    (m.GetTx txID).2.bloom = m.bloom := by
  unfold GetTx
  repeat' split
  all_goals rfl

/-! ## Adding a transaction -/

/-- The entry points that add a transaction leave the filter and the heap as `addTx` does;
they differ from it only in what they record as discarded. -/
theorem Add_bloom_txHeap (m : Mempool ID UTXO Asset) (tx : Tx ID UTXO Asset) :
    ((m.Add tx).2.bloom = (m.addTx tx false).2.bloom ∧
        (m.Add tx).2.txHeap = (m.addTx tx false).2.txHeap) ∧
      ((m.AddTx tx).2.bloom = (m.addTx tx false).2.bloom ∧
        (m.AddTx tx).2.txHeap = (m.addTx tx false).2.txHeap) ∧
      ((m.AddLocalTx tx).2.bloom = (m.addTx tx false).2.bloom ∧
        (m.AddLocalTx tx).2.txHeap = (m.addTx tx false).2.txHeap) := by
  refine ⟨?_, ?_, ?_⟩
  all_goals
    dsimp only [Add, AddTx, AddLocalTx]
    split
    · next err m' hadd =>
      rw [hadd]
      split <;> exact ⟨rfl, rfl⟩
    · next m' hadd => rw [hadd]; exact ⟨rfl, rfl⟩

omit [DecidableEq UTXO] in
/-- `knownAt` is `none` only for an ID the heap does not hold. -/
theorem has_of_knownAt_eq_none {m : Mempool ID UTXO Asset} {txID : ID}
    (h : m.knownAt txID = none) : m.txHeap.has txID = false := by
  unfold knownAt at h
  split_ifs at h with h₁ h₂ h₃
  simpa using h₃

/-- Removing transactions only takes IDs off the heap. -/
theorem has_of_has_foldl_removeTx (l : List (Tx ID UTXO Asset)) (m : Mempool ID UTXO Asset)
    {x : ID} (h : (l.foldl (fun m conflictTx => m.removeTx conflictTx true) m).txHeap.has x = true) :
    m.txHeap.has x = true := by
  induction l generalizing m with
  | nil => exact h
  | cons t l ih =>
    have := ih _ h
    rw [txHeap_removeTx] at this
    exact TxHeap.has_of_has_remove this

/-- What the size check leads to: the mempool as it was, or the push of `tx` onto a mempool
with the same filter and no more IDs on the heap. -/
theorem addTxSized_cases (m : Mempool ID UTXO Asset) (tx : Tx ID UTXO Asset) (gasPrice : ℕ) :
    ((m.addTxSized tx gasPrice).1 ≠ .ok () ∧ (m.addTxSized tx gasPrice).2 = m) ∨
      ∃ m₀ : Mempool ID UTXO Asset, m₀.bloom = m.bloom ∧
        (∀ x, m₀.txHeap.has x = true → m.txHeap.has x = true) ∧
        m.addTxSized tx gasPrice = (.ok (), m₀.addTxPush tx gasPrice) := by
  unfold addTxSized
  split
  · split
    · split
      · split
        · exact .inl ⟨(by intro h; cases h), rfl⟩
        · -- the cheapest pending transaction is evicted first
          refine .inr ⟨_, bloom_removeTx _ _ _, fun x hx => ?_, rfl⟩
          rw [txHeap_removeTx] at hx
          exact TxHeap.has_of_has_remove hx
    · exact .inl ⟨(by intro h; cases h), rfl⟩
  · exact .inr ⟨m, rfl, fun _ hx => hx, rfl⟩

/-- What `addTx` can do: keep the filter, or accept `tx` and push it onto a mempool with the
same filter whose heap does not hold its ID. -/
theorem addTx_cases (m : Mempool ID UTXO Asset) (tx : Tx ID UTXO Asset) (force : Bool) :
    ((m.addTx tx force).1 ≠ .ok () ∧ (m.addTx tx force).2.bloom = m.bloom) ∨
      ∃ (m₀ : Mempool ID UTXO Asset) (gasPrice : ℕ), m₀.bloom = m.bloom ∧
        m₀.txHeap.has tx.id = false ∧ m.addTx tx force = (.ok (), m₀.addTxPush tx gasPrice) := by
  unfold addTx
  split
  · exact .inl ⟨(by intro h; cases h), rfl⟩
  · next hknown =>
    have hnew := has_of_knownAt_eq_none hknown
    split
    · exact .inl ⟨(by intro h; cases h), rfl⟩
    · dsimp only
      split
      · exact .inl ⟨(by intro h; cases h), rfl⟩
      · split
        · split
          · exact .inl ⟨(by intro h; cases h), rfl⟩
          · next conflictingTxs _ _ _ =>
            -- the outbid conflicts are removed before the size check
            have hfold := bloom_foldl (fun m conflictTx => m.removeTx conflictTx true)
              (fun m t => bloom_removeTx m t true) conflictingTxs m
            rcases addTxSized_cases (conflictingTxs.foldl (fun m conflictTx => m.removeTx conflictTx true) m)
              tx ((m.atomicTxGasPrice tx).toOption.getD 0) with h | ⟨m₀, hbloom, hhas, heq⟩
            · exact .inl ⟨h.1, by rw [h.2, hfold]⟩
            · refine .inr ⟨m₀, _, hbloom.trans hfold, ?_, heq⟩
              rw [Bool.eq_false_iff]
              intro hx
              rw [has_of_has_foldl_removeTx conflictingTxs m (hhas _ hx)] at hnew
              exact Bool.noConfusion hnew
        · rcases addTxSized_cases m tx ((m.atomicTxGasPrice tx).toOption.getD 0) with
            h | ⟨m₀, hbloom, hhas, heq⟩
          · exact .inl ⟨h.1, by rw [h.2]⟩
          · refine .inr ⟨m₀, _, hbloom, ?_, heq⟩
            rw [Bool.eq_false_iff]
            intro hx
            rw [hhas _ hx] at hnew
            exact Bool.noConfusion hnew

/-- What `addTxPush` does to the heap and the filter: `tx` is pushed, and the filter either
gains its ID or is reset and refilled from the pending transactions alone. -/
theorem addTxPush_cases (m : Mempool ID UTXO Asset) (tx : Tx ID UTXO Asset) (gasPrice : ℕ) :
    (m.addTxPush tx gasPrice).txHeap = m.txHeap.push tx gasPrice ∧
      ((m.addTxPush tx gasPrice).bloom.added = tx.id :: m.bloom.added ∨
        (m.addTxPush tx gasPrice).bloom.added = (m.addTxPush tx gasPrice).pendingTxIDs.reverse) := by
  unfold addTxPush
  dsimp only
  generalize hreset : BloomFilter.ResetBloomFilterIfNeeded _ _ = r
  obtain ⟨reset, bloom⟩ := r
  rcases BloomFilter.ResetBloomFilterIfNeeded_eq hreset with ⟨rfl, rfl⟩ | ⟨rfl, hadded⟩
  · exact ⟨rfl, .inl rfl⟩
  · refine ⟨rfl, .inr ?_⟩
    simp [addPending, pendingTxIDs, hadded, BloomFilter.added_foldl_add]

/-- The filter after a call, against the one before: it kept every ID it held, or it holds
exactly the pending transactions. -/
def GrowsOrResets (m m' : Mempool ID UTXO Asset) : Prop :=
  (∀ id ∈ m.GetFilter.added, id ∈ m'.GetFilter.added) ∨
    ∀ id, id ∈ m'.GetFilter.added ↔ id ∈ m'.pendingTxIDs

omit [DecidableEq ID] [DecidableEq UTXO] in
/-- A call that keeps the filter lets it grow, trivially. -/
theorem GrowsOrResets.of_bloom_eq {m m' : Mempool ID UTXO Asset} (h : m'.bloom = m.bloom) :
    GrowsOrResets m m' :=
  .inl fun id hid => by rw [GetFilter, h]; exact hid

omit [DecidableEq ID] [DecidableEq UTXO] in
/-- What the filter does depends on the filter and the heap after the call only. -/
theorem GrowsOrResets.congr {m m' m'' : Mempool ID UTXO Asset} (h : GrowsOrResets m m')
    (hbloom : m''.bloom = m'.bloom) (htxHeap : m''.txHeap = m'.txHeap) : GrowsOrResets m m'' := by
  unfold GrowsOrResets GetFilter pendingTxIDs at h ⊢
  rw [hbloom, htxHeap]
  exact h

/-- `addTx` keeps the filter or resets it to the pending transactions, and a transaction it
accepts is in the filter afterwards, including when the filter was reset. -/
theorem addTx_GetFilter (m : Mempool ID UTXO Asset) (tx : Tx ID UTXO Asset) (force : Bool) :
    ((m.addTx tx force).1 = .ok () → tx.id ∈ (m.addTx tx force).2.GetFilter.added) ∧
      GrowsOrResets m (m.addTx tx force).2 := by
  rcases addTx_cases m tx force with ⟨herr, hkeep⟩ | ⟨m₀, gasPrice, hbloom, hnew, heq⟩
  · exact ⟨fun hok => absurd hok herr, .of_bloom_eq hkeep⟩
  · rw [heq]
    obtain ⟨hheap, hgrow | hreset⟩ := addTxPush_cases m₀ tx gasPrice
    · refine ⟨fun _ => by simp [GetFilter, hgrow], .inl fun id hid => ?_⟩
      rw [GetFilter, hgrow, hbloom]
      exact List.mem_cons_of_mem _ hid
    · refine ⟨fun _ => ?_, .inr fun id => by rw [GetFilter, hreset, List.mem_reverse]⟩
      -- `tx` was pushed as a new entry, so the refill re-adds it
      rw [GetFilter, hreset, List.mem_reverse, pendingTxIDs, hheap]
      exact List.mem_map.mpr ⟨_, TxHeap.mem_push_minHeap hnew, rfl⟩

/-! ## Every call -/

/-- Every call on the mempool keeps the filter or resets it to the pending transactions. -/
theorem growsOrResets_call (m : Mempool ID UTXO Asset) (c : MempoolCall ID UTXO Asset) :
    GrowsOrResets m (m.call c) := by
  cases c with
  | add tx =>
    obtain ⟨⟨hbloom, hheap⟩, -, -⟩ := Add_bloom_txHeap m tx
    exact (addTx_GetFilter m tx false).2.congr hbloom hheap
  | addTx tx =>
    obtain ⟨-, ⟨hbloom, hheap⟩, -⟩ := Add_bloom_txHeap m tx
    exact (addTx_GetFilter m tx false).2.congr hbloom hheap
  | addLocalTx tx =>
    obtain ⟨-, -, hbloom, hheap⟩ := Add_bloom_txHeap m tx
    exact (addTx_GetFilter m tx false).2.congr hbloom hheap
  | forceAddTx tx => exact (addTx_GetFilter m tx true).2
  | nextTx => exact .of_bloom_eq (bloom_NextTx m)
  | issueCurrentTxs => exact .of_bloom_eq (bloom_IssueCurrentTxs m)
  | cancelCurrentTx txID => exact .of_bloom_eq (bloom_CancelCurrentTx m txID)
  | cancelCurrentTxs => exact .of_bloom_eq (bloom_CancelCurrentTxs m)
  | discardCurrentTx txID => exact .of_bloom_eq (bloom_DiscardCurrentTx m txID)
  | discardCurrentTxs => exact .of_bloom_eq (bloom_DiscardCurrentTxs m)
  | removeTx tx => exact .of_bloom_eq (bloom_removeTx m tx false)
  | getTx txID => exact .of_bloom_eq (bloom_GetTx m txID)
  | has txID => exact .of_bloom_eq (bloom_GetTx m txID)

/-- Every call on the mempool either keeps every ID the gossip filter held, or leaves the filter
holding exactly the pending transactions; and a transaction `addTx` accepts is in the filter
afterwards. A reset therefore drops every current and issued transaction that is not pending,
although `Has` still reports it. -/
theorem GetFilter_grows_or_resets_to_pending (m : Mempool ID UTXO Asset) :
    (∀ c : MempoolCall ID UTXO Asset,
      (∀ id ∈ m.GetFilter.added, id ∈ (m.call c).GetFilter.added) ∨
        ∀ id, id ∈ (m.call c).GetFilter.added ↔ id ∈ (m.call c).pendingTxIDs) ∧
      ∀ tx force, (m.addTx tx force).1 = .ok () → tx.id ∈ (m.addTx tx force).2.GetFilter.added :=
  ⟨growsOrResets_call m, fun tx force => (addTx_GetFilter m tx force).1⟩

/-- A filter that is reset at the second addition: the first transaction, taken by `NextTx`,
is still held, but the reset refills the filter with the second one only. -/
theorem Has_current_tx_not_in_GetFilter :
    let m : Mempool ℕ ℕ Unit := (NewMempool () 10 none fun _ => 1).calls
      [.addTx (sampleTx 1 [7]), .nextTx, .addTx (sampleTx 2 [8])]
    (m.Has 1).1 = true ∧ 1 ∉ m.GetFilter.added ∧ m.GetFilter.added = [2] := by
  decide

end Mempool

end Jeth
