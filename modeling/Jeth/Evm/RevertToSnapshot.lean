import Jeth.Evm.StateRevert

/-!
# Reverting to a snapshot

`Snapshot` records the length of the journal under a fresh revision id, and `RevertToSnapshot`
looks the id up, undoes the entries after that length, the last one first, and drops the
revisions from the id on. This file shows that a run of operations keeps its journal undoable
(`Journaled.run`), whatever its nesting of snapshots and reverts, and that reverting to a
snapshot then gives a state that no read tells apart from the state at the snapshot
(`RevertToSnapshot_restores_reads`).

The revisions need one invariant, `StateDB.WellFormed`: their ids are below the next one, so a
revert finds a snapshot's revision after all the revisions that were there before it. Every
state reached from a fresh one keeps it (`Op.run_wellFormed_of_fresh`).
-/

namespace Jeth.State

variable {Address : Type} [DecidableEq Address] (db : Database Address)

open StateDB stateObject

/-! ## Bookkeeping is invisible to the reverts -/

namespace StateDB

section Bookkeeping

variable (j : List (journalEntry Address)) (v : List revision) (n : ℕ)

omit [DecidableEq Address] in
theorem getStateObject_bookkeeping (t : StateDB Address) (addr : Address) :
    ({ t with journal := j, validRevisions := v, nextRevisionId := n } : StateDB Address
      ).getStateObject db addr = t.getStateObject db addr := rfl

theorem updateStateObject_bookkeeping (t : StateDB Address) (addr : Address)
    (f : stateObject Address → stateObject Address) :
    ({ t with journal := j, validRevisions := v, nextRevisionId := n } : StateDB Address
      ).updateStateObject db addr f =
      { t.updateStateObject db addr f with journal := j, validRevisions := v, nextRevisionId := n } := by
  rcases hx : t.getStateObject db addr with _ | obj
  · simp only [updateStateObject, getStateObject_bookkeeping, hx]
  · simp only [updateStateObject, getStateObject_bookkeeping, hx]
    rfl

theorem revert_bookkeeping (e : journalEntry Address) (t : StateDB Address) :
    e.revert db { t with journal := j, validRevisions := v, nextRevisionId := n } =
      { e.revert db t with journal := j, validRevisions := v, nextRevisionId := n } := by
  cases e with
  | selfDestructChange account _ _ | balanceChange account _ | multiCoinEnable account
  | nonceChange account _ | codeChange account _ _ | storageChange account _ _ =>
    exact updateStateObject_bookkeeping db j v n t account _
  | resetObjectChange _ _ prevdestruct => cases prevdestruct <;> rfl
  | _ => rfl

theorem revertAll_bookkeeping (es : List (journalEntry Address)) (t : StateDB Address) :
    UndoLog.revertAll (journalEntry.revert db) es
        { t with journal := j, validRevisions := v, nextRevisionId := n } =
      { UndoLog.revertAll (journalEntry.revert db) es t with
        journal := j, validRevisions := v, nextRevisionId := n } := by
  induction es with
  | nil => rfl
  | cons e es ih =>
    rw [UndoLog.revertAll_cons, ih, revert_bookkeeping]
    rfl

theorem undoable_bookkeeping {s t : StateDB Address} {es : List (journalEntry Address)}
    (h : Undoable db s es t) :
    Undoable db s es { t with journal := j, validRevisions := v, nextRevisionId := n } := by
  refine ⟨?_, fun k => ?_⟩
  · rw [revertAll_bookkeeping]
    exact (Equiv.equivalence db).trans (Equiv.bookkeeping _ j v n) h.revert_all
  · rw [revertAll_bookkeeping]
    exact h.revert_drop k

theorem journal_revert_nextRevisionId (t : StateDB Address) (k : ℕ) :
    (journal.revert db t k).nextRevisionId = t.nextRevisionId := by
  have h := congrArg StateDB.nextRevisionId
    (revertAll_bookkeeping db t.journal t.validRevisions t.nextRevisionId (t.journal.drop k) t)
  exact h

end Bookkeeping

/-! ## Finding a revision -/

theorem findIdx_revision_append {pre post : List revision} {revid : ℕ}
    (hpre : ∀ r ∈ pre, r.id < revid) :
    (pre ++ post).findIdx (fun r => decide (revid ≤ r.id)) =
      post.findIdx (fun r => decide (revid ≤ r.id)) + pre.length := by
  have hnone : pre.findIdx (fun r => decide (revid ≤ r.id)) = pre.length :=
    List.findIdx_eq_length_of_false fun r hr => by simpa using hpre r hr
  rw [List.findIdx_append, hnone, if_neg (Nat.lt_irrefl _)]

/-- `RevertToSnapshot` past revisions whose ids are below `revid`: it finds `revid` among the
later ones, reverts the journal to that revision's length, and keeps the revisions before it. -/
theorem RevertToSnapshot_eq_some {t t' : StateDB Address} {revid : ℕ} {pre post : List revision}
    (hvr : t.validRevisions = pre ++ post) (hpre : ∀ r ∈ pre, r.id < revid)
    (h : t.RevertToSnapshot db revid = some t') :
    ∃ j r, post[j]? = some r ∧ r.id = revid ∧
      t' = { journal.revert db t r.journalIndex with validRevisions := pre ++ post.take j } := by
  unfold RevertToSnapshot at h
  simp only [hvr, findIdx_revision_append hpre] at h
  rw [List.getElem?_append_right (by omega), Nat.add_sub_cancel] at h
  split at h
  · rename_i r hr
    split_ifs at h with hid
    · refine ⟨_, r, hr, hid, ?_⟩
      rw [Option.some.injEq] at h
      rw [← h, List.take_append, List.take_of_length_le (by omega), Nat.add_sub_cancel]
  · cases h

/-- Reverting to the first revision after `pre`. -/
theorem RevertToSnapshot_head {t : StateDB Address} {pre post : List revision} {r : revision}
    (hvr : t.validRevisions = pre ++ r :: post) (hpre : ∀ r' ∈ pre, r'.id < r.id) :
    t.RevertToSnapshot db r.id =
      some { journal.revert db t r.journalIndex with validRevisions := pre } := by
  unfold RevertToSnapshot
  simp only [hvr, findIdx_revision_append hpre, List.findIdx_cons, le_refl, decide_true,
    cond_true, Nat.zero_add, List.getElem?_append_right (Nat.le_refl _), Nat.sub_self,
    List.getElem?_cons_zero, if_true, List.take_left']

end StateDB

/-- Every operation but the two on revisions is a change undone by its own entries. -/
theorem Op.step_change (Keccak256Hash : List UInt8 → Hash) {t t' : StateDB Address}
    (hwf : t.accessList.WF) {op : Op Address} (hsnap : op ≠ .Snapshot)
    (hrev : ∀ revid, op ≠ .RevertToSnapshot revid) (hstep : op.step db Keccak256Hash t = some t') :
    ∃ es, Change db t es t' := by
  open StateDB in
  cases op with
  | AddBalance addr amount =>
    cases hstep
    exact withStateObject_change hwf addr fun d o => stateObject.AddBalance_undone d o amount
  | SubBalance addr amount =>
    cases hstep
    exact withStateObject_change hwf addr fun d o => stateObject.SubBalance_undone d o amount
  | SetBalance addr amount =>
    cases hstep
    exact withStateObject_change hwf addr fun d o => stateObject.SetBalance_undone d o amount
  | AddBalanceMultiCoin addr coinID amount =>
    cases hstep
    exact withStateObject_change hwf addr fun d o =>
      stateObject.AddBalanceMultiCoin_undone d o coinID amount
  | SubBalanceMultiCoin addr coinID amount =>
    cases hstep
    exact withStateObject_change hwf addr fun d o =>
      stateObject.SubBalanceMultiCoin_undone d o coinID amount
  | SetBalanceMultiCoin addr coinID amount =>
    cases hstep
    exact withStateObject_change hwf addr fun d o =>
      stateObject.SetBalanceMultiCoin_undone d o coinID amount
  | SetNonce addr nonce =>
    cases hstep
    exact withStateObject_change hwf addr fun d o => stateObject.SetNonce_undone d o nonce
  | SetCode addr code =>
    cases hstep
    exact withStateObject_change hwf addr fun d o =>
      stateObject.SetCode_undone d o (Keccak256Hash code) code
  | SetState addr key value =>
    cases hstep
    exact withStateObject_change hwf addr fun d o =>
      stateObject.SetState_undone d o (NormalizeStateKey key) value
  | CreateAccount addr =>
    cases hstep
    exact CreateAccount_change hwf addr
  | SelfDestruct addr =>
    cases hstep
    exact SelfDestruct_change hwf addr
  | Selfdestruct6780 addr =>
    cases hstep
    exact Selfdestruct6780_change hwf addr
  | AddRefund gas =>
    cases hstep
    exact AddRefund_change hwf gas
  | SubRefund gas =>
    cases hstep
    exact SubRefund_change hwf gas
  | AddLog addr topics data blockNumber =>
    cases hstep
    exact AddLog_change hwf addr topics data blockNumber
  | AddPreimage hash preimage =>
    cases hstep
    exact AddPreimage_change hwf hash preimage
  | AddAddressToAccessList addr =>
    cases hstep
    exact AddAddressToAccessList_change hwf addr
  | AddSlotToAccessList addr slot =>
    cases hstep
    exact AddSlotToAccessList_change hwf addr slot
  | SetTransientState addr key value =>
    cases hstep
    exact SetTransientState_change hwf addr key value
  | Snapshot => exact absurd rfl hsnap
  | RevertToSnapshot revid => exact absurd rfl (hrev revid)

/-! ## Runs keep the journal undoable -/

/-- What reverting relies on, and what every state reached by the operations keeps
(`run_wellFormed`): a well-formed access list, and revision ids below the next one. -/
structure StateDB.WellFormed (s : StateDB Address) : Prop where
  accessList : s.accessList.WF
  revisions : ∀ r ∈ s.validRevisions, r.id < s.nextRevisionId

/-- `t` is reached from `s` by changes whose entries extend `s`'s journal and are undone by
them, and by snapshots taken after `s`. Their revisions follow `s`'s, with ids from
`s.nextRevisionId` on and journal indexes from the length of `s`'s journal on. -/
structure Journaled (s t : StateDB Address) : Prop where
  undoable : ∃ es, t.journal = s.journal ++ es ∧ Undoable db s es t
  revisions : ∃ post, t.validRevisions = s.validRevisions ++ post ∧ ∀ r ∈ post,
    s.nextRevisionId ≤ r.id ∧ r.id < t.nextRevisionId ∧ s.journal.length ≤ r.journalIndex
  next : s.nextRevisionId ≤ t.nextRevisionId

namespace Journaled

variable {db} {s t t' : StateDB Address}

theorem refl (hwf : s.accessList.WF) : Journaled db s s :=
  ⟨⟨[], by simp, (Change.refl db hwf).undoable⟩, ⟨[], by simp, by simp⟩, le_rfl⟩

theorem wf (h : Journaled db s t) : t.accessList.WF := by
  obtain ⟨_, -, hu⟩ := h.undoable
  exact hu.inv

/-- A change undone by its own entries. -/
theorem change {es : List (journalEntry Address)} (h : Journaled db s t) (hc : Change db t es t') :
    Journaled db s t' := by
  obtain ⟨es₀, hj, hu⟩ := h.undoable
  obtain ⟨post, hvr, hpost⟩ := h.revisions
  refine ⟨⟨es₀ ++ es, by rw [hc.journal, hj, List.append_assoc], undoable_append db hu hc.undoable⟩,
    ⟨post, by rw [hc.validRevisions, hvr], fun r hr => ?_⟩, hc.nextRevisionId ▸ h.next⟩
  rw [hc.nextRevisionId]
  exact hpost r hr

theorem snapshot (h : Journaled db s t) : Journaled db s t.Snapshot.2 := by
  obtain ⟨es₀, hj, hu⟩ := h.undoable
  obtain ⟨post, hvr, hpost⟩ := h.revisions
  have hlen : s.journal.length ≤ t.journal.length := by simp [hj]
  refine ⟨⟨es₀, hj, undoable_bookkeeping db _ _ _ hu⟩,
    ⟨post ++ [⟨t.nextRevisionId, t.journal.length⟩], by simp [StateDB.Snapshot, hvr], ?_⟩,
    by simp only [StateDB.Snapshot]; have := h.next; omega⟩
  intro r hr
  simp only [StateDB.Snapshot]
  rcases List.mem_append.mp hr with hr | hr
  · have := hpost r hr
    omega
  · simp only [List.mem_singleton] at hr
    subst hr
    exact ⟨h.next, Nat.lt_succ_self _, hlen⟩

/-- A revert to a snapshot taken after `s`. -/
theorem revert (hs : ∀ r ∈ s.validRevisions, r.id < s.nextRevisionId) (h : Journaled db s t)
    {revid : ℕ} (hrevid : s.nextRevisionId ≤ revid) (hrev : t.RevertToSnapshot db revid = some t') :
    Journaled db s t' := by
  obtain ⟨es₀, hj, hu⟩ := h.undoable
  obtain ⟨post, hvr, hpost⟩ := h.revisions
  obtain ⟨j, r, hr, -, ht'⟩ := StateDB.RevertToSnapshot_eq_some db hvr
    (fun r hr => Nat.lt_of_lt_of_le (hs r hr) hrevid) hrev
  obtain ⟨-, -, hk⟩ := hpost r (List.mem_of_getElem? hr)
  have hnext : t'.nextRevisionId = t.nextRevisionId := by
    rw [ht']
    exact StateDB.journal_revert_nextRevisionId db t r.journalIndex
  -- the journal is cut inside the entries since `s`
  set k := r.journalIndex - s.journal.length
  have hdrop : t.journal.drop r.journalIndex = es₀.drop k := by
    rw [hj, List.drop_append, List.drop_eq_nil_of_le hk, List.nil_append]
  have htake : t.journal.take r.journalIndex = s.journal ++ es₀.take k := by
    rw [hj, List.take_append, List.take_of_length_le hk]
  refine ⟨⟨es₀.take k, ?_, ?_⟩, ⟨post.take j, by rw [ht'], fun r' hr' => ?_⟩, hnext ▸ h.next⟩
  · rw [ht', ← htake]
    rfl
  · have := StateDB.undoable_bookkeeping db (t.journal.take r.journalIndex)
      (s.validRevisions ++ post.take j)
      (UndoLog.revertAll (journalEntry.revert db) (es₀.drop k) t).nextRevisionId (hu.take k)
    rw [← hdrop] at this
    rw [ht']
    exact this
  · rw [hnext]
    exact hpost r' (List.mem_of_mem_take hr')

variable (Keccak256Hash : List UInt8 → Hash)

/-- One operation, where a revert goes to a snapshot taken after `s`. -/
theorem step (hs : ∀ r ∈ s.validRevisions, r.id < s.nextRevisionId) (h : Journaled db s t)
    {op : Op Address} (hop : ∀ revid, op = .RevertToSnapshot revid → s.nextRevisionId ≤ revid)
    (hstep : op.step db Keccak256Hash t = some t') : Journaled db s t' := by
  cases op with
  | Snapshot =>
    cases hstep
    exact h.snapshot
  | RevertToSnapshot revid => exact h.revert hs (hop revid rfl) hstep
  | _ =>
    obtain ⟨_, hc⟩ := Op.step_change db Keccak256Hash h.wf (by simp) (by simp) hstep
    exact h.change hc

/-- A run whose reverts go to snapshots taken after `s`. -/
theorem run (hs : ∀ r ∈ s.validRevisions, r.id < s.nextRevisionId) :
    ∀ (ops : List (Op Address)) {t t' : StateDB Address}, Journaled db s t →
      (∀ revid ∈ Op.revertIds ops, s.nextRevisionId ≤ revid) →
      Op.run db Keccak256Hash ops t = some t' → Journaled db s t'
  | [], _, _, h, _, hrun => by
    cases hrun
    exact h
  | op :: ops, t, t', h, hnested, hrun => by
    simp only [Op.run] at hrun
    obtain ⟨t₁, hstep, hrest⟩ := Option.bind_eq_some_iff.mp hrun
    have hop : ∀ revid, op = .RevertToSnapshot revid → s.nextRevisionId ≤ revid := by
      rintro revid rfl
      exact hnested revid (by simp [Op.revertIds])
    refine run hs ops (h.step Keccak256Hash hs hop hstep) (fun revid hr => hnested revid ?_) hrest
    simp only [Op.revertIds, List.filterMap_cons] at hr ⊢
    split <;> simp_all

end Journaled

/-! ## The reachable states -/

variable (Keccak256Hash : List UInt8 → Hash)

/-- A run whose reverts go to snapshots taken after its start keeps the states well formed. -/
theorem Op.run_wellFormed {s t : StateDB Address} (hs : s.WellFormed) {ops : List (Op Address)}
    (hnested : ∀ revid ∈ Op.revertIds ops, s.nextRevisionId ≤ revid)
    (hrun : Op.run db Keccak256Hash ops s = some t) : t.WellFormed := by
  have h := Journaled.run Keccak256Hash hs.revisions ops (Journaled.refl hs.accessList) hnested hrun
  obtain ⟨post, hvr, hpost⟩ := h.revisions
  refine ⟨h.wf, fun r hr => ?_⟩
  rw [hvr] at hr
  rcases List.mem_append.mp hr with hr | hr
  · exact Nat.lt_of_lt_of_le (hs.revisions r hr) h.next
  · exact (hpost r hr).2.1

/-- Every state reached from a fresh one (Go's `New`: no revision yet) is well formed. -/
theorem Op.run_wellFormed_of_fresh {s t : StateDB Address} (hwf : s.accessList.WF)
    (hv : s.validRevisions = []) (hn : s.nextRevisionId = 0) (ops : List (Op Address))
    (hrun : Op.run db Keccak256Hash ops s = some t) : t.WellFormed :=
  Op.run_wellFormed db Keccak256Hash ⟨hwf, by simp [hv]⟩ (fun _ _ => hn ▸ Nat.zero_le _) hrun

/-! ## Reverting to a snapshot restores the reads -/

/-- Reverting to the snapshot `s.Snapshot` after changes and inner snapshots and reverts gives a
state equivalent to `s`. -/
theorem Journaled.RevertToSnapshot_start {s t : StateDB Address} (hs : s.WellFormed)
    (h : Journaled db s.Snapshot.2 t) :
    ∃ u, t.RevertToSnapshot db s.Snapshot.1 = some u ∧ Equiv db u s := by
  obtain ⟨es, hj, hu⟩ := h.undoable
  obtain ⟨post, hvr, -⟩ := h.revisions
  -- the snapshot's revision follows the ones of `s`
  have hvr' : t.validRevisions =
      s.validRevisions ++ ⟨s.nextRevisionId, s.journal.length⟩ :: post := by
    simp [hvr, StateDB.Snapshot]
  have hrev := StateDB.RevertToSnapshot_head db hvr' hs.revisions
  refine ⟨_, hrev, ?_⟩
  have hdrop : t.journal.drop s.journal.length = es := by
    simp [hj, StateDB.Snapshot]
  have hback : Equiv db (UndoLog.revertAll (journalEntry.revert db) es t) s :=
    (Equiv.equivalence db).trans hu.revert_all (Equiv.bookkeeping _ _ _ _)
  rw [← hdrop] at hback
  exact (Equiv.equivalence db).trans (Equiv.bookkeeping
    (UndoLog.revertAll (journalEntry.revert db) (t.journal.drop s.journal.length) t) _ _ _) hback

/-- What the reads see of a state: balances, multicoin balances, nonces, code and code hashes,
storage, existence, emptiness and the multicoin flag of every address, the refund counter, the
logs and the access list. -/
structure Agree (u s : StateDB Address) : Prop where
  balance : ∀ addr, u.GetBalance db addr = s.GetBalance db addr
  balanceMultiCoin : ∀ addr coinID,
    u.GetBalanceMultiCoin db addr coinID = s.GetBalanceMultiCoin db addr coinID
  nonce : ∀ addr, u.GetNonce db addr = s.GetNonce db addr
  code : ∀ addr, u.GetCode db addr = s.GetCode db addr
  codeHash : ∀ addr, u.GetCodeHash db addr = s.GetCodeHash db addr
  state : ∀ addr key, u.GetState db addr key = s.GetState db addr key
  exist : ∀ addr, u.Exist db addr = s.Exist db addr
  empty : ∀ addr, u.Empty db addr = s.Empty db addr
  isMultiCoin : ∀ addr, (u.getStateObject db addr).map (·.data.IsMultiCoin) =
    (s.getStateObject db addr).map (·.data.IsMultiCoin)
  refund : u.GetRefund = s.GetRefund
  logs : ∀ hash, u.GetLogs hash = s.GetLogs hash
  logSize : u.logSize = s.logSize
  addressInAccessList : ∀ addr, u.AddressInAccessList addr = s.AddressInAccessList addr
  slotInAccessList : ∀ addr slot, u.SlotInAccessList addr slot = s.SlotInAccessList addr slot

variable {db}

omit [DecidableEq Address] in
/-- A read of an address's object that `ObjectEquiv` does not tell apart agrees on equivalent
states. -/
theorem Equiv.read {u s : StateDB Address} (h : Equiv db u s) (addr : Address) {β : Type}
    (read : (Address → Bool) → Option (stateObject Address) → β)
    (hsome : ∀ o o', ObjectEquiv db u.stateObjectsDestruct o o' →
      read u.stateObjectsDestruct (some o) = read u.stateObjectsDestruct (some o')) :
    read u.stateObjectsDestruct (u.getStateObject db addr) =
      read s.stateObjectsDestruct (s.getStateObject db addr) := by
  rw [← h.destructs]
  have hobj := h.getStateObject addr
  generalize u.getStateObject db addr = x at hobj ⊢
  generalize s.getStateObject db addr = y at hobj ⊢
  cases hobj with
  | none => rfl
  | some ho => exact hsome _ _ ho

omit [DecidableEq Address] in
/-- A getter that reads the address's object, or a default without one, agrees on equivalent
states when the read does not tell equivalent objects apart. -/
theorem Equiv.getter {u s : StateDB Address} (h : Equiv db u s) (addr : Address) {β : Type}
    (get : StateDB Address → β) (dflt : β) (read : (Address → Bool) → stateObject Address → β)
    (hget : ∀ t : StateDB Address,
      get t = (t.getStateObject db addr).elim dflt (read t.stateObjectsDestruct))
    (hsome : ∀ o o', ObjectEquiv db u.stateObjectsDestruct o o' →
      read u.stateObjectsDestruct o = read u.stateObjectsDestruct o') :
    get u = get s := by
  rw [hget, hget]
  exact h.read addr (fun d x => x.elim dflt (read d)) hsome

omit [DecidableEq Address] in
theorem Equiv.agree {u s : StateDB Address} (h : Equiv db u s) : Agree db u s where
  -- each getter matches on the object: `Option.elim` states it without a new `match`
  balance addr := h.getter addr (GetBalance db · addr) 0 (fun _ o => o.data.Balance)
    (fun t => by unfold GetBalance; cases t.getStateObject db addr <;> rfl)
    fun _ _ ho => by simp only [ho.data]
  balanceMultiCoin addr coinID := h.getter addr (GetBalanceMultiCoin db · addr coinID) 0
    (fun d o => o.BalanceMultiCoin db d coinID)
    (fun t => by unfold GetBalanceMultiCoin; cases t.getStateObject db addr <;> rfl)
    fun _ _ ho => by simp only [BalanceMultiCoin, ho.state]
  nonce addr := h.getter addr (GetNonce db · addr) 0 (fun _ o => o.data.Nonce)
    (fun t => by unfold GetNonce; cases t.getStateObject db addr <;> rfl)
    fun _ _ ho => by simp only [ho.data]
  code addr := h.getter addr (GetCode db · addr) [] (fun _ o => o.Code db)
    (fun t => by unfold GetCode; cases t.getStateObject db addr <;> rfl)
    fun _ _ ho => by simp only [ho.code]
  codeHash addr := h.getter addr (GetCodeHash db · addr) zeroHash (fun _ o => o.data.CodeHash)
    (fun t => by unfold GetCodeHash; cases t.getStateObject db addr <;> rfl)
    fun _ _ ho => by simp only [ho.data]
  state addr key := h.getter addr (StateDB.GetState db · addr key) zeroHash
    (fun d o => o.GetState db d (NormalizeStateKey key))
    (fun t => by unfold StateDB.GetState; cases t.getStateObject db addr <;> rfl)
    fun _ _ ho => by simp only [ho.state]
  exist addr := h.read addr (fun _ x => x.isSome) fun _ _ _ => rfl
  empty addr := h.getter addr (StateDB.Empty db · addr) true (fun _ o => o.empty)
    (fun t => by unfold StateDB.Empty; cases t.getStateObject db addr <;> rfl)
    fun _ _ ho => by simp only [empty, ho.data]
  isMultiCoin addr := h.read addr (fun _ x => x.map (·.data.IsMultiCoin)) fun _ _ ho => by
    simp only [Option.map_some, ho.data]
  refund := h.refund
  logs hash := congrFun h.logs hash
  logSize := h.logSize
  addressInAccessList addr := by simp only [AddressInAccessList, h.accessList]
  slotInAccessList addr slot := by simp only [SlotInAccessList, h.accessList]

variable (db)

/-- Reverting to a snapshot restores every read of the state at the snapshot, after any run of
the operations in which each revert goes to a snapshot taken after it. -/
theorem RevertToSnapshot_restores_reads (s : StateDB Address) (hs : s.WellFormed)
    (ops : List (Op Address)) (t : StateDB Address)
    (hrun : Op.run db Keccak256Hash ops s.Snapshot.2 = some t)
    (hnested : ∀ revid ∈ Op.revertIds ops, s.Snapshot.1 < revid) :
    ∃ u, t.RevertToSnapshot db s.Snapshot.1 = some u ∧ Agree db u s := by
  have hs₁ : ∀ r ∈ s.Snapshot.2.validRevisions, r.id < s.Snapshot.2.nextRevisionId := by
    intro r hr
    simp only [StateDB.Snapshot, List.mem_append, List.mem_singleton] at hr ⊢
    rcases hr with hr | rfl
    · exact Nat.lt_succ_of_lt (hs.revisions r hr)
    · exact Nat.lt_succ_self _
  have h := Journaled.run Keccak256Hash hs₁ ops (Journaled.refl hs.accessList) hnested hrun
  obtain ⟨u, hrev, hequiv⟩ := h.RevertToSnapshot_start db hs
  exact ⟨u, hrev, hequiv.agree⟩

/-- A database with one account, at address `0`. -/
def sampleDatabase : Database (Fin 2) where
  Account a := if a = 0 then some ⟨1, 100, EmptyCodeHash, false⟩ else none
  Storage _ _ := zeroHash
  ContractCode _ := []

/-- A fresh state over `sampleDatabase`. -/
def sampleStateDB : StateDB (Fin 2) where
  stateObjects _ := none
  stateObjects_address _ _ h := by cases h
  stateObjectsDestruct _ := false
  refund := 0
  thash := zeroHash
  txIndex := 0
  logs _ := []
  logSize := 0
  preimages _ := none
  accessList := ⟨fun _ => none, []⟩
  transientStorage _ _ := zeroHash
  journal := []
  validRevisions := []
  nextRevisionId := 0

/-- Changes to both addresses, and an inner snapshot reverted in the middle. -/
def sampleOps : List (Op (Fin 2)) :=
  [.AddBalance 0 5, .SetBalanceMultiCoin 0 zeroHash 7, .Snapshot,
    .SetState 1 zeroHash (List.replicate 32 1), .CreateAccount 1, .AddSlotToAccessList 1 zeroHash,
    .RevertToSnapshot 1, .SetNonce 1 3, .SelfDestruct 0, .AddLog 0 [] [] 0, .AddRefund 3]

/-- The state after `sampleOps`, run from the snapshot of `sampleStateDB`. -/
def sampleFinal : StateDB (Fin 2) :=
  (Op.run sampleDatabase (fun _ => zeroHash) sampleOps sampleStateDB.Snapshot.2).getD sampleStateDB

theorem RevertToSnapshot_restores_reads_sample :
    sampleStateDB.WellFormed ∧
      Op.run sampleDatabase (fun _ => zeroHash) sampleOps sampleStateDB.Snapshot.2 =
        some sampleFinal ∧
      (∀ revid ∈ Op.revertIds sampleOps, sampleStateDB.Snapshot.1 < revid) ∧
      ∃ u, sampleFinal.RevertToSnapshot sampleDatabase sampleStateDB.Snapshot.1 = some u ∧
        Agree sampleDatabase u sampleStateDB := by
  have hs : sampleStateDB.WellFormed := ⟨fun _ _ h => (by cases h), fun _ h => (by cases h)⟩
  have hrun : Op.run sampleDatabase (fun _ => zeroHash) sampleOps sampleStateDB.Snapshot.2 =
      some sampleFinal := rfl
  have hnested : ∀ revid ∈ Op.revertIds sampleOps, sampleStateDB.Snapshot.1 < revid := by decide
  exact ⟨hs, hrun, hnested, RevertToSnapshot_restores_reads sampleDatabase (fun _ => zeroHash)
    sampleStateDB hs sampleOps sampleFinal hrun hnested⟩

end Jeth.State
