import Jeth.Evm.StateDB

/-!
# Reverting to a snapshot restores what the state shows

`RevertToSnapshot id` takes back every change made since `id := Snapshot()`, however the changes
nested snapshots and reverts of their own. It takes them back as far as any read of the state
can tell (`Agree`): the balances, multicoin balances, nonces, code, code hashes, storage,
existence, emptiness and multicoin flags of every address, the refund counter, the logs and the
access list.

The representation is not restored exactly. An account that a change loaded from the database
stays loaded, a reverted storage write leaves the old value as a write, and a reverted code
change leaves the old code loaded. `Equiv` is the relation that ignores these differences. The
proof instantiates the undo-log library with it. Every journal entry's revert maps
`Equiv`-related states to related states (`Equiv.revert`). Each change is undone by the entries
it appends (`Change`, one lemma per setter). Runs keep the log undoable through nested
snapshots and reverts (`Journaled.run`). The access list's invariant `accessList.WF` is carried
along, since `DeleteSlot` relies on it.
-/

namespace Jeth.State

variable {Address : Type} [DecidableEq Address] (db : Database Address)

/-- `Option.Rel` of an equivalence is one. -/
theorem optionRel_equivalence {α : Type*} {r : α → α → Prop} (hr : Equivalence r) :
    Equivalence (Option.Rel r) where
  refl o := by
    cases o with
    | none => exact .none
    | some a => exact .some (hr.refl a)
  symm h := by
    cases h with
    | none => exact .none
    | some h => exact .some (hr.symm h)
  trans h h' := by
    cases h with
    | none => exact h'
    | some h =>
      cases h' with
      | some h' => exact .some (hr.trans h h')

namespace StateDB

/-! ## How the updates read back -/

section Fields

variable (s : StateDB Address) (o : stateObject Address)

/-- `setStateObject` puts the object under its own address. -/
@[simp] theorem setStateObject_stateObjects :
    (s.setStateObject o).stateObjects = Function.update s.stateObjects o.address (some o) := rfl
/-- `setStateObject` keeps the destructed accounts. -/
@[simp] theorem setStateObject_stateObjectsDestruct :
    (s.setStateObject o).stateObjectsDestruct = s.stateObjectsDestruct := rfl
/-- `setStateObject` keeps the refund counter. -/
@[simp] theorem setStateObject_refund : (s.setStateObject o).refund = s.refund := rfl
/-- `setStateObject` keeps the transaction hash. -/
@[simp] theorem setStateObject_thash : (s.setStateObject o).thash = s.thash := rfl
/-- `setStateObject` keeps the transaction index. -/
@[simp] theorem setStateObject_txIndex : (s.setStateObject o).txIndex = s.txIndex := rfl
/-- `setStateObject` keeps the logs. -/
@[simp] theorem setStateObject_logs : (s.setStateObject o).logs = s.logs := rfl
/-- `setStateObject` keeps the log count. -/
@[simp] theorem setStateObject_logSize : (s.setStateObject o).logSize = s.logSize := rfl
/-- `setStateObject` keeps the preimages. -/
@[simp] theorem setStateObject_preimages : (s.setStateObject o).preimages = s.preimages := rfl
/-- `setStateObject` keeps the access list. -/
@[simp] theorem setStateObject_accessList : (s.setStateObject o).accessList = s.accessList := rfl
/-- `setStateObject` keeps the transient storage. -/
@[simp] theorem setStateObject_transientStorage :
    (s.setStateObject o).transientStorage = s.transientStorage := rfl
/-- `setStateObject` appends nothing to the journal. -/
@[simp] theorem setStateObject_journal : (s.setStateObject o).journal = s.journal := rfl
/-- `setStateObject` keeps the revisions. -/
@[simp] theorem setStateObject_validRevisions :
    (s.setStateObject o).validRevisions = s.validRevisions := rfl
/-- `setStateObject` keeps the next revision id. -/
@[simp] theorem setStateObject_nextRevisionId :
    (s.setStateObject o).nextRevisionId = s.nextRevisionId := rfl

variable (a : Address)

/-- `deleteStateObject` drops the object of the address. -/
@[simp] theorem deleteStateObject_stateObjects :
    (s.deleteStateObject a).stateObjects = Function.update s.stateObjects a none := rfl
/-- `deleteStateObject` keeps the destructed accounts. -/
@[simp] theorem deleteStateObject_stateObjectsDestruct :
    (s.deleteStateObject a).stateObjectsDestruct = s.stateObjectsDestruct := rfl
/-- `deleteStateObject` keeps the refund counter. -/
@[simp] theorem deleteStateObject_refund : (s.deleteStateObject a).refund = s.refund := rfl
/-- `deleteStateObject` keeps the logs. -/
@[simp] theorem deleteStateObject_logs : (s.deleteStateObject a).logs = s.logs := rfl
/-- `deleteStateObject` keeps the log count. -/
@[simp] theorem deleteStateObject_logSize : (s.deleteStateObject a).logSize = s.logSize := rfl
/-- `deleteStateObject` keeps the preimages. -/
@[simp] theorem deleteStateObject_preimages :
    (s.deleteStateObject a).preimages = s.preimages := rfl
/-- `deleteStateObject` keeps the access list. -/
@[simp] theorem deleteStateObject_accessList :
    (s.deleteStateObject a).accessList = s.accessList := rfl
/-- `deleteStateObject` keeps the transient storage. -/
@[simp] theorem deleteStateObject_transientStorage :
    (s.deleteStateObject a).transientStorage = s.transientStorage := rfl

end Fields

section Append

omit [DecidableEq Address]

variable (s : StateDB Address) (e : journalEntry Address)

/-- Journaling an entry keeps the objects. -/
@[simp] theorem append_stateObjects : (s.append e).stateObjects = s.stateObjects := rfl
/-- Journaling an entry keeps the destructed accounts. -/
@[simp] theorem append_stateObjectsDestruct :
    (s.append e).stateObjectsDestruct = s.stateObjectsDestruct := rfl
/-- Journaling an entry keeps the refund counter. -/
@[simp] theorem append_refund : (s.append e).refund = s.refund := rfl
/-- Journaling an entry keeps the transaction hash. -/
@[simp] theorem append_thash : (s.append e).thash = s.thash := rfl
/-- Journaling an entry keeps the logs. -/
@[simp] theorem append_logs : (s.append e).logs = s.logs := rfl
/-- Journaling an entry keeps the log count. -/
@[simp] theorem append_logSize : (s.append e).logSize = s.logSize := rfl
/-- Journaling an entry keeps the preimages. -/
@[simp] theorem append_preimages : (s.append e).preimages = s.preimages := rfl
/-- Journaling an entry keeps the access list. -/
@[simp] theorem append_accessList : (s.append e).accessList = s.accessList := rfl
/-- Journaling an entry keeps the transient storage. -/
@[simp] theorem append_transientStorage :
    (s.append e).transientStorage = s.transientStorage := rfl
/-- Journaling an entry puts it at the end of the journal. -/
@[simp] theorem append_journal : (s.append e).journal = s.journal ++ [e] := rfl
/-- Journaling an entry keeps the revisions. -/
@[simp] theorem append_validRevisions : (s.append e).validRevisions = s.validRevisions := rfl
/-- Journaling an entry keeps the next revision id. -/
@[simp] theorem append_nextRevisionId : (s.append e).nextRevisionId = s.nextRevisionId := rfl

end Append

/-- A second write under the same address replaces the first. -/
theorem setStateObject_setStateObject (s : StateDB Address) {o o' : stateObject Address}
    (h : o'.address = o.address) :
    (s.setStateObject o).setStateObject o' = s.setStateObject o' := by
  ext1 <;> simp [h]

/-- After a write, the address written shows the new object, and every other address what it
showed. -/
@[simp] theorem getDeletedStateObject_setStateObject (s : StateDB Address)
    (o : stateObject Address) (a : Address) :
    (s.setStateObject o).getDeletedStateObject db a =
      if a = o.address then some o else s.getDeletedStateObject db a := by
  by_cases h : a = o.address
  · subst h
    simp [getDeletedStateObject]
  · simp [getDeletedStateObject, h]

/-- After a delete, the address deleted shows the account the database holds, and every other
address what it showed. -/
theorem getDeletedStateObject_deleteStateObject (s : StateDB Address) (a a' : Address) :
    (s.deleteStateObject a).getDeletedStateObject db a' =
      if a' = a then (db.Account a').map fun data => newObject a' (some data)
      else s.getDeletedStateObject db a' := by
  by_cases h : a' = a
  · subst h
    simp [getDeletedStateObject]
  · simp [getDeletedStateObject, h]

omit [DecidableEq Address] in
/-- Every object a state shows for an address is kept under that address. -/
theorem getDeletedStateObject_address {s : StateDB Address} {a : Address}
    {o : stateObject Address} (h : s.getDeletedStateObject db a = some o) : o.address = a := by
  unfold getDeletedStateObject at h
  split at h
  · rename_i obj hobj
    rw [Option.some.injEq] at h
    subst h
    exact s.stateObjects_address a _ hobj
  · obtain ⟨data, -, rfl⟩ := Option.map_eq_some_iff.mp h
    rfl

omit [DecidableEq Address] in
/-- `getStateObject` finds the objects that `getDeletedStateObject` shows and that are not deleted.
-/
theorem getStateObject_eq_some {s : StateDB Address} {a : Address} {o : stateObject Address} :
    s.getStateObject db a = some o ↔
      s.getDeletedStateObject db a = some o ∧ o.deleted = false := by
  unfold getStateObject
  split
  · rename_i obj hobj
    rw [hobj]
    split_ifs with hd
    · simp only [false_iff, not_and, Option.some.injEq]
      rintro rfl
      simp [hd]
    · simp only [Option.some.injEq]
      constructor
      · rintro rfl
        simpa using hd
      · rintro ⟨rfl, -⟩
        rfl
  · rename_i hnone
    simp [hnone]

omit [DecidableEq Address] in
/-- `getStateObject` finds nothing exactly when the address shows no object or a deleted one. -/
theorem getStateObject_eq_none {s : StateDB Address} {a : Address} :
    s.getStateObject db a = none ↔
      ∀ o, s.getDeletedStateObject db a = some o → o.deleted = true := by
  constructor
  · intro h o ho
    by_contra hd
    have := (getStateObject_eq_some db).mpr ⟨ho, by simpa using hd⟩
    simp [h] at this
  · intro h
    cases hs : s.getStateObject db a with
    | none => rfl
    | some o =>
      obtain ⟨ho, hd⟩ := (getStateObject_eq_some db).mp hs
      simp [h o ho] at hd

end StateDB

open StateDB stateObject

/-! ## States that no read tells apart -/

/-- `s` and `t` show the same object for every address, up to `ObjectEquiv`, and the same
destructed accounts, refund counter, logs, preimages, access list and transient storage. The
journal and the revisions are bookkeeping that no read sees. -/
structure Equiv (s t : StateDB Address) : Prop where
  objects : ∀ addr, Option.Rel (ObjectEquiv db s.stateObjectsDestruct)
    (s.getDeletedStateObject db addr) (t.getDeletedStateObject db addr)
  destructs : s.stateObjectsDestruct = t.stateObjectsDestruct
  refund : s.refund = t.refund
  logs : s.logs = t.logs
  logSize : s.logSize = t.logSize
  preimages : s.preimages = t.preimages
  accessList : s.accessList = t.accessList
  transientStorage : s.transientStorage = t.transientStorage

omit [DecidableEq Address] in
/-- `Equiv` is an equivalence. -/
theorem Equiv.equivalence : Equivalence fun s t : StateDB Address => Equiv db s t where
  refl s := ⟨fun _ => (optionRel_equivalence ObjectEquiv.equivalence).refl _, rfl, rfl, rfl, rfl,
    rfl, rfl, rfl⟩
  symm {s t} h := by
    refine ⟨fun addr => ?_, h.2.symm, h.3.symm, h.4.symm, h.5.symm, h.6.symm, h.7.symm,
      h.8.symm⟩
    rw [← h.destructs]
    exact (optionRel_equivalence ObjectEquiv.equivalence).symm (h.objects addr)
  trans {s t u} h h' := by
    refine ⟨fun addr => ?_, h.2.trans h'.2, h.3.trans h'.3, h.4.trans h'.4, h.5.trans h'.5,
      h.6.trans h'.6, h.7.trans h'.7, h.8.trans h'.8⟩
    have h'' := h'.objects addr
    rw [← h.destructs] at h''
    exact (optionRel_equivalence ObjectEquiv.equivalence).trans (h.objects addr) h''

variable {db}

omit [DecidableEq Address] in
/-- States with the same objects and the same fields that reads see. -/
theorem Equiv.of_fields {s t : StateDB Address} (hobj : s.stateObjects = t.stateObjects)
    (hd : s.stateObjectsDestruct = t.stateObjectsDestruct) (hr : s.refund = t.refund)
    (hl : s.logs = t.logs) (hls : s.logSize = t.logSize) (hp : s.preimages = t.preimages)
    (ha : s.accessList = t.accessList) (ht : s.transientStorage = t.transientStorage) :
    Equiv db s t := by
  have hget : ∀ addr, s.getDeletedStateObject db addr = t.getDeletedStateObject db addr :=
    fun addr => by simp only [getDeletedStateObject, hobj]
  refine ⟨fun addr => ?_, hd, hr, hl, hls, hp, ha, ht⟩
  rw [hget]
  exact (optionRel_equivalence ObjectEquiv.equivalence).refl _

omit [DecidableEq Address] in
/-- The journal and the revisions are bookkeeping. -/
theorem Equiv.bookkeeping (s : StateDB Address) (j : List (journalEntry Address))
    (v : List revision) (n : ℕ) :
    Equiv db { s with journal := j, validRevisions := v, nextRevisionId := n } s :=
  Equiv.of_fields rfl rfl rfl rfl rfl rfl rfl rfl

/-- Writing an object over one that no read tells apart from it. -/
theorem Equiv.setStateObject {s : StateDB Address} {a : Address} {o o' : stateObject Address}
    (ho : s.getDeletedStateObject db a = some o) (h : ObjectEquiv db s.stateObjectsDestruct o' o) :
    Equiv db (s.setStateObject o') s := by
  refine ⟨fun addr => ?_, rfl, rfl, rfl, rfl, rfl, rfl, rfl⟩
  have hoa := getDeletedStateObject_address db ho
  rw [getDeletedStateObject_setStateObject, setStateObject_stateObjectsDestruct]
  split_ifs with haddr
  · rw [haddr, h.address, hoa, ho]
    exact .some h
  · exact (optionRel_equivalence ObjectEquiv.equivalence).refl _

/-! ## Reverting an entry respects `Equiv` -/

omit [DecidableEq Address] in
/-- The objects two equivalent states show at an address are both live, or both absent or
deleted. -/
theorem Equiv.getStateObject {s t : StateDB Address} (h : Equiv db s t) (addr : Address) :
    Option.Rel (ObjectEquiv db s.stateObjectsDestruct) (s.getStateObject db addr)
      (t.getStateObject db addr) := by
  have hobj := h.objects addr
  unfold StateDB.getStateObject
  generalize s.getDeletedStateObject db addr = x at hobj ⊢
  generalize t.getDeletedStateObject db addr = y at hobj ⊢
  cases hobj with
  | none => exact .none
  | some ho =>
    dsimp only
    rw [ho.deleted]
    split_ifs
    · exact .none
    · exact .some ho

/-- Changing the live object of an address by a map that respects `ObjectEquiv` keeps states
equivalent. -/
theorem Equiv.updateStateObject {s t : StateDB Address} (h : Equiv db s t) (addr : Address)
    {f : stateObject Address → stateObject Address} (hfa : ∀ o, (f o).address = o.address)
    (hf : ∀ {o o'}, ObjectEquiv db s.stateObjectsDestruct o o' →
      ObjectEquiv db s.stateObjectsDestruct (f o) (f o')) :
    Equiv db (s.updateStateObject db addr f) (t.updateStateObject db addr f) := by
  have hlive := h.getStateObject addr
  unfold StateDB.updateStateObject
  generalize s.getStateObject db addr = x at hlive ⊢
  generalize t.getStateObject db addr = y at hlive ⊢
  cases hlive with
  | none => exact h
  | some ho =>
    rename_i o o'
    refine ⟨fun a => ?_, h.2, h.3, h.4, h.5, h.6, h.7, h.8⟩
    simp only [getDeletedStateObject_setStateObject, setStateObject_stateObjectsDestruct, hfa,
      ho.address]
    split_ifs
    · exact .some (hf ho)
    · exact h.objects a

/-- Writing the same object into equivalent states keeps them equivalent. -/
theorem Equiv.setStateObject_congr {s t : StateDB Address} (h : Equiv db s t)
    (o : stateObject Address) : Equiv db (s.setStateObject o) (t.setStateObject o) := by
  refine ⟨fun a => ?_, h.2, h.3, h.4, h.5, h.6, h.7, h.8⟩
  simp only [getDeletedStateObject_setStateObject, setStateObject_stateObjectsDestruct]
  split_ifs
  · exact (optionRel_equivalence ObjectEquiv.equivalence).refl _
  · exact h.objects a

/-- Writing the same object into equivalent states, and changing the destructed flag of its
address only. -/
theorem Equiv.setStateObject_destructs {s t : StateDB Address} (h : Equiv db s t)
    (o : stateObject Address) (destructs : Address → Bool)
    (hd : ∀ a, a ≠ o.address → destructs a = s.stateObjectsDestruct a) :
    Equiv db { s.setStateObject o with stateObjectsDestruct := destructs }
      { t.setStateObject o with stateObjectsDestruct := destructs } := by
  refine ⟨fun a => ?_, rfl, h.3, h.4, h.5, h.6, h.7, h.8⟩
  have hget : ∀ u : StateDB Address,
      ({ u.setStateObject o with stateObjectsDestruct := destructs } : StateDB Address
        ).getDeletedStateObject db a = (u.setStateObject o).getDeletedStateObject db a :=
    fun _ => rfl
  rw [hget, hget, getDeletedStateObject_setStateObject, getDeletedStateObject_setStateObject]
  split_ifs with ha
  · exact (optionRel_equivalence ObjectEquiv.equivalence).refl _
  · -- an object at another address reads the destructed flag of its own address
    have hobj := h.objects a
    have haddr : ∀ p, s.getDeletedStateObject db a = some p → p.address = a :=
      fun p hp => getDeletedStateObject_address db hp
    generalize s.getDeletedStateObject db a = x at hobj haddr ⊢
    generalize t.getDeletedStateObject db a = y at hobj ⊢
    cases hobj with
    | none => exact .none
    | some ho =>
      refine .some (ho.of_destructs ?_)
      rw [haddr _ rfl]
      exact hd a ha

/-- Every entry's revert maps equivalent states to equivalent states. -/
theorem Equiv.revert {s t : StateDB Address} (h : Equiv db s t) (e : journalEntry Address) :
    Equiv db (e.revert db s) (e.revert db t) := by
  cases e with
  | createObjectChange account =>
    refine ⟨fun a => ?_, h.2, h.3, h.4, h.5, h.6, h.7, h.8⟩
    simp only [journalEntry.revert, getDeletedStateObject_deleteStateObject,
      deleteStateObject_stateObjectsDestruct]
    split_ifs
    · exact (optionRel_equivalence ObjectEquiv.equivalence).refl _
    · exact h.objects a
  | resetObjectChange account prev prevdestruct =>
    cases prevdestruct with
    | true => exact h.setStateObject_congr prev
    | false =>
      simp only [journalEntry.revert, Bool.false_eq_true, if_false,
        setStateObject_stateObjectsDestruct]
      rw [← h.destructs]
      refine h.setStateObject_destructs prev _ fun a ha => ?_
      simp [Function.update_of_ne ha]
  | selfDestructChange account prev prevbalance =>
    exact h.updateStateObject account (fun _ => rfl)
      fun ho => (ho.setSelfDestructed prev).setBalance prevbalance
  | balanceChange account prev =>
    exact h.updateStateObject account (fun _ => rfl) fun ho => ho.setBalance prev
  | multiCoinEnable account =>
    exact h.updateStateObject account (fun _ => rfl)
      fun ho => ho.map_data (fun a => { a with IsMultiCoin := false }) fun _ => rfl
  | nonceChange account prev =>
    exact h.updateStateObject account (fun _ => rfl) fun ho => ho.setNonce prev
  | codeChange account prevcode prevhash =>
    exact h.updateStateObject account (fun _ => rfl) fun ho => ho.setCode prevhash prevcode
  | storageChange account key prevalue =>
    exact h.updateStateObject account (fun _ => rfl) fun ho => ho.setState key prevalue
  | refundChange prev => exact { h with refund := rfl }
  | addLogChange txhash =>
    refine { h with logs := ?_, logSize := ?_ } <;> simp [journalEntry.revert, h.logs, h.logSize]
  | addPreimageChange hash =>
    exact { h with preimages := (by simp [journalEntry.revert, h.preimages]) }
  | touchChange account => exact h
  | accessListAddAccountChange address =>
    exact { h with accessList := (by simp [journalEntry.revert, h.accessList]) }
  | accessListAddSlotChange address slot =>
    exact { h with accessList := (by simp [journalEntry.revert, h.accessList]) }
  | transientStorageChange account key prevalue =>
    exact { h with transientStorage :=
      (by simp [journalEntry.revert, StateDB.setTransientState, h.transientStorage]) }

/-! ## The undo-log library at the state -/

variable (db)

/-- Rollback up to `Equiv`, with a well-formed access list at every partial rollback. -/
abbrev Undoable (s : StateDB Address) (es : List (journalEntry Address)) (t : StateDB Address) :
    Prop :=
  UndoLog.Undoable (journalEntry.revert db) (Equiv db) (fun u => u.accessList.WF) s es t

omit [DecidableEq Address] in
/-- Equivalent states have the same access list, so one is well formed when the other is. -/
theorem wf_of_equiv {s t : StateDB Address} (h : Equiv db s t) (hs : s.accessList.WF) :
    t.accessList.WF :=
  h.accessList ▸ hs

/-- Two rollbacks in a row are one, along the concatenated entries. -/
theorem undoable_append {s t t' : StateDB Address} {es es' : List (journalEntry Address)}
    (h : Undoable db s es t) (h' : Undoable db t es' t') : Undoable db s (es ++ es') t' :=
  h.append (Equiv.equivalence db) (fun e _ _ h => h.revert e) (wf_of_equiv db) h'.revert_all
    h'.revert_drop

/-- A change from `t` to `t'` that appends `es` to the journal, is undone by them, and leaves the
revisions alone. -/
structure Change (t : StateDB Address) (es : List (journalEntry Address)) (t' : StateDB Address) :
    Prop where
  undoable : Undoable db t es t'
  journal : t'.journal = t.journal ++ es
  validRevisions : t'.validRevisions = t.validRevisions
  nextRevisionId : t'.nextRevisionId = t.nextRevisionId

/-- Changing nothing is undone by no entry. -/
theorem Change.refl {t : StateDB Address} (hwf : t.accessList.WF) : Change db t [] t :=
  ⟨⟨(Equiv.equivalence db).refl t, fun _ => by simpa using hwf⟩, by simp, rfl, rfl⟩

/-- One change after another is undone by the entries of both. -/
theorem Change.trans {t t' t'' : StateDB Address} {es es' : List (journalEntry Address)}
    (h : Change db t es t') (h' : Change db t' es' t'') : Change db t (es ++ es') t'' :=
  ⟨undoable_append db h.undoable h'.undoable, by rw [h'.journal, h.journal, List.append_assoc],
    h'.validRevisions.trans h.validRevisions, h'.nextRevisionId.trans h.nextRevisionId⟩

/-- A change with one entry, undone by it. -/
theorem Change.single {t t' : StateDB Address} {e : journalEntry Address}
    (hwf : t.accessList.WF) (hundo : Equiv db (e.revert db t') t) (hwf' : t'.accessList.WF)
    (hj : t'.journal = t.journal ++ [e]) (hv : t'.validRevisions = t.validRevisions)
    (hn : t'.nextRevisionId = t.nextRevisionId) : Change db t [e] t' := by
  refine ⟨?_, hj, hv, hn⟩
  have hnil : Undoable db t [] t := (Change.refl db hwf).undoable
  simpa using hnil.snoc (Equiv.equivalence db) (fun e _ _ h => h.revert e) (wf_of_equiv db) hundo
    hwf'

/-! ## Methods of an object, undone on the object -/

/-- What an entry's revert does to the object of its address. -/
def journalEntry.revertObject : journalEntry Address → stateObject Address → stateObject Address
  | .selfDestructChange _ prev prevbalance, o => { o with selfDestructed := prev }.setBalance prevbalance
  | .balanceChange _ prev, o => o.setBalance prev
  | .multiCoinEnable _, o => { o with data := { o.data with IsMultiCoin := false } }
  | .nonceChange _ prev, o => o.setNonce prev
  | .codeChange _ prevcode prevhash, o => o.setCode prevhash prevcode
  | .storageChange _ key prevalue, o => o.setState key prevalue
  | _, o => o

/-- The entries the methods of the object at `addr` append: they revert that object, or nothing. -/
def journalEntry.OnObject (addr : Address) : journalEntry Address → Prop
  | .selfDestructChange account _ _ => account = addr
  | .balanceChange account _ => account = addr
  | .multiCoinEnable account => account = addr
  | .nonceChange account _ => account = addr
  | .codeChange account _ _ => account = addr
  | .storageChange account _ _ => account = addr
  | .touchChange _ => True
  | _ => False

omit [DecidableEq Address] in
/-- Reverting an entry on an object keeps its address. -/
@[simp] theorem journalEntry.revertObject_address (e : journalEntry Address)
    (o : stateObject Address) : (e.revertObject o).address = o.address := by
  cases e <;> rfl

omit [DecidableEq Address] in
/-- Reverting an entry on an object keeps its deleted flag. -/
@[simp] theorem journalEntry.revertObject_deleted (e : journalEntry Address)
    (o : stateObject Address) : (e.revertObject o).deleted = o.deleted := by
  cases e <;> rfl

omit [DecidableEq Address] in
/-- Reverting an entry on objects that no read tells apart keeps them so. -/
theorem stateObject.ObjectEquiv.revertObject {d : Address → Bool} {o o' : stateObject Address}
    (h : ObjectEquiv db d o o') (e : journalEntry Address) :
    ObjectEquiv db d (e.revertObject o) (e.revertObject o') := by
  cases e with
  | selfDestructChange _ prev prevbalance => exact (h.setSelfDestructed prev).setBalance prevbalance
  | balanceChange _ prev => exact h.setBalance prev
  | multiCoinEnable _ => exact h.map_data (fun a => { a with IsMultiCoin := false }) fun _ => rfl
  | nonceChange _ prev => exact h.setNonce prev
  | codeChange _ prevcode prevhash => exact h.setCode prevhash prevcode
  | storageChange _ key prevalue => exact h.setState key prevalue
  | _ => exact h

/-- A method of `o` that returns `change` appends entries of `o`'s own address, and they give
`o` back up to `ObjectEquiv`. -/
structure MethodUndone (d : Address → Bool) (o : stateObject Address)
    (change : List (journalEntry Address) × stateObject Address) : Prop where
  onObject : ∀ e ∈ change.1, e.OnObject o.address
  address : change.2.address = o.address
  deleted : change.2.deleted = o.deleted
  undone : ObjectEquiv db d (UndoLog.revertAll journalEntry.revertObject change.1 change.2) o

variable {db}

omit [DecidableEq Address] in
/-- A method that changes nothing is undone by no entry. -/
theorem MethodUndone.nil {d : Address → Bool} (o : stateObject Address) :
    MethodUndone db d o ([], o) :=
  ⟨by simp, rfl, rfl, ObjectEquiv.equivalence.refl o⟩

omit [DecidableEq Address] in
/-- One method after another. -/
theorem MethodUndone.append {d : Address → Bool} {o : stateObject Address}
    {c c' : List (journalEntry Address) × stateObject Address} (h : MethodUndone db d o c)
    (h' : MethodUndone db d c.2 c') : MethodUndone db d o (c.1 ++ c'.1, c'.2) := by
  refine ⟨fun e he => ?_, h'.address.trans h.address, h'.deleted.trans h.deleted, ?_⟩
  · rcases List.mem_append.mp he with he | he
    · exact h.onObject e he
    · exact h.address ▸ h'.onObject e he
  · rw [UndoLog.revertAll_append]
    exact ObjectEquiv.equivalence.trans
      (UndoLog.revertAll_congr (fun e _ _ h => h.revertObject db e) c.1 h'.undone) h.undone

omit [DecidableEq Address] in
/-- A method that appends one entry of the object and whose revert gives the object back. -/
theorem MethodUndone.single {d : Address → Bool} {o o' : stateObject Address}
    {e : journalEntry Address} (he : e.OnObject o.address) (ha : o'.address = o.address)
    (hd : o'.deleted = o.deleted) (hundo : ObjectEquiv db d (e.revertObject o') o) :
    MethodUndone db d o ([e], o') :=
  ⟨by simpa using he, ha, hd, hundo⟩

namespace stateObject

omit [DecidableEq Address]

variable (d : Address → Bool) (o : stateObject Address)

/-- `touch` appends a touch entry, whose revert changes nothing on the object. -/
theorem touch_undone : MethodUndone db d o o.touch :=
  MethodUndone.single trivial rfl rfl (ObjectEquiv.equivalence.refl o)

/-- `SetBalance` is undone by the balance entry it appends. -/
theorem SetBalance_undone (amount : ℤ) : MethodUndone db d o (o.SetBalance amount) :=
  MethodUndone.single rfl rfl rfl (ObjectEquiv.equivalence.refl o)

/-- `AddBalance` is undone by its entries, in each of its three branches. -/
theorem AddBalance_undone (amount : ℤ) : MethodUndone db d o (o.AddBalance amount) := by
  unfold AddBalance
  split_ifs
  · exact touch_undone d o
  · exact MethodUndone.nil o
  · exact SetBalance_undone d o _

/-- `SubBalance` is undone by its entries. -/
theorem SubBalance_undone (amount : ℤ) : MethodUndone db d o (o.SubBalance amount) := by
  unfold SubBalance
  split_ifs
  · exact MethodUndone.nil o
  · exact SetBalance_undone d o _

/-- `SetNonce` is undone by the nonce entry it appends. -/
theorem SetNonce_undone (nonce : ℕ) : MethodUndone db d o (o.SetNonce nonce) :=
  MethodUndone.single rfl rfl rfl (ObjectEquiv.equivalence.refl o)

/-- `SetCode` is undone by the code entry it appends, up to the loaded code. -/
theorem SetCode_undone (codeHash : Hash) (code : List UInt8) :
    MethodUndone db d o (o.SetCode db codeHash code) :=
  -- the revert leaves the old code loaded
  MethodUndone.single rfl rfl rfl (ObjectEquiv.setCode_Code o)

/-- `SetState` is undone by the storage entry it appends, up to the old value left written. -/
theorem SetState_undone (key value : Hash) : MethodUndone db d o (o.SetState db d key value) := by
  unfold SetState
  dsimp only
  split_ifs
  · exact MethodUndone.nil o
  · -- the revert leaves the old value written
    refine MethodUndone.single rfl rfl rfl ?_
    have hwrite : (o.setState key value).setState key (o.GetState db d key) =
        o.setState key (o.GetState db d key) := by
      simp [setState, Function.update_idem]
    simp only [journalEntry.revertObject, hwrite]
    exact ObjectEquiv.setState_GetState o key

/-- `EnableMultiCoin` is undone by the entry it appends, which clears the flag again. -/
theorem EnableMultiCoin_undone : MethodUndone db d o o.EnableMultiCoin := by
  unfold EnableMultiCoin
  split_ifs with h
  · exact MethodUndone.nil o
  · refine MethodUndone.single rfl rfl rfl ?_
    have hback : journalEntry.revertObject (.multiCoinEnable o.address) o.enableMultiCoin = o := by
      obtain ⟨address, ⟨nonce, balance, codeHash, isMultiCoin⟩, _⟩ := o
      simp only [Bool.not_eq_true] at h
      subst h
      rfl
    rw [hback]
    exact ObjectEquiv.equivalence.refl o

/-- `SetBalanceMultiCoin` is undone by its entries: the flag's, then the slot's. -/
theorem SetBalanceMultiCoin_undone (coinID : Hash) (amount : ℤ) :
    MethodUndone db d o (o.SetBalanceMultiCoin db d coinID amount) :=
  (EnableMultiCoin_undone d o).append (SetState_undone d _ _ _)

/-- `AddBalanceMultiCoin` is undone by its entries, in each of its three branches. -/
theorem AddBalanceMultiCoin_undone (coinID : Hash) (amount : ℤ) :
    MethodUndone db d o (o.AddBalanceMultiCoin db d coinID amount) := by
  unfold AddBalanceMultiCoin
  split_ifs
  · exact touch_undone d o
  · exact MethodUndone.nil o
  · exact SetBalanceMultiCoin_undone d o _ _

/-- `SubBalanceMultiCoin` is undone by its entries. -/
theorem SubBalanceMultiCoin_undone (coinID : Hash) (amount : ℤ) :
    MethodUndone db d o (o.SubBalanceMultiCoin db d coinID amount) := by
  unfold SubBalanceMultiCoin
  split_ifs
  · exact MethodUndone.nil o
  · exact SetBalanceMultiCoin_undone d o _ _

end stateObject

omit [DecidableEq Address] in
/-- Reverting entries on an object keeps its address. -/
@[simp] theorem revertAll_revertObject_address (es : List (journalEntry Address))
    (o : stateObject Address) :
    (UndoLog.revertAll journalEntry.revertObject es o).address = o.address := by
  induction es with
  | nil => rfl
  | cons e es ih => simp [ih]

omit [DecidableEq Address] in
/-- Reverting entries on an object keeps its deleted flag. -/
@[simp] theorem revertAll_revertObject_deleted (es : List (journalEntry Address))
    (o : stateObject Address) :
    (UndoLog.revertAll journalEntry.revertObject es o).deleted = o.deleted := by
  induction es with
  | nil => rfl
  | cons e es ih => simp [ih]

/-! ## Each setter is undone by the entries it appends -/

namespace StateDB

/-- A live object just written is the one `getStateObject` finds at its address. -/
theorem getStateObject_setStateObject_self (u : StateDB Address) {x : stateObject Address}
    (hxd : x.deleted = false) : (u.setStateObject x).getStateObject db x.address = some x := by
  rw [getStateObject_eq_some]
  simp [hxd]

/-- Updating an object just written is writing the updated object. -/
theorem updateStateObject_setStateObject (u : StateDB Address) {x : stateObject Address}
    (hxd : x.deleted = false) (f : stateObject Address → stateObject Address)
    (hf : (f x).address = x.address) :
    (u.setStateObject x).updateStateObject db x.address f = u.setStateObject (f x) := by
  unfold updateStateObject
  rw [getStateObject_setStateObject_self u hxd]
  exact setStateObject_setStateObject u hf

/-- On a state that holds the live object `x` of `addr`, the entries of `x`'s methods revert
`x` alone. -/
theorem revert_onObject {addr : Address} {e : journalEntry Address} (he : e.OnObject addr)
    (u : StateDB Address) {x : stateObject Address} (hx : x.address = addr)
    (hxd : x.deleted = false) :
    e.revert db (u.setStateObject x) = u.setStateObject (e.revertObject x) := by
  subst hx
  cases e with
  | touchChange _ => rfl
  | selfDestructChange account _ _ | balanceChange account _ | multiCoinEnable account
  | nonceChange account _ | codeChange account _ _ | storageChange account _ _ =>
    obtain rfl : account = x.address := he
    exact updateStateObject_setStateObject u hxd _ rfl
  | _ => exact he.elim

/-- On a state that holds the live object `x` of `addr`, a run of entries of `x`'s methods reverts
`x` alone. -/
theorem revertAll_onObject {addr : Address} {es : List (journalEntry Address)}
    (hes : ∀ e ∈ es, e.OnObject addr) (u : StateDB Address) {x : stateObject Address}
    (hx : x.address = addr) (hxd : x.deleted = false) :
    UndoLog.revertAll (journalEntry.revert db) es (u.setStateObject x) =
      u.setStateObject (UndoLog.revertAll journalEntry.revertObject es x) := by
  induction es with
  | nil => rfl
  | cons e es ih =>
    rw [UndoLog.revertAll_cons, UndoLog.revertAll_cons,
      ih fun e he => hes e (List.mem_cons_of_mem _ he)]
    exact revert_onObject (hes e List.mem_cons_self) u (by simp [hx]) (by simp [hxd])

/-- A method of a live object, written back, is undone by its entries. -/
theorem applyObjectChange_change {t : StateDB Address} (hwf : t.accessList.WF) {addr : Address}
    {o : stateObject Address} (ho : t.getStateObject db addr = some o)
    {change : List (journalEntry Address) × stateObject Address}
    (hm : MethodUndone db t.stateObjectsDestruct o change) :
    Change db t change.1 (t.applyObjectChange change) := by
  obtain ⟨hod, hdel⟩ := (getStateObject_eq_some db).mp ho
  have hoa : o.address = addr := getDeletedStateObject_address db hod
  -- the change is the written-back object over the journal with the new entries
  let u : StateDB Address := { t with journal := t.journal ++ change.1 }
  have happly : t.applyObjectChange change = u.setStateObject change.2 := rfl
  have hx : change.2.address = addr := hm.address.trans hoa
  have hxd : change.2.deleted = false := hm.deleted.trans hdel
  have hrev : ∀ k, UndoLog.revertAll (journalEntry.revert db) (change.1.drop k)
      (t.applyObjectChange change) =
        u.setStateObject (UndoLog.revertAll journalEntry.revertObject (change.1.drop k) change.2) :=
    fun k => by
      rw [happly]
      exact revertAll_onObject (fun e he => hoa ▸ hm.onObject e (List.mem_of_mem_drop he)) u hx
        hxd
  refine ⟨⟨?_, fun k => ?_⟩, rfl, rfl, rfl⟩
  · have hall := hrev 0
    rw [List.drop_zero] at hall
    rw [hall]
    have hu : u.getDeletedStateObject db addr = some o := hod
    exact (Equiv.equivalence db).trans (Equiv.setStateObject hu hm.undone)
      (Equiv.bookkeeping t _ t.validRevisions t.nextRevisionId)
  · rw [hrev k]
    exact hwf

/-- `createObject`, followed by any write to the address: undone by the one entry it appends. -/
theorem createObject_change {t : StateDB Address} (hwf : t.accessList.WF) (addr : Address)
    {x : stateObject Address} (hx : x.address = addr) :
    ∃ e, Change db t [e] ((t.createObject db addr).1.setStateObject x) := by
  unfold createObject
  split
  · -- a new account: reverting deletes it, and the address reads the database again
    rename_i hnone
    have hso : t.stateObjects addr = none := by
      unfold getDeletedStateObject at hnone
      split at hnone
      · cases hnone
      · assumption
    refine ⟨.createObjectChange addr, Change.single db hwf ?_ hwf (by simp) rfl rfl⟩
    refine Equiv.of_fields ?_ rfl rfl rfl rfl rfl rfl rfl
    funext a
    by_cases ha : a = addr
    · subst ha
      simp [journalEntry.revert, hso]
    · simp [journalEntry.revert, Function.update_of_ne ha, hx]
  · -- a replaced account: reverting writes the old object back and its destructed flag
    rename_i prev hprev
    have hpa : prev.address = addr := getDeletedStateObject_address db hprev
    have hback : Equiv db (t.setStateObject prev) t :=
      Equiv.setStateObject hprev (ObjectEquiv.equivalence.refl prev)
    cases hpd : t.stateObjectsDestruct prev.address with
    | true =>
      refine ⟨.resetObjectChange addr prev true,
        Change.single db hwf ((Equiv.equivalence db).trans ?_ hback) (by simpa using hwf)
          (by simp) rfl rfl⟩
      refine Equiv.of_fields ?_ (by simp [journalEntry.revert]) rfl rfl rfl rfl rfl rfl
      funext a
      by_cases ha : a = addr
      · subst ha
        simp [journalEntry.revert, hpa]
      · simp [journalEntry.revert, Function.update_of_ne ha, hx, hpa]
    | false =>
      refine ⟨.resetObjectChange addr prev false,
        Change.single db hwf ((Equiv.equivalence db).trans ?_ hback) (by simpa using hwf)
          (by simp) rfl rfl⟩
      refine Equiv.of_fields ?_ ?_ rfl rfl rfl rfl rfl rfl
      · funext a
        by_cases ha : a = addr
        · subst ha
          simp [journalEntry.revert, hpa]
        · simp [journalEntry.revert, Function.update_of_ne ha, hx, hpa]
      · funext a
        by_cases ha : a = prev.address
        · subst ha
          simp [journalEntry.revert, hpd]
        · simp [journalEntry.revert, Function.update_of_ne ha]

/-- Writing back the object `createObject` made changes nothing. -/
theorem createObject_setStateObject_self (t : StateDB Address) (addr : Address) :
    (t.createObject db addr).1.setStateObject (t.createObject db addr).2.1 =
      (t.createObject db addr).1 := by
  unfold createObject
  split <;> exact setStateObject_setStateObject _ rfl

/-- The object `createObject` made is the live object of its address. -/
theorem createObject_getStateObject (t : StateDB Address) (addr : Address) :
    (t.createObject db addr).1.getStateObject db addr = some (t.createObject db addr).2.1 := by
  unfold createObject
  split <;> exact getStateObject_setStateObject_self _ rfl

/-- `GetOrNewStateObject` is undone by its entries, and its result is the live object of the address
afterwards. -/
theorem GetOrNewStateObject_change {t : StateDB Address} (hwf : t.accessList.WF)
    (addr : Address) :
    ∃ es, Change db t es (t.GetOrNewStateObject db addr).1 ∧
      (t.GetOrNewStateObject db addr).1.getStateObject db addr =
        some (t.GetOrNewStateObject db addr).2 := by
  unfold GetOrNewStateObject
  split
  · rename_i o ho
    exact ⟨[], Change.refl db hwf, ho⟩
  · obtain ⟨e, he⟩ : ∃ e, Change db t [e]
        ((t.createObject db addr).1.setStateObject (t.createObject db addr).2.1) :=
      createObject_change hwf addr (by unfold createObject; split <;> rfl)
    rw [createObject_setStateObject_self] at he
    exact ⟨[e], he, createObject_getStateObject t addr⟩

/-- The setters that call a method of the address's object are undone by their entries. -/
theorem withStateObject_change {t : StateDB Address} (hwf : t.accessList.WF) (addr : Address)
    {method : (Address → Bool) → stateObject Address →
      List (journalEntry Address) × stateObject Address}
    (hm : ∀ d o, MethodUndone db d o (method d o)) :
    ∃ es, Change db t es (t.withStateObject db addr method) := by
  obtain ⟨es, hchange, hobj⟩ : ∃ es, Change db t es (t.GetOrNewStateObject db addr).1 ∧
      (t.GetOrNewStateObject db addr).1.getStateObject db addr =
        some (t.GetOrNewStateObject db addr).2 :=
    GetOrNewStateObject_change hwf addr
  have hwf' : (t.GetOrNewStateObject db addr).1.accessList.WF := hchange.undoable.inv
  exact ⟨_, hchange.trans db (applyObjectChange_change hwf' hobj (hm _ _))⟩

/-- `CreateAccount` is undone by the entry of the object it creates. -/
theorem CreateAccount_change {t : StateDB Address} (hwf : t.accessList.WF) (addr : Address) :
    ∃ es, Change db t es (t.CreateAccount db addr) := by
  have hnew : (t.createObject db addr).2.1.address = addr := by
    unfold createObject
    split <;> rfl
  unfold CreateAccount
  dsimp only
  split
  · -- the new account took the old balance, unjournaled: the revert drops it with the object
    rename_i prev _
    obtain ⟨e, he⟩ : ∃ e, Change db t [e] ((t.createObject db addr).1.setStateObject
        ((t.createObject db addr).2.1.setBalance prev.data.Balance)) :=
      createObject_change hwf addr hnew
    exact ⟨[e], he⟩
  · obtain ⟨e, he⟩ : ∃ e, Change db t [e]
        ((t.createObject db addr).1.setStateObject (t.createObject db addr).2.1) :=
      createObject_change hwf addr hnew
    rw [createObject_setStateObject_self] at he
    exact ⟨[e], he⟩

/-- `SelfDestruct` is undone by the entry it appends. -/
theorem SelfDestruct_change {t : StateDB Address} (hwf : t.accessList.WF) (addr : Address) :
    ∃ es, Change db t es (t.SelfDestruct db addr) := by
  unfold SelfDestruct
  split
  · exact ⟨[], Change.refl db hwf⟩
  · rename_i o ho
    have hoa : o.address = addr :=
      getDeletedStateObject_address db ((getStateObject_eq_some db).mp ho).1
    -- the destruct is a method of the object, undone exactly
    have hm : MethodUndone db t.stateObjectsDestruct o
        ([.selfDestructChange addr o.selfDestructed o.data.Balance],
          { o.markSelfdestructed with data := { o.data with Balance := 0 } }) :=
      MethodUndone.single hoa.symm rfl rfl (ObjectEquiv.equivalence.refl o)
    exact ⟨_, applyObjectChange_change hwf ho hm⟩

/-- `Selfdestruct6780` is undone by its entries. -/
theorem Selfdestruct6780_change {t : StateDB Address} (hwf : t.accessList.WF) (addr : Address) :
    ∃ es, Change db t es (t.Selfdestruct6780 db addr) := by
  unfold Selfdestruct6780
  split
  · exact ⟨[], Change.refl db hwf⟩
  · split_ifs
    · exact SelfDestruct_change hwf addr
    · exact ⟨[], Change.refl db hwf⟩

/-- A write of the refund counter after journaling its old value is undone by that entry. -/
theorem refundChange_change {t : StateDB Address} (hwf : t.accessList.WF) (refund : UInt64) :
    Change db t [.refundChange t.refund]
      { t.append (.refundChange t.refund) with refund := refund } :=
  Change.single db hwf (Equiv.of_fields rfl rfl rfl rfl rfl rfl rfl rfl) hwf (by simp) rfl rfl

/-- `AddRefund` is undone by the refund entry it appends. -/
theorem AddRefund_change {t : StateDB Address} (hwf : t.accessList.WF) (gas : UInt64) :
    ∃ es, Change db t es (t.AddRefund gas) :=
  ⟨_, refundChange_change hwf (t.refund + gas)⟩

/-- `SubRefund` is undone by the refund entry it appends. -/
theorem SubRefund_change {t : StateDB Address} (hwf : t.accessList.WF) (gas : UInt64) :
    ∃ es, Change db t es (t.SubRefund gas) :=
  ⟨_, refundChange_change hwf _⟩

/-- `AddLog` is undone by the log entry it appends. -/
theorem AddLog_change {t : StateDB Address} (hwf : t.accessList.WF) (addr : Address)
    (topics : List Hash) (data : List UInt8) (blockNumber : ℕ) :
    ∃ es, Change db t es (t.AddLog addr topics data blockNumber) := by
  refine ⟨[.addLogChange t.thash], Change.single db hwf
    (Equiv.of_fields rfl rfl rfl ?_ ?_ rfl rfl rfl) hwf (by simp [AddLog]) rfl rfl⟩
  · -- the revert drops the log it appended again
    funext h
    by_cases hh : h = t.thash
    · subst hh
      by_cases hl : t.logs t.thash = []
      · simp [journalEntry.revert, AddLog, hl]
      · simp [journalEntry.revert, AddLog, hl]
    · simp [journalEntry.revert, AddLog, Function.update_of_ne hh]
  · simp [journalEntry.revert, AddLog]

/-- `AddPreimage` is undone by the preimage entry it appends, if any. -/
theorem AddPreimage_change {t : StateDB Address} (hwf : t.accessList.WF) (hash : Hash)
    (preimage : List UInt8) : ∃ es, Change db t es (t.AddPreimage hash preimage) := by
  unfold AddPreimage
  split
  · exact ⟨[], Change.refl db hwf⟩
  · rename_i hnone
    refine ⟨[.addPreimageChange hash], Change.single db hwf
      (Equiv.of_fields rfl rfl rfl rfl rfl ?_ rfl rfl) hwf (by simp) rfl rfl⟩
    funext h
    by_cases hh : h = hash
    · subst hh
      simp [journalEntry.revert, hnone]
    · simp [journalEntry.revert, Function.update_of_ne hh]

/-- `SetTransientState` is undone by the transient-storage entry it appends, if any. -/
theorem SetTransientState_change {t : StateDB Address} (hwf : t.accessList.WF) (addr : Address)
    (key value : Hash) : ∃ es, Change db t es (t.SetTransientState addr key value) := by
  unfold SetTransientState
  dsimp only
  split_ifs
  · exact ⟨[], Change.refl db hwf⟩
  · refine ⟨[.transientStorageChange addr key (t.GetTransientState addr key)],
      Change.single db hwf (Equiv.of_fields rfl rfl rfl rfl rfl rfl rfl ?_) hwf
        (by simp [setTransientState]) rfl rfl⟩
    simp [journalEntry.revert, setTransientState, GetTransientState]

/-- `AddAddressToAccessList` is undone by the entry it appends for a new address. -/
theorem AddAddressToAccessList_change {t : StateDB Address} (hwf : t.accessList.WF)
    (addr : Address) : ∃ es, Change db t es (t.AddAddressToAccessList addr) := by
  cases hA : t.accessList.addresses addr with
  | some idx =>
    -- present already: nothing changes
    have hop : t.AddAddressToAccessList addr = t := by
      simp [AddAddressToAccessList, accessList.AddAddress_of_some hA]
    rw [hop]
    exact ⟨[], Change.refl db hwf⟩
  | none =>
    have hadded : (t.accessList.AddAddress addr).1 = true := by simp [accessList.AddAddress, hA]
    have hop : t.AddAddressToAccessList addr =
        { t.append (.accessListAddAccountChange addr) with
          accessList := (t.accessList.AddAddress addr).2 } := by
      simp [AddAddressToAccessList, hadded]
    rw [hop]
    refine ⟨[.accessListAddAccountChange addr], Change.single db hwf
      (Equiv.of_fields rfl rfl rfl rfl rfl rfl ?_ rfl) (accessList.AddAddress_wf hwf addr)
      (by simp) rfl rfl⟩
    exact accessList.DeleteAddress_AddAddress addr hadded

/-- `AddSlotToAccessList` is undone by its entries: the slot's, then the address's when it was new.
-/
theorem AddSlotToAccessList_change {t : StateDB Address} (hwf : t.accessList.WF)
    (addr : Address) (slot : Hash) : ∃ es, Change db t es (t.AddSlotToAccessList addr slot) := by
  have hwf' := accessList.AddSlot_wf hwf addr slot
  cases hA : t.accessList.addresses addr with
  | none =>
    -- a new address: its entry, then the slot's, each taken back in turn
    have hadd := accessList.AddSlot_of_none hA slot
    rw [hadd] at hwf'
    have hop : t.AddSlotToAccessList addr slot =
        (({ t with accessList := ⟨Function.update t.accessList.addresses addr
            (some t.accessList.slots.length), t.accessList.slots ++ [{slot}]⟩ } : StateDB Address
          ).append (.accessListAddAccountChange addr)).append
            (.accessListAddSlotChange addr slot) := by
      simp [AddSlotToAccessList, hadd]
    rw [hop]
    have hall : Equiv db (UndoLog.revertAll (journalEntry.revert db)
        [.accessListAddAccountChange addr, .accessListAddSlotChange addr slot]
        ((({ t with accessList := ⟨Function.update t.accessList.addresses addr
            (some t.accessList.slots.length), t.accessList.slots ++ [{slot}]⟩ } : StateDB Address
          ).append (.accessListAddAccountChange addr)).append
            (.accessListAddSlotChange addr slot))) t :=
      Equiv.of_fields rfl rfl rfl rfl rfl rfl (accessList.DeleteAddress_DeleteSlot_fresh hA slot)
        rfl
    refine ⟨_, ⟨hall, fun k => ?_⟩, by simp, rfl, rfl⟩
    match k with
    | 0 => exact wf_of_equiv db ((Equiv.equivalence db).symm hall) hwf
    | 1 =>
      -- between the two reverts the address is present with no slots
      simp only [List.drop_succ_cons, List.drop_zero, UndoLog.revertAll_cons,
        UndoLog.revertAll_nil, journalEntry.revert, append_accessList]
      rw [accessList.DeleteSlot_fresh]
      exact accessList.WF_update_minus_one hwf addr
    | k + 2 => simpa using hwf'
  | some idx =>
    by_cases hidx : idx = -1
    · -- an address without slots gets a fresh slot set
      subst hidx
      have hadd := accessList.AddSlot_of_minus_one hA slot
      rw [hadd] at hwf'
      have hop : t.AddSlotToAccessList addr slot =
          ({ t with accessList := ⟨Function.update t.accessList.addresses addr
              (some t.accessList.slots.length), t.accessList.slots ++ [{slot}]⟩ } :
                StateDB Address).append (.accessListAddSlotChange addr slot) := by
        simp [AddSlotToAccessList, hadd]
      rw [hop]
      exact ⟨[.accessListAddSlotChange addr slot], Change.single db hwf (Equiv.of_fields rfl rfl
        rfl rfl rfl rfl (accessList.DeleteSlot_fresh_of_minus_one hA slot) rfl) hwf' (by simp) rfl
        rfl⟩
    · by_cases hs : slot ∈ t.accessList.slots.getD idx.toNat ∅
      · have hop : t.AddSlotToAccessList addr slot = t := by
          simp [AddSlotToAccessList, accessList.AddSlot_of_mem hA hidx hs]
        rw [hop]
        exact ⟨[], Change.refl db hwf⟩
      · -- the slot joins the address's set, which the well-formed list keeps non-empty
        obtain ⟨-, hlt, hne⟩ := (hwf addr idx hA).resolve_left hidx
        have hadd := accessList.AddSlot_of_not_mem hA hidx hs
        rw [hadd] at hwf'
        have hop : t.AddSlotToAccessList addr slot =
            ({ t with accessList := (t.accessList.AddSlot addr slot).2 } : StateDB Address
              ).append (.accessListAddSlotChange addr slot) := by
          simp [AddSlotToAccessList, hadd]
        rw [hop, hadd]
        exact ⟨[.accessListAddSlotChange addr slot], Change.single db hwf (Equiv.of_fields rfl rfl
          rfl rfl rfl rfl (accessList.DeleteSlot_set hA hlt hne hs) rfl) hwf' (by simp) rfl rfl⟩

end StateDB

end Jeth.State
