import Mathlib
import Jeth.Lib.Collections

/-!
# The code syncer, across interruptions

`codeSyncer` of `sync/statesync/code_syncer.go` fetches the code of the accounts the main trie
sync finds. Its progress lives in three places: the in-memory set `outstandingCodeHashes`, the
channel `codeHashes` its workers read, and the `CodeToFetch` markers of the database, which
outlive an interruption. A new `codeSyncer` on the same database starts by deleting the markers
whose code is stored and handing the others to `addCode` again.

The model is the goroutines of one `codeSyncer` as a state machine: the workers running `work`,
the calls of `addCode` (the one `start` makes and those of the leaf callbacks), and the steps of
`start` itself. Each step is one thread's next action. Locked regions count as one step except
the loop of `addCode`, which reads the database once per hash while the workers' batch writes,
made outside the lock, go on. A batch write is one step (batch writes are atomic), and
`Client.GetCode` is taken to return the code of every hash asked for, so the database only
records which hashes have a marker and which have their code. The channel is a list: its
capacity only makes a send wait, which removes interleavings and so changes none of the
results. Errors (a failed request or batch write, a cancelled context) are steps that end the
thread with its error. An interruption ends a run in whatever state it has reached; the next
run starts from `init` over the database it left.

The results:
- Nothing is lost from the database: a hash with a marker or its code keeps one or the other
  (`known_run`).
- `Inv` holds in every state of a run (`inv_run`). From it, when a run is interrupted, every
  hash passed to `addCode` has a marker or its code, unless a call that had not returned `nil`
  was passed it too (`Inv.known_or_cut`); and when every worker of a run has returned `nil`,
  the hashes passed to `addCode` in that run have their code and no marker is left
  (`Inv.code_of_done`).
- Across runs (`History`), if each call that an interruption cut short is made again in a later
  run (`Retried`) and the last run has at least one worker, all of which return `nil`, every
  hash passed to `addCode` in any run has its code at the end and no marker remains
  (`codeSync_complete`). Without the retry this fails: a call that returned `nil` may have
  skipped its hash because another call had just selected it, and an interruption before that
  other call wrote its marker leaves the hash with neither marker nor code
  (`codeSync_loses_hash_without_retry`).
-/

namespace Jeth.CodeSync

/-- What the database holds for code sync: the hashes whose code is stored, and the
`CodeToFetch` markers. -/
@[ext]
structure CodeDB (H : Type*) where
  code : Finset H
  markers : Finset H

/-- One write of a batch. -/
inductive BatchOp (H : Type*)
  | addCodeToFetch (h : H)
  | deleteCodeToFetch (h : H)
  | writeCode (h : H)

/-- A goroutine running `work`. -/
inductive Worker (H : Type*)
  /-- In its `select`, with the hashes read since its last request. -/
  | reading (codeHashes : List H)
  /-- In `fulfillCodeRequest`, waiting for `Client.GetCode`; `last` when the channel was found
  closed, so that `work` returns after this request. -/
  | fetching (codeHashes : List H) (last : Bool)
  /-- In `fulfillCodeRequest` after the lock is released, before `batch.Write()`. -/
  | writing (codeHashes : List H) (last : Bool)
  /-- Returned; `ok` when it returned `nil`. -/
  | exited (ok : Bool)
  deriving DecidableEq

/-- Where a call of `addCode` is. -/
inductive AddCodePc (H : Type*)
  /-- Before `c.lock.Lock()`. -/
  | locking
  /-- In its loop under the lock, with the hashes left to look at and those selected. -/
  | selecting (rest selected : List H)
  /-- The lock released, before `batch.Write()`. -/
  | writing (selected : List H)
  /-- In `addHashesToQueue`, with the hashes left to send. -/
  | queueing (rest : List H)
  /-- Returned; `ok` when it returned `nil`. -/
  | returned (ok : Bool)
  deriving DecidableEq

/-- A call of `addCode`, with its argument. -/
structure AddCodeCall (H : Type*) where
  codeHashes : List H
  pc : AddCodePc H
  deriving DecidableEq

/-- Where `start` is: before `addCodeToFetchFromDBToQueue` has read the markers, while the
`addCode` it makes of them runs, and after `start` has returned. -/
inductive Phase
  | starting
  | loading
  | running
  deriving DecidableEq

/-- A `codeSyncer` with `n` workers (`NumCodeFetchingWorkers`), and the database. -/
structure CodeSyncer (H : Type*) (n : ℕ) where
  db : CodeDB H
  outstandingCodeHashes : Finset H
  /-- The values buffered in the channel `codeHashes`. -/
  codeHashes : List H
  /-- `notifyAccountTrieCompleted` has closed the channel. -/
  closed : Bool
  /-- `c.lock` is held by an `addCode` loop. -/
  locked : Bool
  ctxDone : Bool
  phase : Phase
  workers : Fin n → Worker H
  calls : List (AddCodeCall H)

/-- One step of one goroutine. -/
inductive Event (H : Type*) (n : ℕ)
  /-- `addCodeToFetchFromDBToQueue` deletes the marker of `h`, whose code is stored. -/
  | cleanup (h : H)
  /-- `addCodeToFetchFromDBToQueue` has read the markers, `l` in the iterator's order, deleted
  those whose code is stored, and calls `addCode` with the others. -/
  | load (l : List H)
  /-- `start` returns, after its `addCode`. -/
  | started
  /-- A leaf callback (`mainTrieTask.OnLeafs`) calls `addCode`. -/
  | addCode (codeHashes : List H)
  | notifyAccountTrieCompleted
  /-- The context is cancelled, from outside or by `setError`. -/
  | cancel
  /-- Call `i` of `addCode` takes its next step. -/
  | call (i : ℕ)
  /-- Call `i` returns its error: its `batch.Write()` fails, or it finds the context done. -/
  | callFail (i : ℕ)
  /-- Worker `w` takes its next step. -/
  | worker (w : Fin n)
  /-- Worker `w` returns an error: it finds the context done, or its request or its
  `batch.Write()` fails. -/
  | workerFail (w : Fin n)

variable {H : Type*} {n : ℕ}

/-- Whether a call has returned, with or without an error. -/
def AddCodePc.isReturned : AddCodePc H → Bool
  | .returned _ => true
  | _ => false

/-! ## One thread moved -/

namespace CodeSyncer

/-- Call `i` moved to `pc`. -/
def setCall (s : CodeSyncer H n) (i : ℕ) (c : AddCodeCall H) (pc : AddCodePc H) :
    CodeSyncer H n :=
  { s with calls := s.calls.set i ⟨c.codeHashes, pc⟩ }

/-- Worker `w` moved to `x`. -/
def setWorker (s : CodeSyncer H n) (w : Fin n) (x : Worker H) : CodeSyncer H n :=
  { s with workers := Function.update s.workers w x }

section Set

variable {s : CodeSyncer H n} {i : ℕ} {c : AddCodeCall H} {pc : AddCodePc H} {w : Fin n}
  {x : Worker H}

@[simp] theorem setCall_db : (s.setCall i c pc).db = s.db := rfl
@[simp] theorem setCall_outstandingCodeHashes :
    (s.setCall i c pc).outstandingCodeHashes = s.outstandingCodeHashes := rfl
@[simp] theorem setCall_codeHashes : (s.setCall i c pc).codeHashes = s.codeHashes := rfl
@[simp] theorem setCall_closed : (s.setCall i c pc).closed = s.closed := rfl
@[simp] theorem setCall_phase : (s.setCall i c pc).phase = s.phase := rfl
@[simp] theorem setCall_workers : (s.setCall i c pc).workers = s.workers := rfl
@[simp] theorem setCall_calls : (s.setCall i c pc).calls = s.calls.set i ⟨c.codeHashes, pc⟩ := rfl

@[simp] theorem setWorker_db : (s.setWorker w x).db = s.db := rfl
@[simp] theorem setWorker_outstandingCodeHashes :
    (s.setWorker w x).outstandingCodeHashes = s.outstandingCodeHashes := rfl
@[simp] theorem setWorker_codeHashes : (s.setWorker w x).codeHashes = s.codeHashes := rfl
@[simp] theorem setWorker_closed : (s.setWorker w x).closed = s.closed := rfl
@[simp] theorem setWorker_phase : (s.setWorker w x).phase = s.phase := rfl
@[simp] theorem setWorker_calls : (s.setWorker w x).calls = s.calls := rfl
@[simp] theorem setWorker_workers :
    (s.setWorker w x).workers = Function.update s.workers w x := rfl

/-- What some call satisfied, some call satisfies after call `i` moved, if the move keeps it. -/
theorem exists_calls_set (hi : s.calls[i]? = some c) {P : AddCodeCall H → Prop}
    (hP : P c → P ⟨c.codeHashes, pc⟩) (h : ∃ c' ∈ s.calls, P c') :
    ∃ c' ∈ s.calls.set i ⟨c.codeHashes, pc⟩, P c' :=
  (Collections.exists_mem_set_or hi h).elim id fun hc =>
    ⟨_, List.mem_set (List.getElem?_eq_some_iff.mp hi).1 _, hP hc⟩

/-- What some worker satisfied, some worker satisfies after worker `w` moved, if the move keeps
it. -/
theorem exists_setWorker {P : Worker H → Prop} (hP : P (s.workers w) → P x)
    (h : ∃ w', P (s.workers w')) : ∃ w', P ((s.setWorker w x).workers w') := by
  obtain ⟨w', hw'⟩ := h
  by_cases hw : w' = w
  · subst hw
    exact ⟨w', by rw [setWorker_workers, Function.update_self]; exact hP hw'⟩
  · exact ⟨w', by rw [setWorker_workers, Function.update_of_ne hw]; exact hw'⟩

theorem exists_setWorker_rev {P : Worker H → Prop} (h : ∃ w', P ((s.setWorker w x).workers w')) :
    (∃ w', P (s.workers w')) ∨ P x := by
  obtain ⟨w', hw'⟩ := h
  by_cases hw : w' = w
  · subst hw
    rw [setWorker_workers, Function.update_self] at hw'
    exact .inr hw'
  · rw [setWorker_workers, Function.update_of_ne hw] at hw'
    exact .inl ⟨w', hw'⟩

end Set

end CodeSyncer

variable [DecidableEq H]

/-- The database after one write. -/
def BatchOp.apply : BatchOp H → CodeDB H → CodeDB H
  | .addCodeToFetch h, db => { db with markers := insert h db.markers }
  | .deleteCodeToFetch h, db => { db with markers := db.markers.erase h }
  | .writeCode h, db => { db with code := insert h db.code }

/-- `batch.Write()`: the writes of a batch in order, all at once. -/
def write (db : CodeDB H) (batch : List (BatchOp H)) : CodeDB H :=
  batch.foldl (fun db op => op.apply db) db

/-- The batch the loop of `addCode` builds: a marker for each selected hash. -/
def markerBatch (selected : List H) : List (BatchOp H) := selected.map .addCodeToFetch

/-- The batch the loop of `fulfillCodeRequest` builds: for each hash, its marker deleted and
its code written. -/
def codeBatch (codeHashes : List H) : List (BatchOp H) :=
  codeHashes.flatMap fun h => [.deleteCodeToFetch h, .writeCode h]

namespace CodeSyncer

variable (maxCodeHashesPerRequest : ℕ)

/-- The next step of call `c`, at index `i`, of `addCode`. -/
def callStep (s : CodeSyncer H n) (i : ℕ) (c : AddCodeCall H) : Option (CodeSyncer H n) :=
  match c.pc with
  | .locking => if s.locked then none else some { s.setCall i c (.selecting c.codeHashes []) with
      locked := true }
  | .selecting (h :: rest) selected =>
    -- not already queued, and not already stored
    if h ∉ s.outstandingCodeHashes ∧ h ∉ s.db.code then
      some { s.setCall i c (.selecting rest (selected ++ [h])) with
        outstandingCodeHashes := insert h s.outstandingCodeHashes }
    else some (s.setCall i c (.selecting rest selected))
  | .selecting [] selected => some { s.setCall i c (.writing selected) with locked := false }
  | .writing selected =>
    some { s.setCall i c (.queueing selected) with db := write s.db (markerBatch selected) }
  | .queueing (h :: rest) =>
    some { s.setCall i c (.queueing rest) with codeHashes := s.codeHashes ++ [h] }
  | .queueing [] => some (s.setCall i c (.returned true))
  | .returned _ => none

/-- The next step of worker `w`, in state `x`. -/
def workerStep (s : CodeSyncer H n) (w : Fin n) : Worker H → Option (CodeSyncer H n)
  | .reading p =>
    match s.codeHashes with
    | h :: q =>
      -- wait for a full request while more may come
      let p := p ++ [h]
      some { s.setWorker w (if p.length < maxCodeHashesPerRequest then .reading p
        else .fetching p false) with codeHashes := q }
    | [] =>
      if s.closed then some (s.setWorker w (if p = [] then .exited true else .fetching p true))
      else none
  | .fetching p last =>
    if s.locked then none
    else some { s.setWorker w (.writing p last) with
      outstandingCodeHashes := s.outstandingCodeHashes \ p.toFinset }
  | .writing p last =>
    some { s.setWorker w (if last then .exited true else .reading []) with
      db := write s.db (codeBatch p) }
  | .exited _ => none

/-- The code syncer after one event, if the event can happen. -/
def step (s : CodeSyncer H n) : Event H n → Option (CodeSyncer H n)
  | .cleanup h =>
    if s.phase = .starting ∧ h ∈ s.db.markers ∧ h ∈ s.db.code then
      some { s with db := { s.db with markers := s.db.markers.erase h } }
    else none
  | .load l =>
    if s.phase = .starting ∧ l.Nodup ∧ l.toFinset = s.db.markers.filter (· ∉ s.db.code) then
      some { s with
        db := { s.db with markers := s.db.markers.filter (· ∉ s.db.code) }
        phase := .loading
        calls := [⟨l, .locking⟩] }
    else none
  | .started =>
    if s.phase = .loading ∧ s.calls.all (·.pc.isReturned) then some { s with phase := .running }
    else none
  | .addCode l =>
    if s.phase = .running ∧ s.closed = false then some { s with calls := s.calls ++ [⟨l, .locking⟩] }
    else none
  | .notifyAccountTrieCompleted =>
    if s.phase = .running ∧ s.closed = false ∧ s.calls.all (·.pc = .returned true) then
      some { s with closed := true }
    else none
  | .cancel => some { s with ctxDone := true }
  | .call i =>
    match s.calls[i]? with
    | some c => s.callStep i c
    | none => none
  | .callFail i =>
    match s.calls[i]? with
    | some c =>
      match c.pc with
      | .writing _ => some (s.setCall i c (.returned false))
      | .queueing (_ :: _) => if s.ctxDone then some (s.setCall i c (.returned false)) else none
      | _ => none
    | none => none
  | .worker w => s.workerStep maxCodeHashesPerRequest w (s.workers w)
  | .workerFail w =>
    match s.workers w with
    | .reading _ => if s.ctxDone then some (s.setWorker w (.exited false)) else none
    | .fetching _ _ => some (s.setWorker w (.exited false))
    | .writing _ _ => some (s.setWorker w (.exited false))
    | .exited _ => none

/-- The code syncer after the events of a schedule, in turn, if each could happen. -/
def run (s : CodeSyncer H n) : List (Event H n) → Option (CodeSyncer H n)
  | [] => some s
  | e :: es => (s.step maxCodeHashesPerRequest e).bind fun s' => run s' es

end CodeSyncer

/-- `newCodeSyncer` over `db`, with its `n` workers started. -/
def init (n : ℕ) (db : CodeDB H) : CodeSyncer H n :=
  ⟨db, ∅, [], false, false, false, .starting, fun _ => .reading [], []⟩

/-! ## Batches -/

theorem write_append (db : CodeDB H) (b₁ b₂ : List (BatchOp H)) :
    write db (b₁ ++ b₂) = write (write db b₁) b₂ :=
  List.foldl_append

theorem write_markerBatch (db : CodeDB H) (selected : List H) :
    write db (markerBatch selected) = ⟨db.code, db.markers ∪ selected.toFinset⟩ := by
  induction selected generalizing db with
  | nil => ext <;> simp [write, markerBatch]
  | cons h selected ih =>
    have hcons : markerBatch (h :: selected) = [.addCodeToFetch h] ++ markerBatch selected := rfl
    rw [hcons, write_append, ih]
    ext x
    · simp [write, BatchOp.apply]
    · simp only [write, BatchOp.apply, List.foldl_cons, List.foldl_nil, Finset.mem_union,
        Finset.mem_insert, List.toFinset_cons, List.mem_toFinset]
      tauto

theorem write_codeBatch (db : CodeDB H) (p : List H) :
    write db (codeBatch p) = ⟨db.code ∪ p.toFinset, db.markers \ p.toFinset⟩ := by
  induction p generalizing db with
  | nil => ext <;> simp [write, codeBatch]
  | cons h p ih =>
    have hcons : codeBatch (h :: p) = [.deleteCodeToFetch h, .writeCode h] ++ codeBatch p := rfl
    rw [hcons, write_append, ih]
    ext x
    · simp only [write, BatchOp.apply, List.foldl_cons, List.foldl_nil, Finset.mem_union,
        Finset.mem_insert, List.toFinset_cons, List.mem_toFinset]
      tauto
    · simp only [write, BatchOp.apply, List.foldl_cons, List.foldl_nil, Finset.mem_sdiff,
        Finset.mem_erase, List.toFinset_cons, Finset.mem_insert, List.mem_toFinset]
      tauto

/-! ## What the invariant speaks of -/

/-- A hash the database knows: it has a marker or its code. -/
def Known (db : CodeDB H) (h : H) : Prop := h ∈ db.markers ∨ h ∈ db.code

namespace Worker

/-- The hashes a worker holds: read from the channel, and not yet written. -/
def Holds : Worker H → H → Prop
  | reading p, h => h ∈ p
  | fetching p _, h => h ∈ p
  | writing p _, h => h ∈ p
  | exited _, _ => False

/-- A worker that found the channel closed and returns after its last request, or that has
returned `nil`. -/
def Last : Worker H → Prop
  | fetching _ last => last = true
  | writing _ last => last = true
  | exited ok => ok = true
  | reading _ => False

end Worker

namespace AddCodePc

/-- The hashes a call has still to send. -/
def Sending : AddCodePc H → H → Prop
  | queueing rest, h => h ∈ rest
  | _, _ => False

/-- The hashes a call has selected and not yet written a marker for. -/
def Unwritten : AddCodePc H → H → Prop
  | selecting _ selected, h => h ∈ selected
  | writing selected, h => h ∈ selected
  | _, _ => False

end AddCodePc

namespace AddCodeCall

/-- The hashes of `start`'s call that it will select and write a marker for. -/
def Pending (c : AddCodeCall H) (h : H) : Prop :=
  match c.pc with
  | .locking => h ∈ c.codeHashes
  | .selecting rest selected => h ∈ rest ∨ h ∈ selected
  | .writing selected => h ∈ selected
  | _ => False

/-- A call that selected `h` and has not written its marker, or failed to. -/
def Owns (c : AddCodeCall H) (h : H) : Prop :=
  h ∈ c.codeHashes ∧ (c.pc.Unwritten h ∨ c.pc = .returned false)

/-- What a call has looked at satisfies `P`, and what it selected is among its hashes. -/
def Progress (P : H → Prop) (c : AddCodeCall H) : Prop :=
  match c.pc with
  | .locking => True
  | .selecting rest selected =>
    ∃ done, c.codeHashes = done ++ rest ∧ selected ⊆ done ∧ ∀ h ∈ done, P h
  | .writing selected => selected ⊆ c.codeHashes ∧ ∀ h ∈ c.codeHashes, P h
  | .queueing _ => ∀ h ∈ c.codeHashes, P h
  | .returned ok => ok = true → ∀ h ∈ c.codeHashes, P h

/-- The hashes a call has still to look at are distinct and satisfy `P`. -/
def Fresh (P : H → Prop) (c : AddCodeCall H) : Prop :=
  match c.pc with
  | .locking => c.codeHashes.Nodup ∧ ∀ h ∈ c.codeHashes, P h
  | .selecting rest _ => rest.Nodup ∧ ∀ h ∈ rest, P h
  | _ => True

end AddCodeCall

namespace CodeSyncer

/-- A hash on its way from its marker to a worker's batch: being sent, in the channel, or held
by a worker. -/
def InFlight (s : CodeSyncer H n) (h : H) : Prop :=
  h ∈ s.codeHashes ∨ (∃ c ∈ s.calls, c.pc.Sending h) ∨ ∃ w, (s.workers w).Holds h

/-- A thread has returned an error, so that `Done()` does not yield `nil`. -/
def Failed (s : CodeSyncer H n) : Prop :=
  (∃ c ∈ s.calls, c.pc = .returned false) ∨ ∃ w, s.workers w = .exited false

/-- A hash the database knows, or one outstanding. -/
def Handled (s : CodeSyncer H n) (h : H) : Prop := Known s.db h ∨ h ∈ s.outstandingCodeHashes

/-- The hashes passed to `addCode` in a run, those of `start`'s call included. -/
def passed (s : CodeSyncer H n) : Finset H := (s.calls.flatMap AddCodeCall.codeHashes).toFinset

/-- The hashes of the calls that had not returned `nil`. -/
def cut (s : CodeSyncer H n) : Finset H :=
  ((s.calls.filter fun c => c.pc ≠ .returned true).flatMap AddCodeCall.codeHashes).toFinset

end CodeSyncer

open CodeSyncer

/-- What holds in every state of a run. A hash on its way to a worker is known to the database,
and a marker is on its way to a worker; what a call has looked at is known or outstanding, and
an outstanding hash is known unless the call that selected it has not yet written its marker.
Around them: what `start` does before the leaf callbacks may call `addCode`, and that the
channel is closed only after every call returned `nil`. -/
structure Inv (s : CodeSyncer H n) : Prop where
  /-- Before `start` reads the markers, only the context can change. -/
  starting : s.phase = .starting → s.calls = [] ∧ s.outstandingCodeHashes = ∅ ∧
    s.codeHashes = [] ∧ ∀ w, s.workers w = .reading [] ∨ s.workers w = .exited false
  /-- While `start`'s call runs it is the only call, and the hashes it has left are outstanding
  nowhere, stored nowhere and in flight nowhere. -/
  loading : s.phase = .loading → ∃ c, s.calls = [c] ∧
    c.Fresh fun h => h ∉ s.outstandingCodeHashes ∧ h ∉ s.db.code ∧ ¬ s.InFlight h
  inFlight : ∀ h, s.InFlight h → Known s.db h
  /-- An outstanding hash is known, unless the call that selected it has not written its marker
  yet, or failed to. -/
  outstanding : ∀ h ∈ s.outstandingCodeHashes, Known s.db h ∨ ∃ c ∈ s.calls, c.Owns h
  progress : ∀ c ∈ s.calls, c.Progress s.Handled
  /-- A marker is on its way to a worker, unless `start` has still to read it or a thread has
  failed. -/
  markers : ∀ h ∈ s.db.markers, s.phase = .starting ∨ s.Failed ∨ s.InFlight h ∨
    (s.phase = .loading ∧ ∃ c ∈ s.calls, c.Pending h)
  closed : s.closed = true → s.phase = .running ∧ ∀ c ∈ s.calls, c.pc = .returned true
  /-- A worker that found the channel closed found it empty, and it stays empty. -/
  last : ∀ w, (s.workers w).Last → s.closed = true ∧ s.codeHashes = []

/-! ## The database only learns -/

theorem Known.write_markerBatch {db : CodeDB H} {h : H} (hk : Known db h) (selected : List H) :
    Known (write db (markerBatch selected)) h := by
  rw [CodeSync.write_markerBatch]
  rcases hk with hm | hc
  · exact .inl (Finset.mem_union_left _ hm)
  · exact .inr hc

theorem Known.write_codeBatch {db : CodeDB H} {h : H} (hk : Known db h) (p : List H) :
    Known (write db (codeBatch p)) h := by
  rw [CodeSync.write_codeBatch]
  by_cases hp : h ∈ p
  · exact .inr (Finset.mem_union_right _ (List.mem_toFinset.mpr hp))
  rcases hk with hm | hc
  · exact .inl (Finset.mem_sdiff.mpr ⟨hm, by simpa using hp⟩)
  · exact .inr (Finset.mem_union_left _ hc)

/-- Deleting the markers of stored code loses nothing. -/
theorem Known.filter_code {db : CodeDB H} {h : H} (hk : Known db h) :
    Known { db with markers := db.markers.filter (· ∉ db.code) } h := by
  by_cases hc : h ∈ db.code
  · exact .inr hc
  · rcases hk with hm | hc'
    · exact .inl (Finset.mem_filter.mpr ⟨hm, hc⟩)
    · exact absurd hc' hc

theorem Known.erase_of_code {db : CodeDB H} {h h' : H} (hk : Known db h) (hc : h' ∈ db.code) :
    Known { db with markers := db.markers.erase h' } h := by
  by_cases hh : h = h'
  · exact .inr (hh ▸ hc)
  · rcases hk with hm | hc'
    · exact .inl (Finset.mem_erase.mpr ⟨hh, hm⟩)
    · exact .inr hc'

omit [DecidableEq H] in
theorem inv_init (db : CodeDB H) : Inv (init n db) where
  starting _ := ⟨rfl, rfl, rfl, fun _ => .inl rfl⟩
  loading h := by cases h
  inFlight _ h := by simp [InFlight, init, Worker.Holds] at h
  outstanding _ h := by simp [init] at h
  progress _ h := by simp [init] at h
  markers _ _ := .inl rfl
  closed h := by cases h
  last _ h := by simp [init, Worker.Last] at h

/-! ## What a move of one thread does to the invariant's terms -/

namespace CodeSyncer

variable {s : CodeSyncer H n} {i : ℕ} {c : AddCodeCall H} {pc : AddCodePc H} {w : Fin n}
  {y : Worker H} {h : H}

omit [DecidableEq H] in
theorem inFlight_setCall_rev (hf : (s.setCall i c pc).InFlight h) : s.InFlight h ∨ pc.Sending h := by
  rcases hf with hq | ⟨c', hc', hs⟩ | hw
  · exact .inl (.inl hq)
  · rcases List.mem_or_eq_of_mem_set hc' with hc' | rfl
    · exact .inl (.inr (.inl ⟨c', hc', hs⟩))
    · exact .inr hs
  · exact .inl (.inr (.inr hw))

omit [DecidableEq H] in
theorem inFlight_setCall (hi : s.calls[i]? = some c) (hpc : c.pc.Sending h → pc.Sending h)
    (hf : s.InFlight h) : (s.setCall i c pc).InFlight h := by
  rcases hf with hq | hc | hw
  · exact .inl hq
  · exact .inr (.inl (exists_calls_set hi hpc hc))
  · exact .inr (.inr hw)

omit [DecidableEq H] in
theorem inFlight_setWorker_rev (hf : (s.setWorker w y).InFlight h) : s.InFlight h ∨ y.Holds h := by
  rcases hf with hq | hc | hw
  · exact .inl (.inl hq)
  · exact .inl (.inr (.inl hc))
  · rcases exists_setWorker_rev (P := fun x => x.Holds h) hw with hw | hy
    · exact .inl (.inr (.inr hw))
    · exact .inr hy

omit [DecidableEq H] in
theorem inFlight_setWorker (hy : (s.workers w).Holds h → y.Holds h) (hf : s.InFlight h) :
    (s.setWorker w y).InFlight h := by
  rcases hf with hq | hc | hw
  · exact .inl hq
  · exact .inr (.inl hc)
  · exact .inr (.inr (exists_setWorker (P := fun x => x.Holds h) hy hw))

omit [DecidableEq H] in
theorem failed_setCall (hi : s.calls[i]? = some c)
    (hpc : c.pc = .returned false → pc = .returned false) (hf : s.Failed) :
    (s.setCall i c pc).Failed := by
  rcases hf with hc | hw
  · exact .inl (exists_calls_set hi hpc hc)
  · exact .inr hw

omit [DecidableEq H] in
theorem failed_setWorker (hy : s.workers w = .exited false → y = .exited false)
    (hf : s.Failed) : (s.setWorker w y).Failed := by
  rcases hf with hc | hw
  · exact .inl hc
  · exact .inr (exists_setWorker (P := fun x => x = .exited false) hy hw)

end CodeSyncer

omit [DecidableEq H] in
theorem AddCodeCall.Progress.mono {P Q : H → Prop} {c : AddCodeCall H} (hPQ : ∀ h, P h → Q h)
    (hc : c.Progress P) : c.Progress Q := by
  unfold AddCodeCall.Progress at hc ⊢
  split at hc
  · trivial
  · obtain ⟨done, hdone, hsel, hP⟩ := hc
    exact ⟨done, hdone, hsel, fun h hh => hPQ h (hP h hh)⟩
  · exact ⟨hc.1, fun h hh => hPQ h (hc.2 h hh)⟩
  · exact fun h hh => hPQ h (hc h hh)
  · exact fun hok h hh => hPQ h (hc hok h hh)

omit [DecidableEq H] in
theorem AddCodeCall.Fresh.mono {P Q : H → Prop} {c : AddCodeCall H} (hPQ : ∀ h, P h → Q h)
    (hc : c.Fresh P) : c.Fresh Q := by
  unfold AddCodeCall.Fresh at hc ⊢
  split at hc
  · exact ⟨hc.1, fun h hh => hPQ h (hc.2 h hh)⟩
  · exact ⟨hc.1, fun h hh => hPQ h (hc.2 h hh)⟩
  · trivial

omit [DecidableEq H] in
theorem AddCodeCall.Progress.of_returned {P : H → Prop} {c : AddCodeCall H} (hc : c.Progress P)
    (hr : c.pc = .returned true) : ∀ h ∈ c.codeHashes, P h := by
  unfold AddCodeCall.Progress at hc
  rw [hr] at hc
  exact hc rfl

omit [DecidableEq H] in
/-- A call that owns a hash has not returned `nil`. -/
theorem AddCodeCall.Owns.pc_ne {c : AddCodeCall H} {h : H} (ho : c.Owns h) :
    c.pc ≠ .returned true := by
  obtain ⟨-, hu | hr⟩ := ho
  · intro hr
    rw [hr] at hu
    exact hu
  · rw [hr]
    simp

namespace CodeSyncer

variable {s : CodeSyncer H n} {h : H}

theorem mem_passed : h ∈ passed s ↔ ∃ c ∈ s.calls, h ∈ c.codeHashes := by
  simp [passed]

theorem mem_cut : h ∈ cut s ↔ ∃ c ∈ s.calls, c.pc ≠ .returned true ∧ h ∈ c.codeHashes := by
  simp [cut, and_assoc]

end CodeSyncer

namespace Inv

variable {s : CodeSyncer H n} {i : ℕ} {c : AddCodeCall H}

omit [DecidableEq H] in
/-- Calls exist only once `start` has read the markers. -/
theorem phase_ne_starting (hI : Inv s) (hi : s.calls[i]? = some c) : s.phase ≠ .starting :=
  fun hp => by simp [(hI.starting hp).1] at hi

omit [DecidableEq H] in
/-- The channel is open while a call has not returned `nil`. -/
theorem closed_eq_false (hI : Inv s) (hi : s.calls[i]? = some c) (hc : c.pc ≠ .returned true) :
    s.closed = false := by
  cases hcl : s.closed
  · rfl
  · exact absurd ((hI.closed hcl).2 c (List.mem_of_getElem? hi)) hc

omit [DecidableEq H] in
/-- No worker has found the channel closed while it is open. -/
theorem not_last (hI : Inv s) (hcl : s.closed = false) (w : Fin n) : ¬ (s.workers w).Last :=
  fun hw => by simp [(hI.last w hw).1] at hcl

omit [DecidableEq H] in
/-- While `start`'s call runs, call `i` is that call, and moving it leaves it alone. -/
theorem calls_set_of_loading (hI : Inv s) (hp : s.phase = .loading) (hi : s.calls[i]? = some c)
    (pc : AddCodePc H) :
    s.calls = [c] ∧ s.calls.set i ⟨c.codeHashes, pc⟩ = [⟨c.codeHashes, pc⟩] := by
  obtain ⟨c₀, hc₀, -⟩ := hI.loading hp
  rw [hc₀] at hi ⊢
  cases i with
  | zero => cases hi; exact ⟨rfl, rfl⟩
  | succ i => simp at hi

/-! ### The steps of `start`, `notifyAccountTrieCompleted` and the context -/

omit [DecidableEq H] in
theorem cancel (hI : Inv s) : Inv { s with ctxDone := true } :=
  ⟨hI.starting, hI.loading, hI.inFlight, hI.outstanding, hI.progress, hI.markers, hI.closed,
    hI.last⟩

theorem cleanup (hI : Inv s) {h₀ : H} (hp : s.phase = .starting) (hc : h₀ ∈ s.db.code) :
    Inv { s with db := { s.db with markers := s.db.markers.erase h₀ } } where
  starting := hI.starting
  loading := by
    intro hl
    rw [hp] at hl
    cases hl
  inFlight := by
    intro h hf
    exact (hI.inFlight h hf).erase_of_code hc
  outstanding := by
    intro h ho
    simp [(hI.starting hp).2.1] at ho
  progress := by
    intro c' hc'
    simp [(hI.starting hp).1] at hc'
  markers := fun _ _ => .inl hp
  closed := hI.closed
  last := hI.last

omit [DecidableEq H] in
/-- Before `start` has read the markers nothing is in flight. -/
theorem not_inFlight_of_starting (hI : Inv s) (hp : s.phase = .starting) (h : H) : ¬ s.InFlight h := by
  obtain ⟨hcalls, -, hq, hw⟩ := hI.starting hp
  rintro (hq' | ⟨c', hc', -⟩ | ⟨w, hw'⟩)
  · simp [hq] at hq'
  · simp [hcalls] at hc'
  · rcases hw w with hr | he
    · rw [hr] at hw'
      exact List.not_mem_nil hw'
    · rw [he] at hw'
      exact hw'

theorem load (hI : Inv s) {l : List H} (hp : s.phase = .starting) (hl : l.Nodup)
    (hmarkers : l.toFinset = s.db.markers.filter (· ∉ s.db.code)) :
    Inv { s with
      db := { s.db with markers := s.db.markers.filter (· ∉ s.db.code) }
      phase := .loading
      calls := [⟨l, .locking⟩] } := by
  obtain ⟨hcalls, hout, hq, hw⟩ := hI.starting hp
  have hcl : s.closed = false := by
    cases hcl : s.closed
    · rfl
    · simp [(hI.closed hcl).1] at hp
  -- the call of `start` holds nothing yet, so what is in flight is what was: nothing
  have hnone : ∀ h, ¬ (CodeSyncer.InFlight { s with
      db := { s.db with markers := s.db.markers.filter (· ∉ s.db.code) }
      phase := .loading
      calls := [⟨l, .locking⟩] } h) := by
    rintro h (hq' | ⟨c', hc', hs⟩ | hw')
    · exact hI.not_inFlight_of_starting hp h (.inl hq')
    · rw [List.mem_singleton] at hc'
      subst hc'
      exact hs
    · exact hI.not_inFlight_of_starting hp h (.inr (.inr hw'))
  have hmem : ∀ h, h ∈ l ↔ h ∈ s.db.markers ∧ h ∉ s.db.code := fun h => by
    rw [← List.mem_toFinset, hmarkers, Finset.mem_filter]
  refine
    { starting := fun hs => by cases hs
      loading := fun _ => ⟨_, rfl, hl, fun h hh => ⟨?_, ((hmem h).mp hh).2, hnone h⟩⟩
      inFlight := fun h hf => absurd hf (hnone h)
      outstanding := ?_
      progress := ?_
      markers := ?_
      closed := ?_
      last := ?_ }
  · simp [hout]
  · intro h ho
    simp [hout] at ho
  · intro c' hc'
    rw [List.mem_singleton] at hc'
    subst hc'
    trivial
  · intro h hm
    refine .inr (.inr (.inr ⟨rfl, ⟨l, .locking⟩, List.mem_singleton_self _, ?_⟩))
    exact (hmem h).mpr (Finset.mem_filter.mp hm)
  · intro hcl'
    simp [hcl] at hcl'
  · intro w hw'
    exact absurd hw' (hI.not_last hcl w)

omit [DecidableEq H] in
theorem started (hI : Inv s) (hp : s.phase = .loading) (hret : ∀ c ∈ s.calls, c.pc.isReturned) :
    Inv { s with phase := .running } where
  starting hs := by cases hs
  loading hs := by cases hs
  inFlight := hI.inFlight
  outstanding := hI.outstanding
  progress := hI.progress
  markers := by
    intro h hm
    rcases hI.markers h hm with hs | hf | hf | ⟨-, c', hc', hpend⟩
    · simp [hp] at hs
    · exact .inr (.inl hf)
    · exact .inr (.inr (.inl hf))
    · -- a returned call has nothing pending
      have hr := hret c' hc'
      unfold AddCodeCall.Pending at hpend
      split at hpend <;> simp_all [AddCodePc.isReturned]
  closed := by
    intro hcl
    simp [(hI.closed hcl).1] at hp
  last := hI.last

omit [DecidableEq H] in
theorem addCode (hI : Inv s) {l : List H} (hp : s.phase = .running) (hcl : s.closed = false) :
    Inv { s with calls := s.calls ++ [⟨l, .locking⟩] } where
  starting hs := by simp [hp] at hs
  loading hs := by simp [hp] at hs
  inFlight := by
    rintro h (hq | ⟨c', hc', hs⟩ | hw)
    · exact hI.inFlight h (.inl hq)
    · rcases List.mem_append.mp hc' with hc' | hc'
      · exact hI.inFlight h (.inr (.inl ⟨c', hc', hs⟩))
      · rw [List.mem_singleton] at hc'
        subst hc'
        exact hs.elim
    · exact hI.inFlight h (.inr (.inr hw))
  outstanding := by
    intro h ho
    rcases hI.outstanding h ho with hk | ⟨c', hc', hown⟩
    · exact .inl hk
    · exact .inr ⟨c', List.mem_append_left _ hc', hown⟩
  progress := by
    intro c' hc'
    rcases List.mem_append.mp hc' with hc' | hc'
    · exact hI.progress c' hc'
    · rw [List.mem_singleton] at hc'
      subst hc'
      trivial
  markers := by
    intro h hm
    rcases hI.markers h hm with hs | hf | hf | ⟨hs, -⟩
    · exact .inl hs
    · rcases hf with ⟨c', hc', hr⟩ | hw
      · exact .inr (.inl (.inl ⟨c', List.mem_append_left _ hc', hr⟩))
      · exact .inr (.inl (.inr hw))
    · rcases hf with hq | ⟨c', hc', hs⟩ | hw
      · exact .inr (.inr (.inl (.inl hq)))
      · exact .inr (.inr (.inl (.inr (.inl ⟨c', List.mem_append_left _ hc', hs⟩))))
      · exact .inr (.inr (.inl (.inr (.inr hw))))
    · simp [hp] at hs
  closed hcl' := by simp [hcl] at hcl'
  last w hw := absurd hw (hI.not_last hcl w)

omit [DecidableEq H] in
theorem notifyAccountTrieCompleted (hI : Inv s) (hp : s.phase = .running) (hcl : s.closed = false)
    (hret : ∀ c ∈ s.calls, c.pc = .returned true) : Inv { s with closed := true } where
  starting := hI.starting
  loading := hI.loading
  inFlight := hI.inFlight
  outstanding := hI.outstanding
  progress := hI.progress
  markers := hI.markers
  closed _ := ⟨hp, hret⟩
  -- the channel was open, so no worker had found it closed
  last w hw := absurd hw (hI.not_last hcl w)

/-! ### The steps of `addCode` -/

omit [DecidableEq H] in
theorem locked (hI : Inv s) (b : Bool) : Inv { s with locked := b } :=
  ⟨hI.starting, hI.loading, hI.inFlight, hI.outstanding, hI.progress, hI.markers, hI.closed,
    hI.last⟩

omit [DecidableEq H] in
/-- A move of call `i` that changes nothing else keeps the invariant, when the moved call sends
only what it had to send, keeps or fails what it had to send, keeps what it owns, has made
progress, and, while it is `start`'s call, keeps its pending hashes and its fresh ones. -/
theorem setCall {pc : AddCodePc H} (hI : Inv s) (hi : s.calls[i]? = some c)
    (hret : c.pc ≠ .returned true)
    (hsend : ∀ h, pc.Sending h → c.pc.Sending h)
    (hkeep : ∀ h, c.pc.Sending h → pc.Sending h ∨ pc = .returned false)
    (hfail : c.pc = .returned false → pc = .returned false)
    (hown : ∀ h, c.Owns h → AddCodeCall.Owns ⟨c.codeHashes, pc⟩ h)
    (hprog : AddCodeCall.Progress s.Handled ⟨c.codeHashes, pc⟩)
    (hload : s.phase = .loading →
      c.Fresh (fun h => h ∉ s.outstandingCodeHashes ∧ h ∉ s.db.code ∧ ¬ s.InFlight h) →
      (∀ h, c.Pending h → AddCodeCall.Pending ⟨c.codeHashes, pc⟩ h ∨ pc = .returned false) ∧
        AddCodeCall.Fresh (fun h => h ∉ s.outstandingCodeHashes ∧ h ∉ s.db.code ∧ ¬ s.InFlight h)
          ⟨c.codeHashes, pc⟩) :
    Inv (s.setCall i c pc) := by
  have hc : c ∈ s.calls := List.mem_of_getElem? hi
  have hcl : s.closed = false := hI.closed_eq_false hi hret
  -- nothing comes in flight but what call `i` had to send
  have hflight : ∀ h, (s.setCall i c pc).InFlight h → s.InFlight h := fun h hf =>
    (inFlight_setCall_rev hf).elim id fun hs => .inr (.inl ⟨c, hc, hsend h hs⟩)
  -- while loading, call `i` is the only call, and fresh
  have hfresh : s.phase = .loading →
      c.Fresh (fun h => h ∉ s.outstandingCodeHashes ∧ h ∉ s.db.code ∧ ¬ s.InFlight h) := by
    intro hl
    obtain ⟨c₀, hc₀, hfr⟩ := hI.loading hl
    rw [(hI.calls_set_of_loading hl hi pc).1, List.singleton_inj] at hc₀
    exact hc₀ ▸ hfr
  refine
    { starting := fun hs => absurd hs (hI.phase_ne_starting hi)
      loading := ?_
      inFlight := fun h hf => hI.inFlight h (hflight h hf)
      outstanding := ?_
      progress := ?_
      markers := ?_
      closed := fun hcl' => by simp [hcl] at hcl'
      last := fun w hw => absurd hw (hI.not_last hcl w) }
  · intro hl
    refine ⟨_, (hI.calls_set_of_loading hl hi pc).2, ?_⟩
    refine AddCodeCall.Fresh.mono ?_ (hload hl (hfresh hl)).2
    rintro h ⟨ho, hcode, hnf⟩
    exact ⟨ho, hcode, fun hf => hnf (hflight h hf)⟩
  · intro h ho
    rcases hI.outstanding h ho with hk | hown'
    · exact .inl hk
    · exact .inr (exists_calls_set hi (hown h) hown')
  · intro c' hc'
    rcases List.mem_or_eq_of_mem_set hc' with hc' | rfl
    · exact hI.progress c' hc'
    · exact hprog
  · intro h hm
    rcases hI.markers h hm with hs | hf | hf | ⟨hl, hpend⟩
    · exact .inl hs
    · exact .inr (.inl (failed_setCall hi hfail hf))
    · rcases hf with hq | hcs | hw
      · exact .inr (.inr (.inl (.inl hq)))
      · rcases Collections.exists_mem_set_or (b := ⟨c.codeHashes, pc⟩) hi hcs with hcs | hs
        · exact .inr (.inr (.inl (.inr (.inl hcs))))
        · -- what call `i` had to send it still sends, or it failed
          have hmem := List.mem_set (List.getElem?_eq_some_iff.mp hi).1 ⟨c.codeHashes, pc⟩
          rcases hkeep h hs with hs | hr
          · exact .inr (.inr (.inl (.inr (.inl ⟨_, hmem, hs⟩))))
          · exact .inr (.inl (.inl ⟨_, hmem, hr⟩))
      · exact .inr (.inr (.inl (.inr (.inr hw))))
    · rcases Collections.exists_mem_set_or (b := ⟨c.codeHashes, pc⟩) hi hpend with hpend | hpend
      · exact .inr (.inr (.inr ⟨hl, hpend⟩))
      · -- what `start`'s call had pending stays pending, unless it failed
        have hmem := List.mem_set (List.getElem?_eq_some_iff.mp hi).1 ⟨c.codeHashes, pc⟩
        rcases (hload hl (hfresh hl)).1 h hpend with hpend | hr
        · exact .inr (.inr (.inr ⟨hl, _, hmem, hpend⟩))
        · exact .inr (.inl (.inl ⟨_, hmem, hr⟩))

omit [DecidableEq H] in
/-- `c.lock.Lock()`: the loop starts with every hash left to look at. -/
theorem lock (hI : Inv s) {l : List H} (hi : s.calls[i]? = some ⟨l, .locking⟩) :
    Inv { s.setCall i ⟨l, .locking⟩ (.selecting l []) with locked := true } := by
  have hown : ∀ h, AddCodeCall.Owns ⟨l, .locking⟩ h →
      AddCodeCall.Owns ⟨l, .selecting l []⟩ h := by
    rintro h ⟨-, hu | hr⟩
    · cases hu
    · cases hr
  have h₁ : Inv (s.setCall i ⟨l, .locking⟩ (.selecting l [])) :=
    hI.setCall hi (by simp) (fun _ => False.elim) (fun _ => False.elim) (by simp) hown
      ⟨[], rfl, List.nil_subset _, by simp⟩ fun _ hfr => ⟨fun _ hp => .inl (.inl hp), hfr⟩
  exact h₁.locked true

/-- The loop of `addCode` selects `x`, neither outstanding nor stored: `x` becomes outstanding,
owned by the call until its marker is written. -/
theorem select (hI : Inv s) {l rest sel : List H} {x : H}
    (hi : s.calls[i]? = some ⟨l, .selecting (x :: rest) sel⟩)
    (hx : x ∉ s.outstandingCodeHashes ∧ x ∉ s.db.code) :
    Inv { s.setCall i ⟨l, .selecting (x :: rest) sel⟩ (.selecting rest (sel ++ [x])) with
      outstandingCodeHashes := insert x s.outstandingCodeHashes } := by
  have hc := List.mem_of_getElem? hi
  have hcl : s.closed = false := hI.closed_eq_false hi (by simp)
  have hmem := List.mem_set (List.getElem?_eq_some_iff.mp hi).1
    (⟨l, .selecting rest (sel ++ [x])⟩ : AddCodeCall H)
  obtain ⟨done, hdone, hsel, hP⟩ := hI.progress _ hc
  dsimp only at hdone
  -- the call sends nothing, before or after
  have hflight : ∀ h, (s.setCall i ⟨l, .selecting (x :: rest) sel⟩
      (.selecting rest (sel ++ [x]))).InFlight h ↔ s.InFlight h := fun h =>
    ⟨fun hf => (inFlight_setCall_rev hf).elim id False.elim, inFlight_setCall hi False.elim⟩
  have hhandled : ∀ h, s.Handled h → Known s.db h ∨ h ∈ insert x s.outstandingCodeHashes :=
    fun h hh => hh.imp_right Finset.mem_insert_of_mem
  refine
    { starting := fun hs => absurd hs (hI.phase_ne_starting hi)
      loading := ?_
      inFlight := fun h hf => hI.inFlight h ((hflight h).mp hf)
      outstanding := ?_
      progress := ?_
      markers := ?_
      closed := fun hcl' => by simp [hcl] at hcl'
      last := fun w hw => absurd hw (hI.not_last hcl w) }
  · -- `start`'s call has distinct hashes, so those left are not `x`
    intro hl
    obtain ⟨c₀, hc₀, hfr⟩ := hI.loading hl
    rw [(hI.calls_set_of_loading hl hi (.selecting rest (sel ++ [x]))).1,
      List.singleton_inj] at hc₀
    subst hc₀
    obtain ⟨hnd, hfr⟩ := hfr
    rw [List.nodup_cons] at hnd
    refine ⟨_, (hI.calls_set_of_loading hl hi (.selecting rest (sel ++ [x]))).2, hnd.2,
      fun h hh => ?_⟩
    obtain ⟨ho, hcode, hnf⟩ := hfr h (List.mem_cons_of_mem _ hh)
    have hne : h ≠ x := fun he => hnd.1 (he ▸ hh)
    exact ⟨by simp [hne, ho], hcode, fun hf => hnf ((hflight h).mp hf)⟩
  · intro h ho
    rcases Finset.mem_insert.mp ho with rfl | ho
    · exact .inr ⟨_, hmem, by simp [hdone], .inl (List.mem_append_right _ (List.mem_singleton_self _))⟩
    · rcases hI.outstanding h ho with hk | hown
      · exact .inl hk
      · refine .inr (exists_calls_set hi ?_ hown)
        rintro ⟨hh, hu | hr⟩
        · exact ⟨hh, .inl (List.mem_append_left _ hu)⟩
        · cases hr
  · intro c' hc'
    rcases List.mem_or_eq_of_mem_set hc' with hc' | rfl
    · exact (hI.progress c' hc').mono hhandled
    · refine ⟨done ++ [x], by simp [hdone], ?_, fun h hh => ?_⟩
      · exact List.append_subset.mpr
          ⟨List.Subset.trans hsel (List.subset_append_left _ _), List.subset_append_right _ _⟩
      · rcases List.mem_append.mp hh with hh | hh
        · exact hhandled h (hP h hh)
        · exact .inr (by simp [List.mem_singleton.mp hh])
  · intro h hm
    rcases hI.markers h hm with hs | hf | hf | ⟨hl, hpend⟩
    · exact .inl hs
    · exact .inr (.inl (failed_setCall hi (fun hr => by cases hr) hf))
    · exact .inr (.inr (.inl ((hflight h).mpr hf)))
    · refine .inr (.inr (.inr ⟨hl, exists_calls_set hi ?_ hpend⟩))
      -- `x` moves from the hashes left to the selected ones
      rintro (hh | hh)
      · rcases List.mem_cons.mp hh with rfl | hh
        · exact .inr (List.mem_append_right _ (List.mem_singleton_self _))
        · exact .inl hh
      · exact .inr (List.mem_append_left _ hh)

omit [DecidableEq H] in
/-- The loop of `addCode` skips `x`, outstanding or stored already. -/
theorem skip (hI : Inv s) {l rest sel : List H} {x : H}
    (hi : s.calls[i]? = some ⟨l, .selecting (x :: rest) sel⟩)
    (hx : ¬ (x ∉ s.outstandingCodeHashes ∧ x ∉ s.db.code)) :
    Inv (s.setCall i ⟨l, .selecting (x :: rest) sel⟩ (.selecting rest sel)) := by
  have hhandled : s.Handled x := by
    by_cases ho : x ∈ s.outstandingCodeHashes
    · exact .inr ho
    · exact .inl (.inr (by tauto))
  obtain ⟨done, hdone, hsel, hP⟩ := hI.progress _ (List.mem_of_getElem? hi)
  dsimp only at hdone
  have hown : ∀ h, AddCodeCall.Owns ⟨l, .selecting (x :: rest) sel⟩ h →
      AddCodeCall.Owns ⟨l, .selecting rest sel⟩ h := by
    rintro h ⟨hh, hu | hr⟩
    · exact ⟨hh, .inl hu⟩
    · cases hr
  refine hI.setCall hi (by simp) (fun _ => False.elim) (fun _ => False.elim) (by simp)
    hown ⟨done ++ [x], by simp [hdone],
      List.Subset.trans hsel (List.subset_append_left _ _), fun h hh => ?_⟩ ?_
  · rcases List.mem_append.mp hh with hh | hh
    · exact hP h hh
    · rw [List.mem_singleton.mp hh]
      exact hhandled
  · -- `start`'s call selects every hash it looks at
    intro _ hfr
    obtain ⟨-, hfr⟩ := hfr
    obtain ⟨ho, hcode, -⟩ := hfr x List.mem_cons_self
    exact absurd ⟨ho, hcode⟩ hx

omit [DecidableEq H] in
/-- The loop of `addCode` ends and releases the lock. -/
theorem unlock (hI : Inv s) {l sel : List H} (hi : s.calls[i]? = some ⟨l, .selecting [] sel⟩) :
    Inv { s.setCall i ⟨l, .selecting [] sel⟩ (.writing sel) with locked := false } := by
  obtain ⟨done, hdone, hsel, hP⟩ := hI.progress _ (List.mem_of_getElem? hi)
  dsimp only at hdone
  rw [List.append_nil] at hdone
  subst hdone
  have hown : ∀ h, AddCodeCall.Owns ⟨l, .selecting [] sel⟩ h →
      AddCodeCall.Owns ⟨l, .writing sel⟩ h := by
    rintro h ⟨hh, hu | hr⟩
    · exact ⟨hh, .inl hu⟩
    · cases hr
  have h₁ : Inv (s.setCall i ⟨l, .selecting [] sel⟩ (.writing sel)) :=
    hI.setCall hi (by simp) (fun _ => False.elim) (fun _ => False.elim) (by simp)
      hown ⟨hsel, hP⟩
      fun _ _ => ⟨fun _ hp => .inl (hp.resolve_left List.not_mem_nil), trivial⟩
  exact h₁.locked false

/-- `batch.Write()` of `addCode`: the selected hashes get their markers, and the call has them to
send. -/
theorem writeMarkers (hI : Inv s) {l sel : List H} (hi : s.calls[i]? = some ⟨l, .writing sel⟩) :
    Inv { s.setCall i ⟨l, .writing sel⟩ (.queueing sel) with
      db := write s.db (markerBatch sel) } := by
  have hc := List.mem_of_getElem? hi
  have hcl : s.closed = false := hI.closed_eq_false hi (by simp)
  have hmem := List.mem_set (List.getElem?_eq_some_iff.mp hi).1
    (⟨l, .queueing sel⟩ : AddCodeCall H)
  have hknown : ∀ h, Known s.db h → Known (write s.db (markerBatch sel)) h :=
    fun h hk => hk.write_markerBatch sel
  have hmarked : ∀ h ∈ sel, Known (write s.db (markerBatch sel)) h := fun h hh =>
    .inl (by rw [write_markerBatch]; exact Finset.mem_union_right _ (List.mem_toFinset.mpr hh))
  refine
    { starting := fun hs => absurd hs (hI.phase_ne_starting hi)
      loading := fun hl => ⟨_, (hI.calls_set_of_loading hl hi (.queueing sel)).2, trivial⟩
      inFlight := ?_
      outstanding := ?_
      progress := ?_
      markers := ?_
      closed := fun hcl' => by simp [hcl] at hcl'
      last := fun w hw => absurd hw (hI.not_last hcl w) }
  · intro h hf
    have hf : (s.setCall i ⟨l, .writing sel⟩ (.queueing sel)).InFlight h := hf
    rcases inFlight_setCall_rev hf with hf | hs
    · exact hknown h (hI.inFlight h hf)
    · exact hmarked h hs
  · intro h ho
    rcases hI.outstanding h ho with hk | hown
    · exact .inl (hknown h hk)
    · rcases Collections.exists_mem_set_or (b := ⟨l, .queueing sel⟩) hi hown with
        hown | ⟨-, hu | hr⟩
      · exact .inr hown
      · exact .inl (hmarked h hu)
      · cases hr
  · intro c' hc'
    rcases List.mem_or_eq_of_mem_set hc' with hc' | rfl
    · exact (hI.progress c' hc').mono fun h hh => hh.imp_left (hknown h)
    · obtain ⟨-, hP⟩ := hI.progress _ hc
      exact fun h hh => (hP h hh).imp_left (hknown h)
  · intro h hm
    change h ∈ (write s.db (markerBatch sel)).markers at hm
    rw [write_markerBatch, Finset.mem_union, List.mem_toFinset] at hm
    rcases hm with hm | hsel
    · rcases hI.markers h hm with hs | hf | hf | ⟨hl, hpend⟩
      · exact .inl hs
      · exact .inr (.inl (failed_setCall hi (fun hr => by cases hr) hf))
      · exact .inr (.inr (.inl (inFlight_setCall hi False.elim hf)))
      · rcases Collections.exists_mem_set_or (b := ⟨l, .queueing sel⟩) hi hpend with
          hpend | hpend
        · exact .inr (.inr (.inr ⟨hl, hpend⟩))
        · -- a pending hash of `start`'s call is one it selected, which it now sends
          exact .inr (.inr (.inl (.inr (.inl ⟨_, hmem, hpend⟩))))
    · exact .inr (.inr (.inl (.inr (.inl ⟨_, hmem, hsel⟩))))

omit [DecidableEq H] in
/-- `addHashesToQueue` sends `x` on the channel. -/
theorem send (hI : Inv s) {l rest : List H} {x : H}
    (hi : s.calls[i]? = some ⟨l, .queueing (x :: rest)⟩) :
    Inv { s.setCall i ⟨l, .queueing (x :: rest)⟩ (.queueing rest) with
      codeHashes := s.codeHashes ++ [x] } := by
  have hc := List.mem_of_getElem? hi
  have hcl : s.closed = false := hI.closed_eq_false hi (by simp)
  have hmem := List.mem_set (List.getElem?_eq_some_iff.mp hi).1
    (⟨l, .queueing rest⟩ : AddCodeCall H)
  refine
    { starting := fun hs => absurd hs (hI.phase_ne_starting hi)
      loading := fun hl => ⟨_, (hI.calls_set_of_loading hl hi (.queueing rest)).2, trivial⟩
      inFlight := ?_
      outstanding := ?_
      progress := ?_
      markers := ?_
      closed := fun hcl' => by simp [hcl] at hcl'
      last := fun w hw => absurd hw (hI.not_last hcl w) }
  · -- `x` was in flight in the call before it was in the channel
    rintro h (hq | ⟨c', hc', hs⟩ | hw)
    · rcases List.mem_append.mp hq with hq | hq
      · exact hI.inFlight h (.inl hq)
      · rw [List.mem_singleton.mp hq]
        exact hI.inFlight x (.inr (.inl ⟨_, hc, List.mem_cons_self⟩))
    · rcases List.mem_or_eq_of_mem_set hc' with hc' | rfl
      · exact hI.inFlight h (.inr (.inl ⟨c', hc', hs⟩))
      · exact hI.inFlight h (.inr (.inl ⟨_, hc, List.mem_cons_of_mem _ hs⟩))
    · exact hI.inFlight h (.inr (.inr hw))
  · intro h ho
    rcases hI.outstanding h ho with hk | hown
    · exact .inl hk
    · refine .inr (exists_calls_set hi ?_ hown)
      rintro ⟨-, hu | hr⟩
      · cases hu
      · cases hr
  · intro c' hc'
    rcases List.mem_or_eq_of_mem_set hc' with hc' | rfl
    · exact hI.progress c' hc'
    · exact hI.progress ⟨l, .queueing (x :: rest)⟩ hc
  · intro h hm
    rcases hI.markers h hm with hs | hf | hf | ⟨hl, hpend⟩
    · exact .inl hs
    · exact .inr (.inl (failed_setCall hi (fun hr => by cases hr) hf))
    · refine .inr (.inr (.inl ?_))
      rcases hf with hq | hcs | hw
      · exact .inl (List.mem_append_left _ hq)
      · rcases Collections.exists_mem_set_or (b := ⟨l, .queueing rest⟩) hi hcs with hcs | hs
        · exact .inr (.inl hcs)
        · rcases List.mem_cons.mp hs with rfl | hs
          · exact .inl (List.mem_append_right _ (List.mem_singleton_self _))
          · exact .inr (.inl ⟨_, hmem, hs⟩)
      · exact .inr (.inr hw)
    · refine .inr (.inr (.inr ⟨hl, exists_calls_set hi ?_ hpend⟩))
      exact False.elim

omit [DecidableEq H] in
/-- `addCode` returns `nil`, everything it looked at handled. -/
theorem returnNil (hI : Inv s) {l : List H} (hi : s.calls[i]? = some ⟨l, .queueing []⟩) :
    Inv (s.setCall i ⟨l, .queueing []⟩ (.returned true)) := by
  have hown : ∀ h, AddCodeCall.Owns ⟨l, .queueing []⟩ h →
      AddCodeCall.Owns ⟨l, .returned true⟩ h := by
    rintro h ⟨-, hu | hr⟩
    · cases hu
    · cases hr
  exact hI.setCall hi (by simp) (fun _ => False.elim) (fun _ hs => absurd hs List.not_mem_nil)
    (by simp) hown (fun _ => hI.progress _ (List.mem_of_getElem? hi))
    fun _ _ => ⟨fun _ => False.elim, trivial⟩

omit [DecidableEq H] in
/-- `addCode` returns its error: it keeps what it owned and fails what it had to send. -/
theorem callFail (hI : Inv s) (hi : s.calls[i]? = some c) (hret : c.pc ≠ .returned true) :
    Inv (s.setCall i c (.returned false)) :=
  hI.setCall hi hret (fun _ => False.elim) (fun _ _ => .inr rfl) (fun _ => rfl)
    (fun _ hown => ⟨hown.1, .inr rfl⟩) (fun hf => by cases hf)
    fun _ _ => ⟨fun _ _ => .inr rfl, trivial⟩

/-! ### The steps of the workers -/

variable {w : Fin n}

omit [DecidableEq H] in
/-- A worker reads `x` from the channel into its request, whether it then waits for more or
fetches. -/
theorem recv (hI : Inv s) {p q : List H} {x : H} (hw : s.workers w = .reading p)
    (hq : s.codeHashes = x :: q) {y : Worker H} (hy : ∀ h, y.Holds h ↔ h ∈ p ++ [x])
    (hlast : ¬ y.Last) :
    Inv { s.setWorker w y with codeHashes := q } := by
  -- `x` moves from the channel to the worker, and nothing else moves
  have hfrom : ∀ h, CodeSyncer.InFlight { s.setWorker w y with codeHashes := q } h →
      s.InFlight h := by
    rintro h (hq' | hc | hw')
    · exact .inl (hq ▸ List.mem_cons_of_mem _ hq')
    · exact .inr (.inl hc)
    · rcases exists_setWorker_rev (P := fun x => x.Holds h) hw' with hw' | hy'
      · exact .inr (.inr hw')
      · rcases List.mem_append.mp ((hy h).mp hy') with hp | hx
        · exact .inr (.inr ⟨w, by rw [hw]; exact hp⟩)
        · exact .inl (hq ▸ List.mem_singleton.mp hx ▸ List.mem_cons_self)
  have hto : ∀ h, s.InFlight h →
      CodeSyncer.InFlight { s.setWorker w y with codeHashes := q } h := by
    rintro h (hq' | hc | hw')
    · rw [hq] at hq'
      rcases List.mem_cons.mp hq' with rfl | hq'
      · exact .inr (.inr ⟨w, by rw [setWorker_workers, Function.update_self]; simp [hy]⟩)
      · exact .inl hq'
    · exact .inr (.inl hc)
    · refine .inr (.inr (exists_setWorker (P := fun x => x.Holds h) ?_ hw'))
      intro hh
      rw [hw] at hh
      exact (hy h).mpr (List.mem_append_left _ hh)
  refine
    { starting := fun hs => by simp [(hI.starting hs).2.2.1] at hq
      loading := ?_
      inFlight := fun h hf => hI.inFlight h (hfrom h hf)
      outstanding := hI.outstanding
      progress := hI.progress
      markers := ?_
      closed := hI.closed
      last := ?_ }
  · intro hl
    obtain ⟨c, hc, hfr⟩ := hI.loading hl
    refine ⟨c, hc, hfr.mono ?_⟩
    rintro h ⟨ho, hcode, hnf⟩
    exact ⟨ho, hcode, fun hf => hnf (hfrom h hf)⟩
  · intro h hm
    rcases hI.markers h hm with hs | hf | hf | hpend
    · exact .inl hs
    · refine .inr (.inl (failed_setWorker ?_ hf))
      intro he
      rw [hw] at he
      cases he
    · exact .inr (.inr (.inl (hto h hf)))
    · exact .inr (.inr (.inr hpend))
  · -- the worker found the channel open, and a worker that found it closed found it empty
    intro w' hw'
    by_cases hww : w' = w
    · subst hww
      rw [setWorker_workers, Function.update_self] at hw'
      exact absurd hw' hlast
    · rw [setWorker_workers, Function.update_of_ne hww] at hw'
      simp [(hI.last w' hw').2] at hq

omit [DecidableEq H] in
/-- A worker finds the channel closed and empty: it returns, or fetches what it has read. -/
theorem recvClosed (hI : Inv s) {p : List H} (hw : s.workers w = .reading p)
    (hq : s.codeHashes = []) (hcl : s.closed = true) {y : Worker H}
    (hy : ∀ h, y.Holds h ↔ h ∈ p) : Inv (s.setWorker w y) := by
  have hrun : s.phase = .running := (hI.closed hcl).1
  have hholds : ∀ h, (s.workers w).Holds h ↔ y.Holds h := fun h => by rw [hw, hy]; rfl
  refine
    { starting := fun hs => by simp [hrun] at hs
      loading := fun hl => by simp [hrun] at hl
      inFlight := fun h hf => hI.inFlight h ((inFlight_setWorker_rev hf).elim id fun hy' =>
        .inr (.inr ⟨w, (hholds h).mpr hy'⟩))
      outstanding := hI.outstanding
      progress := hI.progress
      markers := ?_
      closed := hI.closed
      last := ?_ }
  · intro h hm
    rcases hI.markers h hm with hs | hf | hf | hpend
    · exact .inl hs
    · refine .inr (.inl (failed_setWorker ?_ hf))
      intro he
      rw [hw] at he
      cases he
    · exact .inr (.inr (.inl (inFlight_setWorker (hholds h).mp hf)))
    · exact .inr (.inr (.inr hpend))
  · intro w' hw'
    by_cases hww : w' = w
    · exact ⟨hcl, hq⟩
    · rw [setWorker_workers, Function.update_of_ne hww] at hw'
      exact hI.last w' hw'

/-- `fulfillCodeRequest` takes the lock and removes the request from `outstandingCodeHashes`;
what it removes is held by the worker, so it is known. -/
theorem fulfill (hI : Inv s) {p : List H} {last : Bool} (hw : s.workers w = .fetching p last) :
    Inv { s.setWorker w (.writing p last) with
      outstandingCodeHashes := s.outstandingCodeHashes \ p.toFinset } := by
  have hholds : ∀ h, (s.workers w).Holds h ↔ (Worker.writing p last).Holds h := fun h => by
    rw [hw]
    rfl
  have hfrom : ∀ h, (s.setWorker w (.writing p last)).InFlight h → s.InFlight h := fun h hf =>
    (inFlight_setWorker_rev hf).elim id fun hy' => .inr (.inr ⟨w, (hholds h).mpr hy'⟩)
  refine
    { starting := ?_
      loading := ?_
      inFlight := fun h hf => hI.inFlight h (hfrom h hf)
      outstanding := fun h ho => hI.outstanding h (Finset.mem_sdiff.mp ho).1
      progress := ?_
      markers := ?_
      closed := hI.closed
      last := ?_ }
  · intro hs
    rcases (hI.starting hs).2.2.2 w with he | he <;> rw [hw] at he <;> cases he
  · intro hl
    obtain ⟨c, hc, hfr⟩ := hI.loading hl
    refine ⟨c, hc, hfr.mono ?_⟩
    rintro h ⟨ho, hcode, hnf⟩
    exact ⟨fun ho' => ho (Finset.mem_sdiff.mp ho').1, hcode, fun hf => hnf (hfrom h hf)⟩
  · -- a hash of the request is held by the worker, so known
    intro c hc
    refine (hI.progress c hc).mono fun h hh => ?_
    rcases hh with hk | ho
    · exact .inl hk
    · by_cases hp : h ∈ p
      · exact .inl (hI.inFlight h (.inr (.inr ⟨w, by rw [hw]; exact hp⟩)))
      · exact .inr (Finset.mem_sdiff.mpr ⟨ho, by simpa using hp⟩)
  · intro h hm
    rcases hI.markers h hm with hs | hf | hf | hpend
    · exact .inl hs
    · refine .inr (.inl (failed_setWorker ?_ hf))
      intro he
      rw [hw] at he
      cases he
    · exact .inr (.inr (.inl (inFlight_setWorker (hholds h).mp hf)))
    · exact .inr (.inr (.inr hpend))
  · intro w' hw'
    by_cases hww : w' = w
    · subst hww
      rw [setWorker_workers, Function.update_self] at hw'
      exact hI.last w' (by rw [hw]; exact hw')
    · rw [setWorker_workers, Function.update_of_ne hww] at hw'
      exact hI.last w' hw'

/-- `batch.Write()` of `fulfillCodeRequest`: the request's code is stored and its markers deleted;
the worker returns if the channel was closed, and reads again if not. -/
theorem writeCode (hI : Inv s) {p : List H} {last : Bool} (hw : s.workers w = .writing p last) :
    Inv { s.setWorker w (if last then .exited true else .reading []) with
      db := write s.db (codeBatch p) } := by
  have hnone : ∀ h, ¬ (if last then Worker.exited true else .reading ([] : List H)).Holds h := by
    intro h
    split <;> simp [Worker.Holds]
  have hheld : ∀ h ∈ p, s.InFlight h := fun h hp => .inr (.inr ⟨w, by rw [hw]; exact hp⟩)
  have hfrom : ∀ h, (s.setWorker w (if last then .exited true else .reading [])).InFlight h →
      s.InFlight h := fun h hf => (inFlight_setWorker_rev hf).resolve_right (hnone h)
  have hknown : ∀ h, Known s.db h → Known (write s.db (codeBatch p)) h :=
    fun h hk => hk.write_codeBatch p
  refine
    { starting := ?_
      loading := ?_
      inFlight := fun h hf => hknown h (hI.inFlight h (hfrom h hf))
      outstanding := fun h ho => (hI.outstanding h ho).imp_left (hknown h)
      progress := fun c hc => (hI.progress c hc).mono fun h hh => hh.imp_left (hknown h)
      markers := ?_
      closed := hI.closed
      last := ?_ }
  · intro hs
    rcases (hI.starting hs).2.2.2 w with he | he <;> rw [hw] at he <;> cases he
  · -- what `start`'s call has left is in flight nowhere, so not in the request
    intro hl
    obtain ⟨c, hc, hfr⟩ := hI.loading hl
    refine ⟨c, hc, hfr.mono ?_⟩
    rintro h ⟨ho, hcode, hnf⟩
    refine ⟨ho, ?_, fun hf => hnf (hfrom h hf)⟩
    change h ∉ (write s.db (codeBatch p)).code
    rw [write_codeBatch, Finset.mem_union, List.mem_toFinset]
    exact fun hc' => hc'.elim hcode fun hp => hnf (hheld h hp)
  · -- a marker left is not one of the request's, so it was in flight elsewhere
    intro h hm
    change h ∈ (write s.db (codeBatch p)).markers at hm
    rw [write_codeBatch, Finset.mem_sdiff, List.mem_toFinset] at hm
    rcases hI.markers h hm.1 with hs | hf | hf | hpend
    · exact .inl hs
    · refine .inr (.inl (failed_setWorker ?_ hf))
      intro he
      rw [hw] at he
      cases he
    · refine .inr (.inr (.inl (inFlight_setWorker ?_ hf)))
      intro hh
      rw [hw] at hh
      exact absurd hh hm.2
    · exact .inr (.inr (.inr hpend))
  · intro w' hw'
    by_cases hww : w' = w
    · subst hww
      rw [setWorker_workers, Function.update_self] at hw'
      cases last
      · exact hw'.elim
      · exact hI.last w' (by rw [hw]; rfl)
    · rw [setWorker_workers, Function.update_of_ne hww] at hw'
      exact hI.last w' hw'

omit [DecidableEq H] in
/-- A worker returns its error. -/
theorem workerFail (hI : Inv s) (w : Fin n) : Inv (s.setWorker w (.exited false)) := by
  have hfrom : ∀ h, (s.setWorker w (.exited false)).InFlight h → s.InFlight h := fun h hf =>
    (inFlight_setWorker_rev hf).resolve_right id
  refine
    { starting := ?_
      loading := ?_
      inFlight := fun h hf => hI.inFlight h (hfrom h hf)
      outstanding := hI.outstanding
      progress := hI.progress
      markers := fun _ _ => .inr (.inl (.inr ⟨w, by simp⟩))
      closed := hI.closed
      last := ?_ }
  · intro hs
    obtain ⟨hcalls, ho, hq, hws⟩ := hI.starting hs
    refine ⟨hcalls, ho, hq, fun w' => ?_⟩
    by_cases hww : w' = w
    · subst hww
      exact .inr (by simp)
    · rw [setWorker_workers, Function.update_of_ne hww]
      exact hws w'
  · intro hl
    obtain ⟨c, hc, hfr⟩ := hI.loading hl
    refine ⟨c, hc, hfr.mono ?_⟩
    rintro h ⟨ho, hcode, hnf⟩
    exact ⟨ho, hcode, fun hf => hnf (hfrom h hf)⟩
  · intro w' hw'
    by_cases hww : w' = w
    · subst hww
      rw [setWorker_workers, Function.update_self] at hw'
      cases hw'
    · rw [setWorker_workers, Function.update_of_ne hww] at hw'
      exact hI.last w' hw'

/-! ### Every step -/

/-- Every step of a call of `addCode` keeps the invariant. -/
theorem callStep (hI : Inv s) {s' : CodeSyncer H n} (hi : s.calls[i]? = some c)
    (hs : s.callStep i c = some s') : Inv s' := by
  rcases c with ⟨l, pc⟩
  cases pc with
  | locking =>
    simp only [CodeSyncer.callStep] at hs
    split at hs
    · cases hs
    · cases hs
      exact hI.lock hi
  | selecting rest sel =>
    cases rest with
    | nil =>
      cases hs
      exact hI.unlock hi
    | cons x rest =>
      simp only [CodeSyncer.callStep] at hs
      split at hs
      · next hx =>
        cases hs
        exact hI.select hi hx
      · next hx =>
        cases hs
        exact hI.skip hi hx
  | writing sel =>
    cases hs
    exact hI.writeMarkers hi
  | queueing rest =>
    cases rest with
    | nil =>
      cases hs
      exact hI.returnNil hi
    | cons x rest =>
      cases hs
      exact hI.send hi
  | returned ok => cases hs

/-- Every step of a worker keeps the invariant. -/
theorem workerStep (hI : Inv s) {m : ℕ} {s' : CodeSyncer H n}
    (hs : s.workerStep m w (s.workers w) = some s') : Inv s' := by
  generalize hw : s.workers w = x at hs
  cases x with
  | reading p =>
    simp only [CodeSyncer.workerStep] at hs
    split at hs
    · next x q hq =>
      cases hs
      refine hI.recv hw hq (fun h => ?_) ?_
      · split <;> exact Iff.rfl
      · split <;> simp [Worker.Last]
    · next hq =>
      split at hs
      · next hcl =>
        cases hs
        refine hI.recvClosed hw hq hcl fun h => ?_
        split
        · next hp => simp [Worker.Holds, hp]
        · exact Iff.rfl
      · cases hs
  | fetching p last =>
    simp only [CodeSyncer.workerStep] at hs
    split at hs
    · cases hs
    · cases hs
      exact hI.fulfill hw
  | writing p last =>
    cases hs
    exact hI.writeCode hw
  | exited ok => cases hs

/-- Every event keeps the invariant. -/
theorem step (hI : Inv s) {m : ℕ} {e : Event H n} {s' : CodeSyncer H n}
    (hs : s.step m e = some s') : Inv s' := by
  cases e with
  | cleanup h =>
    simp only [CodeSyncer.step] at hs
    split at hs
    · next hc =>
      cases hs
      exact hI.cleanup hc.1 hc.2.2
    · cases hs
  | load l =>
    simp only [CodeSyncer.step] at hs
    split at hs
    · next hc =>
      cases hs
      exact hI.load hc.1 hc.2.1 hc.2.2
    · cases hs
  | started =>
    simp only [CodeSyncer.step] at hs
    split at hs
    · next hc =>
      cases hs
      exact hI.started hc.1 fun c hc' => List.all_eq_true.mp hc.2 c hc'
    · cases hs
  | addCode l =>
    simp only [CodeSyncer.step] at hs
    split at hs
    · next hc =>
      cases hs
      exact hI.addCode hc.1 hc.2
    · cases hs
  | notifyAccountTrieCompleted =>
    simp only [CodeSyncer.step] at hs
    split at hs
    · next hc =>
      cases hs
      exact hI.notifyAccountTrieCompleted hc.1 hc.2.1 fun c hc' =>
        of_decide_eq_true (List.all_eq_true.mp hc.2.2 c hc')
    · cases hs
  | cancel =>
    cases hs
    exact hI.cancel
  | call i =>
    simp only [CodeSyncer.step] at hs
    split at hs
    · next c hi => exact hI.callStep hi hs
    · cases hs
  | callFail i =>
    -- a call fails from its batch write, or from a send when the context is done
    simp only [CodeSyncer.step] at hs
    split at hs
    · next c hi =>
      split at hs
      · next sel hpc =>
        cases hs
        exact hI.callFail hi (by simp [hpc])
      · next x rest hpc =>
        split at hs
        · cases hs
          exact hI.callFail hi (by simp [hpc])
        · cases hs
      · cases hs
    · cases hs
  | worker w => exact hI.workerStep hs
  | workerFail w =>
    simp only [CodeSyncer.step] at hs
    split at hs
    · split at hs
      · cases hs
        exact hI.workerFail w
      · cases hs
    · cases hs
      exact hI.workerFail w
    · cases hs
      exact hI.workerFail w
    · cases hs

/-- The invariant holds after any schedule that can run. -/
theorem run (hI : Inv s) {m : ℕ} {es : List (Event H n)} {s' : CodeSyncer H n}
    (hrun : s.run m es = some s') : Inv s' := by
  induction es generalizing s with
  | nil =>
    cases hrun
    exact hI
  | cons e es ih =>
    obtain ⟨s₁, hs₁, hrun⟩ := Option.bind_eq_some_iff.mp hrun
    exact ih (hI.step hs₁) hrun

/-- In any state of a run, a hash passed to `addCode` is known to the database, unless a call
that has not returned `nil` was passed it: a call that returned `nil` left each of its hashes
known or outstanding, and an outstanding hash is known unless its call has not written its
marker. -/
theorem known_or_cut (hI : Inv s) {h : H} (hh : h ∈ passed s) : Known s.db h ∨ h ∈ cut s := by
  obtain ⟨c, hc, hch⟩ := mem_passed.mp hh
  by_cases hret : c.pc = .returned true
  · rcases (hI.progress c hc).of_returned hret h hch with hk | ho
    · exact .inl hk
    · rcases hI.outstanding h ho with hk | ⟨c', hc', hown⟩
      · exact .inl hk
      · exact .inr (mem_cut.mpr ⟨c', hc', hown.pc_ne, hown.1⟩)
  · exact .inr (mem_cut.mpr ⟨c, hc, hret, hch⟩)

/-- When every worker of a run, and at least one, has returned `nil`, the channel was closed and
drained: every call returned `nil`, so nothing is outstanding or in flight and no marker is left,
and every hash passed to `addCode` has its code. -/
theorem code_of_done (hI : Inv s) (hn : 0 < n) (hdone : ∀ w, s.workers w = .exited true) :
    (∀ h ∈ passed s, h ∈ s.db.code) ∧ s.db.markers = ∅ := by
  obtain ⟨hcl, hq⟩ := hI.last ⟨0, hn⟩ (by rw [hdone]; rfl)
  obtain ⟨hrun, hret⟩ := hI.closed hcl
  have hnf : ¬ s.Failed := by
    rintro (⟨c, hc, hr⟩ | ⟨w, hw⟩)
    · rw [hret c hc] at hr
      cases hr
    · rw [hdone w] at hw
      cases hw
  have hnif : ∀ h, ¬ s.InFlight h := by
    rintro h (hq' | ⟨c, hc, hs⟩ | ⟨w, hw⟩)
    · rw [hq] at hq'
      exact List.not_mem_nil hq'
    · rw [hret c hc] at hs
      exact hs
    · rw [hdone w] at hw
      exact hw
  have hmarkers : s.db.markers = ∅ := by
    refine Finset.eq_empty_of_forall_notMem fun h hm => ?_
    rcases hI.markers h hm with hs | hf | hf | ⟨hl, -⟩
    · rw [hrun] at hs
      cases hs
    · exact hnf hf
    · exact hnif h hf
    · rw [hrun] at hl
      cases hl
  refine ⟨fun h hh => ?_, hmarkers⟩
  rcases hI.known_or_cut hh with (hm | hc) | hcut
  · simp [hmarkers] at hm
  · exact hc
  · obtain ⟨c, hc, hne, -⟩ := mem_cut.mp hcut
    exact absurd (hret c hc) hne

end Inv

/-! ## Runs and interruptions -/

namespace CodeSyncer

variable {s s' : CodeSyncer H n} {m : ℕ} {h : H}

/-- A call of `addCode` changes the database only by writing its markers. -/
theorem known_callStep {i : ℕ} {c : AddCodeCall H} (hs : s.callStep i c = some s')
    (hk : Known s.db h) : Known s'.db h := by
  rcases c with ⟨l, pc⟩
  cases pc with
  | writing sel =>
    cases hs
    exact hk.write_markerBatch sel
  | locking =>
    simp only [CodeSyncer.callStep] at hs
    split at hs
    · cases hs
    · cases hs
      exact hk
  | selecting rest sel =>
    cases rest with
    | nil =>
      cases hs
      exact hk
    | cons x rest =>
      simp only [CodeSyncer.callStep] at hs
      split at hs
      · cases hs
        exact hk
      · cases hs
        exact hk
  | queueing rest =>
    cases rest with
    | nil =>
      cases hs
      exact hk
    | cons x rest =>
      cases hs
      exact hk
  | returned ok => cases hs

/-- A worker changes the database only by writing the code of its request. -/
theorem known_workerStep {w : Fin n} {x : Worker H} (hs : s.workerStep m w x = some s')
    (hk : Known s.db h) : Known s'.db h := by
  cases x with
  | writing p last =>
    cases hs
    exact hk.write_codeBatch p
  | reading p =>
    simp only [CodeSyncer.workerStep] at hs
    split at hs
    · cases hs
      exact hk
    · split at hs
      · cases hs
        exact hk
      · cases hs
  | fetching p last =>
    simp only [CodeSyncer.workerStep] at hs
    split at hs
    · cases hs
    · cases hs
      exact hk
  | exited ok => cases hs

/-- A hash with a marker or its code keeps one or the other: `start` deletes only the markers of
stored code, and the batches add markers, or delete a marker with the code written. -/
theorem known_step {e : Event H n} (hs : s.step m e = some s') (hk : Known s.db h) :
    Known s'.db h := by
  cases e with
  | cleanup h' =>
    simp only [CodeSyncer.step] at hs
    split at hs
    · next hc =>
      cases hs
      exact hk.erase_of_code hc.2.2
    · cases hs
  | load l =>
    simp only [CodeSyncer.step] at hs
    split at hs
    · cases hs
      exact hk.filter_code
    · cases hs
  | call i =>
    simp only [CodeSyncer.step] at hs
    split at hs
    · exact known_callStep hs hk
    · cases hs
  | worker w => exact known_workerStep hs hk
  | started | addCode _ | notifyAccountTrieCompleted | cancel | callFail _ | workerFail _ =>
    -- the other events leave the database alone
    simp only [CodeSyncer.step] at hs
    repeat' split at hs
    all_goals first
      | cases hs
        exact hk
      | cases hs

theorem known_run {es : List (Event H n)} (hrun : s.run m es = some s') (hk : Known s.db h) :
    Known s'.db h := by
  induction es generalizing s with
  | nil =>
    cases hrun
    exact hk
  | cons e es ih =>
    obtain ⟨s₁, hs₁, hrun⟩ := Option.bind_eq_some_iff.mp hrun
    exact ih hrun (known_step hs₁ hk)

end CodeSyncer

theorem inv_run {m : ℕ} {db : CodeDB H} {es : List (Event H n)} {s : CodeSyncer H n}
    (hrun : (init n db).run m es = some s) : Inv s :=
  (inv_init db).run hrun

/-- A history of runs over one database: each run starts from `init` over the database the
previous one left; all but the last were interrupted in the state listed. -/
inductive History (m : ℕ) : CodeDB H → List (CodeSyncer H n) → CodeSyncer H n → Prop
  | final {db : CodeDB H} {es : List (Event H n)} {s : CodeSyncer H n} :
    (init n db).run m es = some s → History m db [] s
  | interrupted {db : CodeDB H} {es : List (Event H n)} {s final : CodeSyncer H n}
    {runs : List (CodeSyncer H n)} :
    (init n db).run m es = some s → History m s.db runs final → History m db (s :: runs) final

/-- What is known at the start of a history is known at its end. -/
theorem History.known {m : ℕ} {db : CodeDB H} {runs : List (CodeSyncer H n)}
    {final : CodeSyncer H n} {h : H} (hhist : History m db runs final) (hk : Known db h) :
    Known final.db h := by
  induction hhist with
  | final hrun => exact known_run hrun hk
  | interrupted hrun _ ih => exact ih (known_run hrun hk)

/-- Each call an interruption cut short is made again in a later run: the hashes of the calls
that had not returned `nil` when a run was interrupted are passed to `addCode` in a later run. -/
def Retried : List (CodeSyncer H n) → CodeSyncer H n → Prop
  | [], _ => True
  | s :: runs, final => (∀ h ∈ cut s, ∃ s' ∈ runs ++ [final], h ∈ passed s') ∧ Retried runs final

/-- Code sync across interruptions, with at least one worker: if each call an interruption cut
short is made again in a later run, and every worker of the last run returns `nil`, then every
hash passed to `addCode` in any run has its code at the end, and no marker remains. The
induction is on the history; a hash of an interrupted run is known, and so known at the end, or
it is retried. -/
theorem codeSync_complete {m : ℕ} {db : CodeDB H} {runs : List (CodeSyncer H n)}
    {final : CodeSyncer H n} (hn : 0 < n) (hhist : History m db runs final)
    (hretry : Retried runs final) (hdone : ∀ w, final.workers w = .exited true) :
    (∀ s ∈ runs ++ [final], ∀ h ∈ passed s, h ∈ final.db.code) ∧ final.db.markers = ∅ := by
  induction hhist with
  | final hrun =>
    obtain ⟨hcode, hmarkers⟩ := (inv_run hrun).code_of_done hn hdone
    refine ⟨fun s hs h hh => ?_, hmarkers⟩
    rw [List.nil_append, List.mem_singleton] at hs
    subst hs
    exact hcode h hh
  | @interrupted db es s final runs hrun hrest ih =>
    obtain ⟨hlater, hmarkers⟩ := ih hretry.2 hdone
    refine ⟨fun s' hs' h hh => ?_, hmarkers⟩
    rcases List.mem_cons.mp hs' with rfl | hs'
    · rcases (inv_run hrun).known_or_cut hh with hk | hcut
      · -- known when the run was interrupted, so known at the end, where no marker is left
        rcases hrest.known hk with hm | hc
        · simp [hmarkers] at hm
        · exact hc
      · obtain ⟨s'', hs'', hh''⟩ := hretry.1 h hcut
        exact hlater s'' hs'' h hh''
    · exact hlater s' hs' h hh

/-- Two leaf callbacks pass the hash `7` while the database knows nothing: the first selects it
and releases the lock, the second skips it, as outstanding, and returns `nil`. -/
def lostSchedule : List (Event ℕ 1) :=
  [.load [], .call 0, .call 0, .call 0, .call 0, .started, .addCode [7], .addCode [7],
    .call 1, .call 1, .call 1, .call 2, .call 2, .call 2, .call 2, .call 2]

/-- Where that run is interrupted: the first call has not written the marker of `7`, and the
second has returned `nil`. -/
def lostInterrupted : CodeSyncer ℕ 1 :=
  ⟨⟨∅, ∅⟩, insert 7 ∅, [], false, false, false, .running, fun _ => .reading [],
    [⟨[], .returned true⟩, ⟨[7], .writing [7]⟩, ⟨[7], .returned true⟩]⟩

theorem run_lostSchedule : (init 1 ⟨∅, ∅⟩).run 1 lostSchedule = some lostInterrupted := rfl

/-- Wherever a run from a fresh start is interrupted, every hash passed to `addCode` has a
marker or its code, unless a call that had not returned `nil` was passed it too. -/
theorem codeSync_interrupted_known_or_cut {m : ℕ} {db : CodeDB H} {es : List (Event H n)}
    {s : CodeSyncer H n} (hrun : (init n db).run m es = some s) {h : H} (hh : h ∈ passed s) :
    Known s.db h ∨ h ∈ cut s :=
  (inv_run hrun).known_or_cut hh

/-- The lost hash `7` is covered by the call the interruption cut short. -/
theorem codeSync_interrupted_known_or_cut_sample :
    (init 1 ⟨∅, ∅⟩).run 1 lostSchedule = some lostInterrupted ∧ 7 ∈ passed lostInterrupted ∧
      (Known lostInterrupted.db 7 ∨ 7 ∈ cut lostInterrupted) :=
  have hh : 7 ∈ passed lostInterrupted := by decide
  ⟨run_lostSchedule, hh, codeSync_interrupted_known_or_cut run_lostSchedule hh⟩

/-- A next run that makes the cut call again; its worker fetches `7`. -/
def retrySchedule : List (Event ℕ 1) :=
  [.load [], .call 0, .call 0, .call 0, .call 0, .started, .addCode [7],
    .call 1, .call 1, .call 1, .call 1, .call 1, .call 1,
    .notifyAccountTrieCompleted, .worker 0, .worker 0, .worker 0, .worker 0]

/-- Where that run ends. -/
def retryFinal : CodeSyncer ℕ 1 :=
  ((init 1 lostInterrupted.db).run 1 retrySchedule).get (by decide)

theorem run_retrySchedule : (init 1 lostInterrupted.db).run 1 retrySchedule = some retryFinal :=
  (Option.some_get _).symm

/-- A run from a fresh start whose workers, at least one, have all returned `nil` has stored the
code of every hash passed to `addCode` and left no marker. -/
theorem codeSync_run_done_stores_code {m : ℕ} {db : CodeDB H} {es : List (Event H n)}
    {s : CodeSyncer H n} (hrun : (init n db).run m es = some s) (hn : 0 < n)
    (hdone : ∀ w, s.workers w = .exited true) :
    (∀ h ∈ passed s, h ∈ s.db.code) ∧ s.db.markers = ∅ :=
  (inv_run hrun).code_of_done hn hdone

theorem codeSync_run_done_stores_code_sample :
    (init 1 lostInterrupted.db).run 1 retrySchedule = some retryFinal ∧ 0 < 1 ∧
      (∀ w, retryFinal.workers w = .exited true) ∧
      (∀ h ∈ passed retryFinal, h ∈ retryFinal.db.code) ∧ retryFinal.db.markers = ∅ :=
  have hdone : ∀ w, retryFinal.workers w = .exited true := by decide
  ⟨run_retrySchedule, Nat.one_pos, hdone,
    codeSync_run_done_stores_code run_retrySchedule Nat.one_pos hdone⟩

theorem codeSync_complete_sample :
    History 1 ⟨∅, ∅⟩ [lostInterrupted] retryFinal ∧ Retried [lostInterrupted] retryFinal ∧
      7 ∈ retryFinal.db.code ∧ retryFinal.db.markers = ∅ := by
  have hhist : History 1 ⟨∅, ∅⟩ [lostInterrupted] retryFinal :=
    .interrupted run_lostSchedule (.final run_retrySchedule)
  have hretry : Retried [lostInterrupted] retryFinal :=
    ⟨fun h hh => ⟨_, List.mem_singleton_self _, by revert h hh; decide⟩, trivial⟩
  obtain ⟨hcode, hmarkers⟩ := codeSync_complete (by decide) hhist hretry (by decide)
  exact ⟨hhist, hretry, hcode retryFinal (by simp) 7 (by decide), hmarkers⟩

/-- A next run in which the trie sync has no leaves left: `start` finds no marker, the channel is
closed, and the worker returns `nil`. -/
def resumeSchedule : List (Event ℕ 1) :=
  [.load [], .call 0, .call 0, .call 0, .call 0, .started, .notifyAccountTrieCompleted, .worker 0]

/-- Where that run ends. -/
def resumeFinal : CodeSyncer ℕ 1 :=
  ((init 1 lostInterrupted.db).run 1 resumeSchedule).get (by decide)

theorem codeSync_loses_hash_without_retry :
    History 1 ⟨∅, ∅⟩ [lostInterrupted] resumeFinal ∧ (∀ w, resumeFinal.workers w = .exited true) ∧
      (⟨[7], .returned true⟩ : AddCodeCall ℕ) ∈ lostInterrupted.calls ∧
      7 ∉ resumeFinal.db.code := by
  refine ⟨.interrupted run_lostSchedule (.final (Option.some_get _).symm), ?_, ?_, ?_⟩
  · decide
  · decide
  · decide

end Jeth.CodeSync
