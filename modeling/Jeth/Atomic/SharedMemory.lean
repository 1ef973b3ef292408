import Jeth.Lib.SortedMap

/-!
# Applying synced atomic operations to shared memory

After state sync the atomic trie holds operations that were never executed on shared memory.
`MarkApplyToSharedMemoryCursor(p)` (`plugin/evm/atomic_backend.go`) records that they start at
height `p + 1`, and `ApplyToSharedMemory(lastAcceptedBlock)` walks the last committed trie from
that cursor, skips bonus blocks, merges the operation sets per blockchain and hands them to
`sharedMemory.Apply` in batches.  With every intermediate batch it stores the key of the last
operation set in the batch as the new cursor, committed atomically with the batch, and with the
last batch it deletes the cursor.  After a crash the next run resumes after that key.

A run is modelled by the list of its `Apply` batches; a run that stops has applied a prefix of
that list.  Shared memory is modelled by the requests it has applied to each chain, in order, so
that "exactly once" is a statement about that log.  Keys are of any linear order whose height
`keyHeight` is monotone, and `keyChain` reads the blockchain ID of a key.  The trie's leaves are
the decoded operation sets; decoding errors of the iterator are not modelled.

The main result, `applyToSharedMemoryRuns_sharedMemory`: after the cursor is marked at `p` and
any number of runs stopped after any of their batches, a complete run has applied to each chain
exactly the requests of the trie's operation sets of that chain with height in
`(p, lastAcceptedBlock]` and not a bonus height, each once and in key order, and has deleted the
cursor.  This needs `p + 1 < 2^64`: the cursor is a `uint64`, and `MarkApplyToSharedMemoryCursor`
at `p = MaxUint64` stores height `0`.
-/

namespace Jeth

/-- `atomic.Requests`: the removes and puts of one operation set on a chain's shared memory. -/
@[ext]
structure Requests (K E : Type) where
  removeRequests : List K
  putRequests : List E

namespace Requests

variable {K E : Type}

/-- No requests. -/
def empty : Requests K E := ⟨[], []⟩

/-- The requests of `r`, then those of `r'`. -/
def append (r r' : Requests K E) : Requests K E :=
  ⟨r.removeRequests ++ r'.removeRequests, r.putRequests ++ r'.putRequests⟩

instance : Append (Requests K E) := ⟨append⟩

@[simp] lemma append_removeRequests (r r' : Requests K E) :
    (r ++ r').removeRequests = r.removeRequests ++ r'.removeRequests := rfl

@[simp] lemma append_putRequests (r r' : Requests K E) :
    (r ++ r').putRequests = r.putRequests ++ r'.putRequests := rfl

@[simp] lemma empty_removeRequests : (empty : Requests K E).removeRequests = [] := rfl

@[simp] lemma empty_putRequests : (empty : Requests K E).putRequests = [] := rfl

@[simp] lemma empty_append (r : Requests K E) : empty ++ r = r := by ext <;> simp

@[simp] lemma append_empty (r : Requests K E) : r ++ empty = r := by ext <;> simp

lemma append_assoc (r r' r'' : Requests K E) : r ++ r' ++ r'' = r ++ (r' ++ r'') := by
  ext <;> simp

/-- All requests of a list of operation sets, in order. -/
def join (rs : List (Requests K E)) : Requests K E :=
  rs.foldr (· ++ ·) empty

@[simp] lemma join_nil : join ([] : List (Requests K E)) = empty := rfl

@[simp] lemma join_cons (r : Requests K E) (rs : List (Requests K E)) :
    join (r :: rs) = r ++ join rs := rfl

lemma join_append (rs rs' : List (Requests K E)) : join (rs ++ rs') = join rs ++ join rs' := by
  induction rs with
  | nil => simp
  | cons r rs ih => rw [List.cons_append, join_cons, join_cons, ih, append_assoc]

end Requests

/-- `sharedMemoryApplyBatchSize`: the number of requests after which a batch is applied. -/
def sharedMemoryApplyBatchSize : ℕ := 10000

/-- The value under `appliedSharedMemoryCursorKey`: an 8-byte height to start at, or the 40-byte
key of the last operation set applied. -/
inductive SharedMemoryCursor (κ : Type) where
  | height (h : ℕ)
  | key (k : κ)

/-- What `ApplyToSharedMemory` reads and writes: the cursor, absent when there is nothing to
apply, and the requests shared memory has applied to each chain, in order. -/
structure BackendState (κ ChainID K E : Type) where
  cursor : Option (SharedMemoryCursor κ)
  sharedMemory : ChainID → Requests K E

/-- `sharedMemory.Apply(batchOps, batch)`: the requests of a batch, and the cursor write of
`batch` committed with them, a `Put` of a key or, for the last batch, a `Delete`. -/
structure ApplyBatch (κ ChainID K E : Type) where
  batchOps : ChainID → Requests K E
  cursor : Option κ

variable {κ ChainID K E : Type}

/-- The effect of one batch. -/
def ApplyBatch.apply (s : BackendState κ ChainID K E) (b : ApplyBatch κ ChainID K E) :
    BackendState κ ChainID K E where
  cursor := b.cursor.map .key
  sharedMemory c := s.sharedMemory c ++ b.batchOps c

/-- The state after a list of batches. -/
def applyBatches (s : BackendState κ ChainID K E) (bs : List (ApplyBatch κ ChainID K E)) :
    BackendState κ ChainID K E :=
  bs.foldl ApplyBatch.apply s

@[simp] lemma applyBatches_nil (s : BackendState κ ChainID K E) : applyBatches s [] = s := rfl

@[simp] lemma applyBatches_cons (s : BackendState κ ChainID K E) (b : ApplyBatch κ ChainID K E)
    (bs : List (ApplyBatch κ ChainID K E)) :
    applyBatches s (b :: bs) = applyBatches (b.apply s) bs := rfl

@[simp] lemma applyBatches_append (s : BackendState κ ChainID K E)
    (bs bs' : List (ApplyBatch κ ChainID K E)) :
    applyBatches s (bs ++ bs') = applyBatches (applyBatches s bs) bs' :=
  List.foldl_append

/-- `mergeAtomicOpsToMap`: append the requests to the chain's entry; an absent entry is
empty. -/
def mergeAtomicOpsToMap [DecidableEq ChainID] (output : ChainID → Requests K E)
    (chainID : ChainID) (requests : Requests K E) : ChainID → Requests K E :=
  Function.update output chainID (output chainID ++ requests)

/-- `MarkApplyToSharedMemoryCursor(previousLastAcceptedHeight)`: `PutUInt64` of the next
height, a `uint64`. -/
def markApplyToSharedMemoryCursor (s : BackendState κ ChainID K E)
    (previousLastAcceptedHeight : ℕ) : BackendState κ ChainID K E :=
  { s with cursor := some (.height ((previousLastAcceptedHeight + 1) % 2 ^ 64)) }

/-! ## The run -/

section Apply

variable [LinearOrder κ] [DecidableEq ChainID] (keyHeight : κ → ℕ) (keyChain : κ → ChainID)
  (isBonus : ℕ → Bool) (batchSize lastAcceptedBlock : ℕ)

/-- The iteration of `ApplyToSharedMemory`: stop at the first height above
`lastAcceptedBlock`, skip bonus heights, merge each operation set into the batch, and apply the
batch with the current key as cursor once it holds more than `batchSize` requests.  Returns the
intermediate batches and the requests of the last one. -/
def applyLoop :
    List (κ × Requests K E) → (ChainID → Requests K E) → ℕ → ℕ →
      List (ApplyBatch κ ChainID K E) × (ChainID → Requests K E)
  | [], batchOps, _, _ => ([], batchOps)
  | (key, atomicOps) :: rest, batchOps, putRequests, removeRequests =>
    let height := keyHeight key
    if height > lastAcceptedBlock then ([], batchOps)
    -- a bonus block is skipped without moving the cursor
    else if isBonus height then applyLoop rest batchOps putRequests removeRequests
    else
      let putRequests := putRequests + atomicOps.putRequests.length
      let removeRequests := removeRequests + atomicOps.removeRequests.length
      let batchOps := mergeAtomicOpsToMap batchOps (keyChain key) atomicOps
      if putRequests + removeRequests > batchSize then
        let (batches, lastOps) := applyLoop rest (fun _ => .empty) 0 0
        (⟨batchOps, some key⟩ :: batches, lastOps)
      else applyLoop rest batchOps putRequests removeRequests

/-- The leaves the iterator yields from a cursor: from the first key at or above it, and past
that key for a 40-byte cursor (`it.Next()`). -/
def iterateFrom (leaves : List (κ × Requests K E)) :
    SharedMemoryCursor κ → List (κ × Requests K E)
  | .height h => leaves.dropWhile fun l => keyHeight l.1 < h
  | .key k => (leaves.dropWhile fun l => l.1 < k).drop 1

/-- The `sharedMemory.Apply` batches of `ApplyToSharedMemory(lastAcceptedBlock)` over the
leaves of the last committed trie; none without a cursor. -/
def applyToSharedMemoryBatches (leaves : List (κ × Requests K E))
    (s : BackendState κ ChainID K E) : List (ApplyBatch κ ChainID K E) :=
  match s.cursor with
  | none => []
  | some cursor =>
    let (batches, batchOps) := applyLoop keyHeight keyChain isBonus batchSize lastAcceptedBlock
      (iterateFrom keyHeight leaves cursor) (fun _ => .empty) 0 0
    batches ++ [⟨batchOps, none⟩]

/-- `ApplyToSharedMemory(lastAcceptedBlock)`, with batches of more than `batchSize` requests. -/
def applyToSharedMemory (leaves : List (κ × Requests K E)) (s : BackendState κ ChainID K E) :
    BackendState κ ChainID K E :=
  applyBatches s
    (applyToSharedMemoryBatches keyHeight keyChain isBonus batchSize lastAcceptedBlock leaves s)

/-- `ApplyToSharedMemory(lastAcceptedBlock)` of the code, with its batch size. -/
def ApplyToSharedMemory (leaves : List (κ × Requests K E)) (s : BackendState κ ChainID K E) :
    BackendState κ ChainID K E :=
  applyToSharedMemory keyHeight keyChain isBonus sharedMemoryApplyBatchSize lastAcceptedBlock
    leaves s

/-- `ApplyToSharedMemory(lastAcceptedBlock)` stopped after its first `stopAfter` batches. -/
def applyToSharedMemoryStopped (leaves : List (κ × Requests K E))
    (s : BackendState κ ChainID K E) (stopAfter : ℕ) : BackendState κ ChainID K E :=
  applyBatches s
    ((applyToSharedMemoryBatches keyHeight keyChain isBonus batchSize lastAcceptedBlock leaves
      s).take stopAfter)

/-- Runs stopped after `stopped` batches each, then one run that completes. -/
def applyToSharedMemoryRuns (leaves : List (κ × Requests K E)) (s : BackendState κ ChainID K E)
    (stopped : List ℕ) : BackendState κ ChainID K E :=
  applyToSharedMemory keyHeight keyChain isBonus batchSize lastAcceptedBlock leaves
    (stopped.foldl
      (fun s j => applyToSharedMemoryStopped keyHeight keyChain isBonus batchSize
        lastAcceptedBlock leaves s j) s)

/-! ## What a run applies -/

/-- The requests the operation sets of `L` make on `chain`: those before the first height above
`lastAcceptedBlock`, bonus heights left out. -/
def opsOn (L : List (κ × Requests K E)) (chain : ChainID) : Requests K E :=
  Requests.join ((((L.takeWhile fun l => keyHeight l.1 ≤ lastAcceptedBlock).filter
    fun l => !isBonus (keyHeight l.1) && keyChain l.1 = chain)).map Prod.snd)

/-- Progress of the application of the leaves `start`: either the cursor is deleted and every
operation set of `start` is applied, or the cursor resumes the iteration at a suffix `L₂` of
`start` and exactly the operation sets before it are applied. -/
def ApplyProgress (leaves start : List (κ × Requests K E)) (sm₀ : ChainID → Requests K E)
    (s : BackendState κ ChainID K E) : Prop :=
  (s.cursor = none ∧ ∀ c, s.sharedMemory c = sm₀ c ++ opsOn keyHeight keyChain isBonus
      lastAcceptedBlock start c) ∨
  ∃ cursor L₁ L₂, s.cursor = some cursor ∧ iterateFrom keyHeight leaves cursor = L₂ ∧
    start = L₁ ++ L₂ ∧ (∀ l ∈ L₁, keyHeight l.1 ≤ lastAcceptedBlock) ∧
    ∀ c, s.sharedMemory c = sm₀ c ++ opsOn keyHeight keyChain isBonus lastAcceptedBlock L₁ c

/-- The persisted state and the batch being built, while the loop iterates `L`: the cursor
resumes at `P ++ L`, where `P` holds the operation sets merged into `batchOps` and not yet
applied, and exactly the operation sets `L₁` before them are applied. -/
structure LoopProgress (leaves start : List (κ × Requests K E)) (sm₀ : ChainID → Requests K E)
    (s : BackendState κ ChainID K E) (L₁ P L : List (κ × Requests K E))
    (batchOps : ChainID → Requests K E) : Prop where
  cursor : ∃ cursor, s.cursor = some cursor ∧ iterateFrom keyHeight leaves cursor = P ++ L
  start : start = L₁ ++ (P ++ L)
  le : ∀ l ∈ L₁ ++ P, keyHeight l.1 ≤ lastAcceptedBlock
  applied : ∀ c, s.sharedMemory c = sm₀ c ++ opsOn keyHeight keyChain isBonus lastAcceptedBlock L₁ c
  batch : ∀ c, batchOps c = opsOn keyHeight keyChain isBonus lastAcceptedBlock P c

/-! ## What one run applies -/

section Progress

variable {keyHeight keyChain isBonus batchSize lastAcceptedBlock}

lemma mergeAtomicOpsToMap_apply (output : ChainID → Requests K E) (chainID c : ChainID)
    (requests : Requests K E) :
    mergeAtomicOpsToMap output chainID requests c =
      output c ++ if chainID = c then requests else .empty := by
  by_cases hc : chainID = c
  · subst hc
    simp [mergeAtomicOpsToMap]
  · simp [mergeAtomicOpsToMap, Function.update_of_ne (Ne.symm hc), hc]

omit [LinearOrder κ] in
/-- Operation sets all at or below `lastAcceptedBlock` apply before those that follow them. -/
lemma opsOn_append {L₁ L₂ : List (κ × Requests K E)}
    (h₁ : ∀ l ∈ L₁, keyHeight l.1 ≤ lastAcceptedBlock) (c : ChainID) :
    opsOn keyHeight keyChain isBonus lastAcceptedBlock (L₁ ++ L₂) c =
      opsOn keyHeight keyChain isBonus lastAcceptedBlock L₁ c ++
        opsOn keyHeight keyChain isBonus lastAcceptedBlock L₂ c := by
  have hpos : ∀ l ∈ L₁, decide (keyHeight l.1 ≤ lastAcceptedBlock) = true := fun l hl => by
    simpa using h₁ l hl
  rw [opsOn, List.takeWhile_append_of_pos hpos, List.filter_append, List.map_append,
    Requests.join_append, opsOn, opsOn, List.takeWhile_eq_self_iff.2 hpos]

omit [LinearOrder κ] in
/-- An operation set above `lastAcceptedBlock` stops the iteration. -/
lemma opsOn_cons_of_lt {x : κ × Requests K E} {L : List (κ × Requests K E)}
    (hx : lastAcceptedBlock < keyHeight x.1) (c : ChainID) :
    opsOn keyHeight keyChain isBonus lastAcceptedBlock (x :: L) c = .empty := by
  rw [opsOn, List.takeWhile_cons_of_neg (by simpa using hx)]
  rfl

omit [LinearOrder κ] in
lemma opsOn_singleton {x : κ × Requests K E} (hx : keyHeight x.1 ≤ lastAcceptedBlock)
    (c : ChainID) :
    opsOn keyHeight keyChain isBonus lastAcceptedBlock [x] c =
      if isBonus (keyHeight x.1) = false ∧ keyChain x.1 = c then x.2 else .empty := by
  have htake :
      [x].takeWhile (fun l => decide (keyHeight l.1 ≤ lastAcceptedBlock)) = [x] := by
    simp [hx]
  rw [opsOn, htake, List.filter_cons, List.filter_nil]
  by_cases hsel : isBonus (keyHeight x.1) = false ∧ keyChain x.1 = c
  · have hb : (!isBonus (keyHeight x.1) && decide (keyChain x.1 = c)) = true := by
      simp [hsel.1, hsel.2]
    rw [if_pos hb, if_pos hsel]
    simp
  · have hb : ¬ (!isBonus (keyHeight x.1) && decide (keyChain x.1 = c)) = true := by
      simpa using hsel
    rw [if_neg hb, if_neg hsel]
    rfl

omit [LinearOrder κ] in
lemma opsOn_nil (c : ChainID) :
    opsOn keyHeight keyChain isBonus lastAcceptedBlock ([] : List (κ × Requests K E)) c =
      .empty := rfl

omit [DecidableEq ChainID] in
/-- The iterator yields a suffix of the leaves. -/
lemma iterateFrom_suffix (leaves : List (κ × Requests K E)) (cursor : SharedMemoryCursor κ) :
    iterateFrom keyHeight leaves cursor <:+ leaves := by
  cases cursor with
  | height h => exact List.dropWhile_suffix _
  | key k => exact (List.drop_suffix 1 _).trans (List.dropWhile_suffix _)

omit [DecidableEq ChainID] in
/-- Resuming at the key of a leaf yields exactly the leaves after it. -/
lemma iterateFrom_key {x : κ × Requests K E} {B : List (κ × Requests K E)} :
    ∀ {A : List (κ × Requests K E)}, SortedMap.Sorted (A ++ x :: B) →
      iterateFrom keyHeight (A ++ x :: B) (.key x.1) = B
  | [], _ => by
    rw [iterateFrom, List.nil_append, List.dropWhile_cons_of_neg (by simp)]
    rfl
  | a :: A, hs => by
    have hlt : a.1 < x.1 :=
      List.rel_of_pairwise_cons hs (List.mem_append_right A List.mem_cons_self)
    have ih := iterateFrom_key (List.Pairwise.of_cons hs)
    rw [iterateFrom] at ih ⊢
    rw [List.cons_append, List.dropWhile_cons_of_pos (by simpa using hlt), ih]

variable {leaves start : List (κ × Requests K E)} {sm₀ : ChainID → Requests K E}

/-- Before the next batch is applied the progress invariant holds. -/
lemma LoopProgress.applyProgress {s : BackendState κ ChainID K E}
    {L₁ P L : List (κ × Requests K E)} {batchOps : ChainID → Requests K E}
    (h : LoopProgress keyHeight keyChain isBonus lastAcceptedBlock leaves start sm₀ s L₁ P L
      batchOps) :
    ApplyProgress keyHeight keyChain isBonus lastAcceptedBlock leaves start sm₀ s := by
  obtain ⟨cursor, hc, hit⟩ := h.cursor
  exact .inr ⟨cursor, L₁, P ++ L, hc, hit, h.start,
    fun l hl => h.le l (List.mem_append_left P hl), h.applied⟩

/-- The last batch, once the iteration is over: every operation set of `start` is applied and
the cursor is deleted. -/
lemma LoopProgress.applyProgress_last {s : BackendState κ ChainID K E}
    {L₁ P L : List (κ × Requests K E)} {batchOps : ChainID → Requests K E}
    (h : LoopProgress keyHeight keyChain isBonus lastAcceptedBlock leaves start sm₀ s L₁ P L
      batchOps)
    (hL : ∀ c, opsOn keyHeight keyChain isBonus lastAcceptedBlock L c = .empty) (j : ℕ) :
    ApplyProgress keyHeight keyChain isBonus lastAcceptedBlock leaves start sm₀
      (applyBatches s (List.take j [⟨batchOps, none⟩])) := by
  cases j with
  | zero => exact h.applyProgress
  | succ j =>
    simp only [List.take_succ_cons, List.take_nil, applyBatches_cons, applyBatches_nil]
    refine .inl ⟨rfl, fun c => ?_⟩
    have hP : ∀ l ∈ P, keyHeight l.1 ≤ lastAcceptedBlock :=
      fun l hl => h.le l (List.mem_append_right L₁ hl)
    have hL₁ : ∀ l ∈ L₁, keyHeight l.1 ≤ lastAcceptedBlock :=
      fun l hl => h.le l (List.mem_append_left P hl)
    simp only [ApplyBatch.apply]
    rw [h.start, opsOn_append hL₁, opsOn_append hP, hL, h.applied, h.batch, Requests.append_empty,
      Requests.append_assoc]

/-- Merging one more operation set into the batch being built. -/
lemma LoopProgress.merge {s : BackendState κ ChainID K E} {L₁ P L : List (κ × Requests K E)}
    {x : κ × Requests K E} {batchOps batchOps' : ChainID → Requests K E}
    (h : LoopProgress keyHeight keyChain isBonus lastAcceptedBlock leaves start sm₀ s L₁ P
      (x :: L) batchOps)
    (hx : keyHeight x.1 ≤ lastAcceptedBlock)
    (hbatch : ∀ c, batchOps' c = batchOps c ++
      opsOn keyHeight keyChain isBonus lastAcceptedBlock [x] c) :
    LoopProgress keyHeight keyChain isBonus lastAcceptedBlock leaves start sm₀ s L₁ (P ++ [x]) L
      batchOps' where
  cursor := by simpa using h.cursor
  start := by simpa using h.start
  le := by
    intro l hl
    rw [← List.append_assoc, List.mem_append, List.mem_singleton] at hl
    rcases hl with hl | rfl
    · exact h.le l hl
    · exact hx
  applied := h.applied
  batch c := by
    have hP : ∀ l ∈ P, keyHeight l.1 ≤ lastAcceptedBlock :=
      fun l hl => h.le l (List.mem_append_right L₁ hl)
    rw [hbatch, h.batch, opsOn_append hP]

/-- The loop lemma: from the progress invariant, every prefix of the batches the loop still
applies, its last batch included, leaves the progress invariant. -/
lemma applyLoop_progress (hsorted : SortedMap.Sorted leaves) :
    ∀ (L P L₁ : List (κ × Requests K E)) (batchOps : ChainID → Requests K E)
      (putRequests removeRequests j : ℕ) (s : BackendState κ ChainID K E),
      LoopProgress keyHeight keyChain isBonus lastAcceptedBlock leaves start sm₀ s L₁ P L
        batchOps →
      let r := applyLoop keyHeight keyChain isBonus batchSize lastAcceptedBlock L batchOps
        putRequests removeRequests
      ApplyProgress keyHeight keyChain isBonus lastAcceptedBlock leaves start sm₀
        (applyBatches s ((r.1 ++ [({ batchOps := r.2, cursor := none } :
          ApplyBatch κ ChainID K E)]).take j))
  | [], P, L₁, batchOps, _, _, j, s, h => h.applyProgress_last (fun _ => rfl) j
  | (key, atomicOps) :: L, P, L₁, batchOps, putRequests, removeRequests, j, s, h => by
    by_cases hgt : keyHeight key > lastAcceptedBlock
    · -- above the last accepted block: the iteration stops
      simp only [applyLoop, if_pos hgt, List.nil_append]
      exact h.applyProgress_last (fun c => opsOn_cons_of_lt hgt c) j
    have hle : keyHeight key ≤ lastAcceptedBlock := by omega
    by_cases hbonus : isBonus (keyHeight key) = true
    · -- a bonus block joins the batch without any request
      simp only [applyLoop, if_neg hgt, if_pos hbonus]
      refine applyLoop_progress hsorted L (P ++ [(key, atomicOps)]) L₁ batchOps _ _ j s
        (h.merge hle fun c => ?_)
      rw [opsOn_singleton hle, if_neg (by simp [hbonus]), Requests.append_empty]
    have hmerge : ∀ c, mergeAtomicOpsToMap batchOps (keyChain key) atomicOps c =
        batchOps c ++ opsOn keyHeight keyChain isBonus lastAcceptedBlock [(key, atomicOps)] c :=
      fun c => by
        rw [mergeAtomicOpsToMap_apply, opsOn_singleton hle]
        by_cases hc : keyChain key = c <;> simp [hc, hbonus]
    have h' := h.merge hle hmerge
    simp only [applyLoop, if_neg hgt, if_neg hbonus]
    split_ifs with hbatch
    · -- the batch is applied, with this key as the cursor
      cases j with
      | zero => exact h.applyProgress
      | succ j =>
        rw [List.cons_append, List.take_succ_cons, applyBatches_cons]
        obtain ⟨cursor, hc, hit⟩ := h'.cursor
        obtain ⟨Y, hY⟩ := iterateFrom_suffix leaves cursor
        have hleaves : leaves = (Y ++ P) ++ (key, atomicOps) :: L := by
          rw [← hY, hit, List.append_assoc, List.append_assoc, List.singleton_append]
        refine applyLoop_progress hsorted L [] (L₁ ++ (P ++ [(key, atomicOps)])) (fun _ => .empty)
          0 0 j _ ⟨⟨.key key, rfl, ?_⟩, ?_, ?_, ?_, fun c => rfl⟩
        · rw [List.nil_append]
          exact hleaves ▸ iterateFrom_key (hleaves ▸ hsorted)
        · rw [h'.start, List.nil_append]
          simp only [List.append_assoc]
        · simpa using h'.le
        · intro c
          have hL₁ : ∀ l ∈ L₁, keyHeight l.1 ≤ lastAcceptedBlock :=
            fun l hl => h'.le l (List.mem_append_left _ hl)
          simp only [ApplyBatch.apply]
          rw [opsOn_append hL₁, h'.applied, h'.batch, Requests.append_assoc]
    · exact applyLoop_progress hsorted L _ L₁ _ _ _ j s h'

end Progress

/-! ## Runs with crashes -/

section Runs

variable {keyHeight keyChain isBonus batchSize lastAcceptedBlock}
  {leaves start : List (κ × Requests K E)} {sm₀ : ChainID → Requests K E}

/-- The batches of a run from a cursor: the loop's batches, then the last one. -/
lemma applyToSharedMemoryBatches_of_cursor {s : BackendState κ ChainID K E}
    {cursor : SharedMemoryCursor κ} (hc : s.cursor = some cursor) :
    applyToSharedMemoryBatches keyHeight keyChain isBonus batchSize lastAcceptedBlock leaves s =
      let r := applyLoop keyHeight keyChain isBonus batchSize lastAcceptedBlock
        (iterateFrom keyHeight leaves cursor) (fun _ => .empty) 0 0
      r.1 ++ [{ batchOps := r.2, cursor := none }] := by
  rw [applyToSharedMemoryBatches, hc]

lemma applyToSharedMemoryBatches_of_none {s : BackendState κ ChainID K E}
    (hc : s.cursor = none) :
    applyToSharedMemoryBatches keyHeight keyChain isBonus batchSize lastAcceptedBlock leaves s =
      [] := by
  rw [applyToSharedMemoryBatches, hc]

/-- A complete run deletes the cursor. -/
lemma applyToSharedMemory_cursor (leaves : List (κ × Requests K E))
    (s : BackendState κ ChainID K E) :
    (applyToSharedMemory keyHeight keyChain isBonus batchSize lastAcceptedBlock leaves
      s).cursor = none := by
  unfold applyToSharedMemory
  cases hc : s.cursor with
  | none => rw [applyToSharedMemoryBatches_of_none hc, applyBatches_nil, hc]
  | some cursor => simp [applyToSharedMemoryBatches_of_cursor hc, ApplyBatch.apply]

/-- A stopped run keeps the progress invariant. -/
lemma ApplyProgress.stopped (hsorted : SortedMap.Sorted leaves) {s : BackendState κ ChainID K E}
    (h : ApplyProgress keyHeight keyChain isBonus lastAcceptedBlock leaves start sm₀ s)
    (stopAfter : ℕ) :
    ApplyProgress keyHeight keyChain isBonus lastAcceptedBlock leaves start sm₀
      (applyToSharedMemoryStopped keyHeight keyChain isBonus batchSize lastAcceptedBlock leaves
        s stopAfter) := by
  unfold applyToSharedMemoryStopped
  rcases h with ⟨hc, hsm⟩ | ⟨cursor, L₁, L₂, hc, hit, hstart, hle, hsm⟩
  · -- no cursor: the run applies nothing
    rw [applyToSharedMemoryBatches_of_none hc, List.take_nil, applyBatches_nil]
    exact .inl ⟨hc, hsm⟩
  · rw [applyToSharedMemoryBatches_of_cursor hc, hit]
    exact applyLoop_progress hsorted L₂ [] L₁ _ 0 0 stopAfter s
      ⟨⟨cursor, hc, by simpa using hit⟩, by simpa using hstart, by simpa using hle, hsm,
        fun _ => rfl⟩

/-- The run lemma: any sequence of stopped runs keeps the progress invariant. -/
lemma ApplyProgress.stoppedRuns (hsorted : SortedMap.Sorted leaves) :
    ∀ (stopped : List ℕ) (s : BackendState κ ChainID K E),
      ApplyProgress keyHeight keyChain isBonus lastAcceptedBlock leaves start sm₀ s →
      ApplyProgress keyHeight keyChain isBonus lastAcceptedBlock leaves start sm₀
        (stopped.foldl (fun s j => applyToSharedMemoryStopped keyHeight keyChain isBonus
          batchSize lastAcceptedBlock leaves s j) s)
  | [], _, h => h
  | j :: stopped, _, h => ApplyProgress.stoppedRuns hsorted stopped _ (h.stopped hsorted j)

/-- A complete run leaves every operation set of `start` applied. -/
lemma ApplyProgress.complete (hsorted : SortedMap.Sorted leaves) {s : BackendState κ ChainID K E}
    (h : ApplyProgress keyHeight keyChain isBonus lastAcceptedBlock leaves start sm₀ s)
    (c : ChainID) :
    (applyToSharedMemory keyHeight keyChain isBonus batchSize lastAcceptedBlock leaves
      s).sharedMemory c = sm₀ c ++ opsOn keyHeight keyChain isBonus lastAcceptedBlock start c := by
  have hrun : ApplyProgress keyHeight keyChain isBonus lastAcceptedBlock leaves start sm₀
      (applyToSharedMemoryStopped keyHeight keyChain isBonus batchSize lastAcceptedBlock leaves s
        (applyToSharedMemoryBatches keyHeight keyChain isBonus batchSize lastAcceptedBlock leaves
          s).length) := h.stopped hsorted _
  rw [applyToSharedMemoryStopped, List.take_length] at hrun
  rcases hrun with ⟨_, hsm⟩ | ⟨cursor, -, -, hc, -⟩
  · exact hsm c
  · rw [← applyToSharedMemory, applyToSharedMemory_cursor] at hc
    cases hc

/-- `MarkApplyToSharedMemoryCursor(p)` starts the progress invariant at height `p + 1`, when that
height fits in a `uint64`. -/
lemma applyProgress_markApplyToSharedMemoryCursor (s : BackendState κ ChainID K E) {p : ℕ}
    (hp : p + 1 < 2 ^ 64) :
    ApplyProgress keyHeight keyChain isBonus lastAcceptedBlock leaves
      (iterateFrom keyHeight leaves (.height (p + 1))) s.sharedMemory
      (markApplyToSharedMemoryCursor s p) :=
  .inr ⟨.height (p + 1), [], _, by rw [markApplyToSharedMemoryCursor, Nat.mod_eq_of_lt hp],
    rfl, rfl, by simp, fun c => by simp [opsOn, markApplyToSharedMemoryCursor]⟩

/-- From height `a` on, the iteration applies the operation sets of height in
`[a, lastAcceptedBlock]`, bonus heights left out. -/
lemma opsOn_dropWhile (hsorted : SortedMap.Sorted leaves) (hmono : Monotone keyHeight) (a : ℕ)
    (c : ChainID) :
    opsOn keyHeight keyChain isBonus lastAcceptedBlock
        (leaves.dropWhile fun l => keyHeight l.1 < a) c =
      Requests.join ((leaves.filter fun l => a ≤ keyHeight l.1 ∧
        keyHeight l.1 ≤ lastAcceptedBlock ∧ isBonus (keyHeight l.1) = false ∧
          keyChain l.1 = c).map Prod.snd) := by
  rw [opsOn, SortedMap.dropWhile_lt_eq_filter hmono a hsorted,
    SortedMap.takeWhile_le_eq_filter hmono _ (List.Pairwise.sublist List.filter_sublist hsorted),
    List.filter_filter, List.filter_filter]
  congr 2
  refine List.filter_congr fun l _ => ?_
  rw [Bool.eq_iff_iff]
  simp only [Bool.and_eq_true, Bool.not_eq_true', decide_eq_true_eq]
  tauto

end Runs

/-- Exactly-once application of synced atomic operations: after the cursor is marked at `p`, any
number of runs stopped after any of their batches and one complete run, the cursor is deleted and
each chain has been applied, once each and in key order, exactly the requests of the trie's
operation sets of that chain with height in `(p, lastAcceptedBlock]` that is not a bonus
height. -/
theorem applyToSharedMemoryRuns_sharedMemory (leaves : List (κ × Requests K E))
    (hsorted : SortedMap.Sorted leaves) (hmono : Monotone keyHeight)
    (s : BackendState κ ChainID K E) (p : ℕ) (hp : p + 1 < 2 ^ 64) (stopped : List ℕ) :
    let s' := applyToSharedMemoryRuns keyHeight keyChain isBonus batchSize lastAcceptedBlock
      leaves (markApplyToSharedMemoryCursor s p) stopped
    s'.cursor = none ∧
      ∀ c, s'.sharedMemory c = s.sharedMemory c ++
        Requests.join ((leaves.filter fun l => p < keyHeight l.1 ∧
          keyHeight l.1 ≤ lastAcceptedBlock ∧ isBonus (keyHeight l.1) = false ∧
            keyChain l.1 = c).map Prod.snd) := by
  have h₀ : ApplyProgress keyHeight keyChain isBonus lastAcceptedBlock leaves
      (iterateFrom keyHeight leaves (.height (p + 1))) s.sharedMemory
      (markApplyToSharedMemoryCursor s p) := applyProgress_markApplyToSharedMemoryCursor s hp
  have hrun : ApplyProgress keyHeight keyChain isBonus lastAcceptedBlock leaves
      (iterateFrom keyHeight leaves (.height (p + 1))) s.sharedMemory
      (stopped.foldl (fun s j => applyToSharedMemoryStopped keyHeight keyChain isBonus batchSize
        lastAcceptedBlock leaves s j) (markApplyToSharedMemoryCursor s p)) :=
    h₀.stoppedRuns hsorted stopped _
  refine ⟨applyToSharedMemory_cursor _ _, fun c => ?_⟩
  rw [applyToSharedMemoryRuns, hrun.complete hsorted c, iterateFrom,
    opsOn_dropWhile hsorted hmono]
  simp only [Nat.lt_iff_add_one_le]


end Apply

/-- Operation sets at heights 1 to 4; keys are heights, blockchain `true` at even heights. -/
def sampleOps : List (ℕ × Requests ℕ ℕ) :=
  [(1, ⟨[], [10]⟩), (2, ⟨[3], []⟩), (3, ⟨[4], [11]⟩), (4, ⟨[], [12]⟩)]

/-- A backend with nothing applied and no cursor. -/
def sampleBackend : BackendState ℕ Bool ℕ ℕ := ⟨none, fun _ => .empty⟩

/-- Cursor marked at 0, height 2 a bonus block, every operation set its own batch, last accepted
block 3; one run stopped after one batch and one stopped before any. -/
theorem applyToSharedMemoryRuns_sharedMemory_sample :
    SortedMap.Sorted sampleOps ∧ Monotone (id : ℕ → ℕ) ∧ 0 + 1 < 2 ^ 64 ∧
      let s' := applyToSharedMemoryRuns id (fun k => decide (k % 2 = 0)) (fun h => decide (h = 2))
        0 3 sampleOps (markApplyToSharedMemoryCursor sampleBackend 0) [1, 0]
      s'.cursor = none ∧
        ∀ c, s'.sharedMemory c = sampleBackend.sharedMemory c ++
          Requests.join ((sampleOps.filter fun l => 0 < id l.1 ∧ id l.1 ≤ 3 ∧
            decide (id l.1 = 2) = false ∧ decide (l.1 % 2 = 0) = c).map Prod.snd) :=
  ⟨by decide, monotone_id, by decide,
    applyToSharedMemoryRuns_sharedMemory id _ _ 0 3 sampleOps (by decide) monotone_id
      sampleBackend 0 (by decide) [1, 0]⟩

/-- `MarkApplyToSharedMemoryCursor(MaxUint64)` stores height `0`, so a complete run applies the
operation sets of heights 1 to 3, though no height lies above `MaxUint64`. -/
theorem markApplyToSharedMemoryCursor_max_applies_all :
    (applyToSharedMemoryRuns id (fun _ => true) (fun _ => false) sharedMemoryApplyBatchSize 3
        sampleOps (markApplyToSharedMemoryCursor sampleBackend (2 ^ 64 - 1)) []).sharedMemory
          true = ⟨[3, 4], [10, 11]⟩ ∧
      sampleOps.filter (fun l => 2 ^ 64 - 1 < l.1) = [] :=
  ⟨rfl, rfl⟩

end Jeth
