import Jeth.Atomic.Trie
import Jeth.Lib.SortedMap

/-!
# Repairing the height map

`atomicTrie.RepairHeightMap` (`plugin/evm/atomic_trie_height_map_repair.go`) rebuilds the height
map, which sends each commit height to the atomic trie root committed there, from the leaves of
the last committed trie `T`.  `repairHeightMap(from, to)` opens a hasher trie at the root of
height `from`, walks `T`'s leaves in key order from height `from + 1`, and before inserting the
first leaf above a commit height hashes the hasher and writes its root at that height.  After
each such write it stores the height under `heightMapRepairKey`, so that a later run resumes
there, and at the end it stores `repairDone`.

A run is modelled by the list of writes it makes to the metadata database; a run that stops,
whatever the cause, has made a prefix of that list.  Keys are of any linear order whose height
`keyHeight` (the first eight bytes of an atomic key) is monotone.  A trie is its key-sorted list
of leaves: `rootOf` hashes such a list, and `openTrie` gives back the leaves under a root.
Heights are `uint64`s: `next += commitInterval` is taken modulo `2^64`, and a commit loop that
has not ended after `2^64` iterations never ends, since its test reads only `next`.  Such a run
never returns; the writes of its first `2^64` iterations are a prefix of what it writes.

The main result, `repairHeightMapRuns_heightMap`: from a database without a marker, after any
number of runs stopped after any of their writes and one run that completes, all to heights at
least the interval below `2^64`, the last run returns and the height map at every commit height
`k ≤ to` holds the root of `T`'s leaves of height in `[1, k]`.  Leaves of height `0` are never
hashed, since the walk starts at height `from + 1`; and a run to `2^64 - 1` wraps and overwrites
the commit heights it has passed (`repairHeightMap_wraps_to_first_commit`).
-/

namespace Jeth

/-- `repairDone`, the marker of a finished repair: `math.MaxUint64`. -/
def repairDone : ℕ := 2 ^ 64 - 1

/-- What the repair reads and writes: the atomic trie, whose height map lives in `metadataDB`,
and the `heightMapRepairKey` marker, absent before any repair. -/
structure RepairState (Hash : Type) where
  atomicTrie : AtomicTrie Hash
  heightMapRepair : Option ℕ

/-- A write of the repair to `metadataDB`. -/
inductive RepairWrite (Hash : Type) where
  /-- `metadataDB.Put(PackUInt64(commitHeight), root)` -/
  | putRoot (height : ℕ) (root : Hash)
  /-- `PutUInt64(metadataDB, heightMapRepairKey, commitHeight)` -/
  | putMarker (height : ℕ)

namespace RepairWrite

variable {Hash : Type}

/-- The effect of one write. -/
def apply (s : RepairState Hash) : RepairWrite Hash → RepairState Hash
  | putRoot height root =>
    { s with atomicTrie :=
      { s.atomicTrie with heightMap := Function.update s.atomicTrie.heightMap height (some root) } }
  | putMarker height => { s with heightMapRepair := some height }

@[simp] lemma apply_commitInterval (s : RepairState Hash) (w : RepairWrite Hash) :
    (w.apply s).atomicTrie.commitInterval = s.atomicTrie.commitInterval := by
  cases w <;> rfl

@[simp] lemma apply_lastCommittedRoot (s : RepairState Hash) (w : RepairWrite Hash) :
    (w.apply s).atomicTrie.lastCommittedRoot = s.atomicTrie.lastCommittedRoot := by
  cases w <;> rfl

end RepairWrite

variable {Hash : Type}

/-- The state after a list of writes. -/
def applyWrites (s : RepairState Hash) (ws : List (RepairWrite Hash)) : RepairState Hash :=
  ws.foldl RepairWrite.apply s

@[simp] lemma applyWrites_nil (s : RepairState Hash) : applyWrites s [] = s := rfl

@[simp] lemma applyWrites_cons (s : RepairState Hash) (w : RepairWrite Hash)
    (ws : List (RepairWrite Hash)) : applyWrites s (w :: ws) = applyWrites (w.apply s) ws := rfl

@[simp] lemma applyWrites_commitInterval (s : RepairState Hash) (ws : List (RepairWrite Hash)) :
    (applyWrites s ws).atomicTrie.commitInterval = s.atomicTrie.commitInterval := by
  induction ws generalizing s with
  | nil => rfl
  | cons w ws ih => rw [applyWrites_cons, ih, RepairWrite.apply_commitInterval]

@[simp] lemma applyWrites_lastCommittedRoot (s : RepairState Hash)
    (ws : List (RepairWrite Hash)) :
    (applyWrites s ws).atomicTrie.lastCommittedRoot = s.atomicTrie.lastCommittedRoot := by
  induction ws generalizing s with
  | nil => rfl
  | cons w ws ih => rw [applyWrites_cons, ih, RepairWrite.apply_lastCommittedRoot]

/-- The writes of `commitRepairedHeight(commitHeight)` for a hasher whose root is `root`. -/
def commitWrites (commitHeight : ℕ) (root : Hash) : List (RepairWrite Hash) :=
  [.putRoot commitHeight root, .putMarker commitHeight]

/-- The height `RepairHeightMap` resumes from: `0` without a marker, none once the marker is
`repairDone`, and the marker otherwise. -/
def repairStart (s : RepairState Hash) : Option ℕ :=
  match s.heightMapRepair with
  | none => some 0
  | some repairFrom => if repairFrom = repairDone then none else some repairFrom

/-! ## The repair -/

section Repair

variable {κ V : Type} [LinearOrder κ] (keyHeight : κ → ℕ) (rootOf : List (κ × V) → Hash)
  (openTrie : Hash → {l : List (κ × V) // SortedMap.Sorted l})

/-- A commit loop of `repairHeightMap`, `for next := …; next < limit; next += c` over `uint64`:
every height visited gets `commitRepairedHeight`, which hashes the hasher, writes its root and
the marker, and reopens the hasher at the root.  Returns the writes and, when the loop ends
within `fuel` iterations, the hasher and the last height committed. -/
def commitLoop (c limit : ℕ) :
    ℕ → ℕ → List (κ × V) → ℕ → List (RepairWrite Hash) × Option (List (κ × V) × ℕ)
  | 0, _, _, _ => ([], none)
  | fuel + 1, next, hasher, lastCommit =>
    if next < limit then
      let root := rootOf hasher
      let (ws, r) := commitLoop c limit fuel ((next + c) % 2 ^ 64) (openTrie root).1 next
      (commitWrites next root ++ ws, r)
    else ([], some (hasher, lastCommit))

/-- The leaf loop of `repairHeightMap` over the leaves the iterator yields: stop at the first leaf
above `to`; otherwise commit the heights below the leaf's height, then insert the leaf.  Returns
the writes and, when every commit loop ends, the hasher and the last height committed. -/
def repairLeaves (c toHeight : ℕ) :
    List (κ × V) → List (κ × V) → ℕ → List (RepairWrite Hash) × Option (List (κ × V) × ℕ)
  | [], hasher, lastCommit => ([], some (hasher, lastCommit))
  | (key, value) :: rest, hasher, lastCommit =>
    let height := keyHeight key
    if height > toHeight then ([], some (hasher, lastCommit))
    else
      match commitLoop rootOf openTrie c height (2 ^ 64) ((lastCommit + c) % 2 ^ 64) hasher
          lastCommit with
      | (ws, none) => (ws, none)
      | (ws, some (hasher, lastCommit)) =>
        let (ws', r) := repairLeaves c toHeight rest (SortedMap.insert key value hasher) lastCommit
        (ws ++ ws', r)

/-- The leaf loop, then the tail loop `for next := lastCommit + c; next <= to; next += c`: the
writes, and whether both loops end.  For `next < 2^64`, `next <= to` is `next < to + 1` with an
unbounded `to + 1`: at `to = 2^64 - 1` the test always holds. -/
def repairLoops (c toHeight : ℕ) (it hasher : List (κ × V)) (lastCommit : ℕ) :
    List (RepairWrite Hash) × Bool :=
  match repairLeaves keyHeight rootOf openTrie c toHeight it hasher lastCommit with
  | (ws, none) => (ws, false)
  | (ws, some (hasher, lastCommit)) =>
    let (ws', r) := commitLoop rootOf openTrie c (toHeight + 1) (2 ^ 64)
      ((lastCommit + c) % 2 ^ 64) hasher lastCommit
    (ws ++ ws', r.isSome)

/-- `OpenTrie(getRoot(height))`.  A height without an entry gives `common.Hash{}`, under which
`trie.New` opens the empty trie. -/
def openHasher (emptyRootHash : Hash) (a : AtomicTrie Hash) (height : ℕ) : List (κ × V) :=
  match a.getRoot emptyRootHash height with
  | some root => (openTrie root).1
  | none => []

/-- The writes of `repairHeightMap(from, to)` before the final `repairDone` marker, the leaf loop
over the last committed trie from height `from + 1` and the tail loop, and whether they end. -/
def repairWrites (emptyRootHash : Hash) (a : AtomicTrie Hash) (repairFrom toHeight : ℕ) :
    List (RepairWrite Hash) × Bool :=
  let hasher := openHasher openTrie emptyRootHash a repairFrom
  let it := (openTrie a.lastCommittedRoot).1.dropWhile fun l => keyHeight l.1 < repairFrom + 1
  repairLoops keyHeight rootOf openTrie a.commitInterval toHeight it hasher repairFrom

/-- `repairHeightMap(from, to)`: its writes, then the marker `repairDone`; `none` when a commit
loop never ends. -/
def repairHeightMap (emptyRootHash : Hash) (s : RepairState Hash) (repairFrom toHeight : ℕ) :
    Option (RepairState Hash) :=
  let (ws, returns) :=
    repairWrites keyHeight rootOf openTrie emptyRootHash s.atomicTrie repairFrom toHeight
  if returns then some { applyWrites s ws with heightMapRepair := some repairDone } else none

/-- `RepairHeightMap(to)`: whether a repair ran, and the state after it; `none` when it does not
return. -/
def RepairHeightMap (emptyRootHash : Hash) (s : RepairState Hash) (toHeight : ℕ) :
    Option (Bool × RepairState Hash) :=
  match repairStart s with
  | none => some (false, s)
  | some repairFrom =>
    (repairHeightMap keyHeight rootOf openTrie emptyRootHash s repairFrom toHeight).map
      fun s => (true, s)

/-- `RepairHeightMap(to)` stopped after its first `stopAfter` writes, before marking the repair
done. -/
def repairHeightMapStopped (emptyRootHash : Hash) (s : RepairState Hash) (toHeight stopAfter : ℕ) :
    RepairState Hash :=
  match repairStart s with
  | none => s
  | some repairFrom =>
    applyWrites s
      ((repairWrites keyHeight rootOf openTrie emptyRootHash s.atomicTrie repairFrom toHeight).1.take
        stopAfter)

/-- Runs of `RepairHeightMap(to)`, each stopped after some writes: one for each
`(to, stopAfter)` of `stopped`. -/
def repairHeightMapStoppedRuns (emptyRootHash : Hash) (s : RepairState Hash)
    (stopped : List (ℕ × ℕ)) : RepairState Hash :=
  stopped.foldl
    (fun s r => repairHeightMapStopped keyHeight rootOf openTrie emptyRootHash s r.1 r.2) s

/-- Stopped runs of `RepairHeightMap`, then one run `RepairHeightMap(to)` that completes. -/
def repairHeightMapRuns (emptyRootHash : Hash) (s : RepairState Hash)
    (stopped : List (ℕ × ℕ)) (toHeight : ℕ) : Option (Bool × RepairState Hash) :=
  RepairHeightMap keyHeight rootOf openTrie emptyRootHash
    (repairHeightMapStoppedRuns keyHeight rootOf openTrie emptyRootHash s stopped) toHeight

/-! ## What the height map should hold -/

/-- `T`'s leaves of height in `[1, k]`. -/
def leavesUpTo (T : List (κ × V)) (k : ℕ) : List (κ × V) :=
  T.filter fun l => 1 ≤ keyHeight l.1 ∧ keyHeight l.1 ≤ k

/-- The height map holds, at every commit height in `(0, m]`, the root of `T`'s leaves up to it. -/
def RepairedUpTo (c : ℕ) (T : List (κ × V)) (s : RepairState Hash) (m : ℕ) : Prop :=
  ∀ k, c ∣ k → 0 < k → k ≤ m →
    s.atomicTrie.heightMap k = some (rootOf (leavesUpTo keyHeight T k))

/-- The resume invariant: a marker names a commit height, at least the interval below `2^64`, up
to which the map is repaired. -/
def MarkerSound (c : ℕ) (T : List (κ × V)) (s : RepairState Hash) : Prop :=
  ∀ m, s.heightMapRepair = some m →
    c ∣ m ∧ m + c < 2 ^ 64 ∧ RepairedUpTo keyHeight rootOf c T s m

/-- The writes of a correct repair from `lo` over `n` commit heights: at each height `k` the root
of `T`'s leaves up to `k`, then the marker `k`. -/
def repairedWrites (c : ℕ) (T : List (κ × V)) (lo n : ℕ) : List (RepairWrite Hash) :=
  (List.range' (lo + c) n c).flatMap fun k => commitWrites k (rootOf (leavesUpTo keyHeight T k))

/-! ## Leaves in height order -/

section Leaves

variable {keyHeight}

omit [LinearOrder κ] in
lemma leavesUpTo_cons (T : List (κ × V)) (x : κ × V) (k : ℕ) :
    leavesUpTo keyHeight (x :: T) k =
      if 1 ≤ keyHeight x.1 ∧ keyHeight x.1 ≤ k then x :: leavesUpTo keyHeight T k
      else leavesUpTo keyHeight T k := by
  by_cases hx : 1 ≤ keyHeight x.1 ∧ keyHeight x.1 ≤ k <;> simp [leavesUpTo, hx]

lemma sorted_leavesUpTo {T : List (κ × V)} (hT : SortedMap.Sorted T) (k : ℕ) :
    SortedMap.Sorted (leavesUpTo keyHeight T k) :=
  List.Pairwise.sublist List.filter_sublist hT

omit [LinearOrder κ] in
lemma leavesUpTo_zero (T : List (κ × V)) : leavesUpTo keyHeight T 0 = [] :=
  List.filter_eq_nil_iff.2 fun l _ => by simp only [decide_eq_true_eq]; omega

variable (hmono : Monotone keyHeight)
include hmono

/-- The iterator opened at `PackUInt64(from + 1)` yields only leaves above `from`. -/
lemma lt_height_of_mem_dropWhile {f : ℕ} {T : List (κ × V)} (hT : SortedMap.Sorted T) :
    ∀ l ∈ T.dropWhile (fun l => keyHeight l.1 < f + 1), f < keyHeight l.1 := by
  intro l hl
  rw [SortedMap.dropWhile_lt_eq_filter hmono _ hT, List.mem_filter, decide_eq_true_eq] at hl
  exact hl.2

/-- The hasher opened at height `from` and the leaves the iterator yields form a sorted list. -/
lemma sorted_leavesUpTo_append_dropWhile {T : List (κ × V)} (hT : SortedMap.Sorted T) (f : ℕ) :
    SortedMap.Sorted
      (leavesUpTo keyHeight T f ++ T.dropWhile fun l => keyHeight l.1 < f + 1) := by
  refine List.pairwise_append.2
    ⟨sorted_leavesUpTo hT f, List.Pairwise.sublist (List.dropWhile_sublist _) hT, ?_⟩
  intro a ha b hb
  have hfa : keyHeight a.1 ≤ f := by
    have := (List.mem_filter.1 ha).2
    simp only [decide_eq_true_eq] at this
    exact this.2
  have hfb : f < keyHeight b.1 := lt_height_of_mem_dropWhile hmono hT b hb
  by_contra hab
  have := hmono (not_lt.1 hab)
  omega

/-- The leaves up to `from` and the iterated leaves up to `k ≥ from` are the leaves up to `k`. -/
lemma leavesUpTo_append_dropWhile {f k : ℕ} (hfk : f ≤ k) :
    ∀ {T : List (κ × V)}, SortedMap.Sorted T →
      leavesUpTo keyHeight T f ++
          (T.dropWhile fun l => keyHeight l.1 < f + 1).filter (fun l => keyHeight l.1 ≤ k) =
        leavesUpTo keyHeight T k
  | [], _ => rfl
  | x :: T, hT => by
    by_cases hx : keyHeight x.1 < f + 1
    · -- `x` lies in the hasher, not in the iteration
      rw [List.dropWhile_cons_of_pos (by simpa using hx), leavesUpTo_cons, leavesUpTo_cons,
        ← leavesUpTo_append_dropWhile hfk (List.Pairwise.of_cons hT)]
      by_cases h1 : 1 ≤ keyHeight x.1
      · rw [if_pos ⟨h1, by omega⟩, if_pos ⟨h1, by omega⟩, List.cons_append]
      · rw [if_neg (by omega), if_neg (by omega)]
    · -- every leaf is above `from`, so the hasher is empty and all of them are iterated
      rw [List.dropWhile_cons_of_neg (by simpa using hx)]
      have hall : ∀ y ∈ x :: T, f < keyHeight y.1 := fun y hy => by
        have := SortedMap.le_of_mem_cons hmono hT hy
        omega
      have hnil : leavesUpTo keyHeight (x :: T) f = [] :=
        List.filter_eq_nil_iff.2 fun y hy => by
          have := hall y hy
          simp only [decide_eq_true_eq]
          omega
      rw [hnil, List.nil_append]
      refine List.filter_congr fun y hy => ?_
      have := hall y hy
      simp only [decide_eq_decide]
      omega

end Leaves

/-! ## The commit loops -/

section Loops

variable {keyHeight}

/-- A member of `range' s n c` lies in `[s, s + c (n - 1)]`. -/
lemma mem_range'_bounds {s n c k : ℕ} (hk : k ∈ List.range' s n c) : s ≤ k ∧ k + c ≤ s + c * n := by
  obtain ⟨i, hi, rfl⟩ := List.mem_range'.1 hk
  have : c * (i + 1) ≤ c * n := Nat.mul_le_mul_left c hi
  rw [Nat.mul_succ] at this
  omega

/-- The heights a commit loop from `lc` up to `to` visits lie in `(lc, to]`. -/
lemma lt_and_le_of_mem_commitHeights {c lc toHeight k : ℕ} (hc : 0 < c)
    (hk : k ∈ List.range' (lc + c) ((toHeight - lc) / c) c) : lc < k ∧ k ≤ toHeight := by
  have hb := mem_range'_bounds hk
  have := Nat.mul_div_le (toHeight - lc) c
  omega

variable {c : ℕ}

/-- Spec of a commit loop started at `lc + c` with a hasher whose reopened root gives it back:
given fuel for every iteration and no height that wraps, it commits the hasher at
`lc + c, lc + 2c, …` below `limit` and ends. -/
lemma commitLoop_eq (hc : 0 < c) {H : List (κ × V)} (hH : (openTrie (rootOf H)).1 = H)
    {limit : ℕ} (hlimit : limit + c ≤ 2 ^ 64) :
    ∀ (fuel lc : ℕ), (limit - 1 - lc) / c < fuel → lc + c < 2 ^ 64 →
      commitLoop rootOf openTrie c limit fuel (lc + c) H lc =
        ((List.range' (lc + c) ((limit - 1 - lc) / c) c).flatMap
            fun k => commitWrites k (rootOf H),
          some (H, lc + c * ((limit - 1 - lc) / c)))
  | 0, _, hfuel, _ => absurd hfuel (Nat.not_lt_zero _)
  | fuel + 1, lc, hfuel, hlc => by
    by_cases hlt : lc + c < limit
    · -- below the limit, the next height does not wrap
      have hn : (limit - 1 - lc) / c = (limit - 1 - (lc + c)) / c + 1 := by
        rw [← Nat.add_div_right _ hc]
        congr 1
        omega
      have hnext : lc + c + c < 2 ^ 64 := by omega
      simp only [commitLoop, if_pos hlt, hH, Nat.mod_eq_of_lt hnext]
      rw [commitLoop_eq hc hH hlimit fuel (lc + c) (by omega) hnext, hn, List.range'_succ,
        List.flatMap_cons, Nat.mul_succ]
      simp only [Prod.mk.injEq, Option.some.injEq, true_and]
      omega
    · have hn : (limit - 1 - lc) / c = 0 := Nat.div_eq_of_lt (by omega)
      simp only [commitLoop, if_neg hlt, hn]
      rfl

/-- A commit loop whose limit is `2^64` never ends, since every `uint64` lies below it: over
`fuel` iterations it commits the hasher at `next, next + c, …` modulo `2^64`. -/
lemma commitLoop_top {H : List (κ × V)} (hH : (openTrie (rootOf H)).1 = H) :
    ∀ (fuel next lc : ℕ), next < 2 ^ 64 →
      commitLoop rootOf openTrie c (2 ^ 64) fuel next H lc =
        ((List.range fuel).flatMap fun i => commitWrites ((next + c * i) % 2 ^ 64) (rootOf H),
          none)
  | 0, _, _, _ => rfl
  | fuel + 1, next, lc, hnext => by
    have hstep : ∀ i, ((next + c) % 2 ^ 64 + c * i) % 2 ^ 64 = (next + c * (i + 1)) % 2 ^ 64 :=
      fun i => by rw [Nat.mod_add_mod]; ring_nf
    rw [commitLoop, if_pos hnext]
    simp only [hH, commitLoop_top hH fuel _ next (Nat.mod_lt _ (Nat.two_pow_pos 64)), hstep,
      List.range_succ_eq_map, List.flatMap_cons, List.flatMap_map, Nat.succ_eq_add_one,
      mul_zero, add_zero, Nat.mod_eq_of_lt hnext]

variable {toHeight : ℕ}

/-- The tail loop from the last commit `lc`, with `to` and `lc` at least the interval below
`2^64`, ends after committing the hasher at each commit height in `(lc, to]`. -/
lemma tailLoop_eq (hc : 0 < c) {H : List (κ × V)} (hH : (openTrie (rootOf H)).1 = H)
    (hto : toHeight + c < 2 ^ 64) {lc : ℕ} (hlc : lc + c < 2 ^ 64) :
    commitLoop rootOf openTrie c (toHeight + 1) (2 ^ 64) ((lc + c) % 2 ^ 64) H lc =
      ((List.range' (lc + c) ((toHeight - lc) / c) c).flatMap fun k => commitWrites k (rootOf H),
        some (H, lc + c * ((toHeight - lc) / c))) := by
  have hfuel : (toHeight + 1 - 1 - lc) / c < 2 ^ 64 := by
    rw [Nat.add_sub_cancel]
    exact lt_of_le_of_lt (Nat.div_le_self _ c) (by omega)
  rw [Nat.mod_eq_of_lt hlc, commitLoop_eq rootOf openTrie hc hH (by omega) (2 ^ 64) lc hfuel hlc,
    Nat.add_sub_cancel]

/-- Once the leaf loop ends, the loops make its writes and then the tail loop's. -/
lemma repairLoops_of_repairLeaves {it hasher H : List (κ × V)} {lastCommit lc : ℕ}
    {ws : List (RepairWrite Hash)}
    (h : repairLeaves keyHeight rootOf openTrie c toHeight it hasher lastCommit =
      (ws, some (H, lc))) :
    repairLoops keyHeight rootOf openTrie c toHeight it hasher lastCommit =
      (ws ++ (commitLoop rootOf openTrie c (toHeight + 1) (2 ^ 64) ((lc + c) % 2 ^ 64) H lc).1,
        (commitLoop rootOf openTrie c (toHeight + 1) (2 ^ 64) ((lc + c) % 2 ^ 64) H lc).2.isSome) := by
  rw [repairLoops, h]

/-- The loops over a leaf at most `to`, once the commit loop below it ends, are those commits
followed by the loops over the other leaves. -/
lemma repairLoops_cons_of_le {key : κ} {value : V} {L H H₁ : List (κ × V)} {lc lc₁ : ℕ}
    {ws : List (RepairWrite Hash)} (hle : ¬ keyHeight key > toHeight)
    (hloop : commitLoop rootOf openTrie c (keyHeight key) (2 ^ 64) ((lc + c) % 2 ^ 64) H lc =
      (ws, some (H₁, lc₁))) :
    repairLoops keyHeight rootOf openTrie c toHeight ((key, value) :: L) H lc =
      (ws ++ (repairLoops keyHeight rootOf openTrie c toHeight L
          (SortedMap.insert key value H₁) lc₁).1,
        (repairLoops keyHeight rootOf openTrie c toHeight L
          (SortedMap.insert key value H₁) lc₁).2) := by
  simp only [repairLoops, repairLeaves, if_neg hle, hloop]
  rcases repairLeaves keyHeight rootOf openTrie c toHeight L (SortedMap.insert key value H₁) lc₁
    with ⟨ws', _ | ⟨H', lc'⟩⟩
  · rfl
  · simp only [List.append_assoc]

omit [LinearOrder κ] in
/-- Leaves whose heights are all at least `h` hold none at a height below `h`. -/
lemma filter_height_le_eq_nil {l : List (κ × V)} {h k : ℕ}
    (hheights : ∀ x ∈ l, h ≤ keyHeight x.1) (hk : k < h) :
    l.filter (fun x => keyHeight x.1 ≤ k) = [] :=
  List.filter_eq_nil_iff.2 fun x hx => by
    have := hheights x hx
    simp only [decide_eq_true_eq]
    omega

/-- Spec of the leaf loop followed by the tail loop: from a hasher `H` and the leaves `L` still to
iterate, both above every key of `H` and above height `lc`, with `to` and `lc` at least the
interval below `2^64`, both loops end, and they commit at each commit height `k` in `(lc, to]`
the hasher holding `H` and the leaves of `L` up to `k`. -/
lemma repairLoops_eq (hc : 0 < c)
    (hopen : ∀ S, SortedMap.Sorted S → (openTrie (rootOf S)).1 = S) (hmono : Monotone keyHeight)
    (hto : toHeight + c < 2 ^ 64) :
    ∀ (L H : List (κ × V)) (lc : ℕ), SortedMap.Sorted (H ++ L) → (∀ l ∈ L, lc < keyHeight l.1) →
      lc + c < 2 ^ 64 →
      repairLoops keyHeight rootOf openTrie c toHeight L H lc =
        ((List.range' (lc + c) ((toHeight - lc) / c) c).flatMap
          fun k => commitWrites k (rootOf (H ++ L.filter fun l => keyHeight l.1 ≤ k)), true)
  | [], H, lc, hs, _, hlc => by
    simp only [repairLoops, repairLeaves,
      tailLoop_eq rootOf openTrie hc (hopen H (by simpa using hs)) hto hlc]
    simp
  | (key, value) :: L, H, lc, hs, hL, hlc => by
    obtain ⟨hsH, hsL, hHL⟩ := List.pairwise_append.1 hs
    have hheights : ∀ l ∈ (key, value) :: L, keyHeight key ≤ keyHeight l.1 :=
      fun l hl => SortedMap.le_of_mem_cons hmono hsL hl
    have hlckey : lc < keyHeight key := hL (key, value) List.mem_cons_self
    by_cases hgt : keyHeight key > toHeight
    · -- the first leaf is above `to`: the leaf loop stops and only the tail loop commits
      simp only [repairLoops, repairLeaves, if_pos hgt,
        tailLoop_eq rootOf openTrie hc (hopen H hsH) hto hlc, List.nil_append,
        Option.isSome_some, Prod.mk.injEq, and_true]
      refine List.flatMap_congr fun k hk => ?_
      have hkto := (lt_and_le_of_mem_commitHeights hc hk).2
      rw [filter_height_le_eq_nil hheights (by omega), List.append_nil]
    · -- commit the heights below the leaf, insert it, and go on with the other leaves
      set n₁ := (keyHeight key - 1 - lc) / c with hn₁
      have hle : c * n₁ ≤ keyHeight key - 1 - lc := Nat.mul_div_le _ c
      have hgt₁ : keyHeight key - 1 - lc < c * n₁ + c := by
        have := Nat.lt_mul_div_succ (keyHeight key - 1 - lc) hc
        rwa [Nat.mul_succ] at this
      have hinner : commitLoop rootOf openTrie c (keyHeight key) (2 ^ 64) ((lc + c) % 2 ^ 64) H lc =
          ((List.range' (lc + c) n₁ c).flatMap fun k => commitWrites k (rootOf H),
            some (H, lc + c * n₁)) := by
        rw [Nat.mod_eq_of_lt hlc, commitLoop_eq rootOf openTrie hc (hopen H hsH) (by omega) _ lc
          (lt_of_le_of_lt (Nat.div_le_self _ c) (by omega)) hlc]
      have hinsert : SortedMap.insert key value H = H ++ [(key, value)] :=
        SortedMap.insert_of_lt_all fun p hp => hHL p hp (key, value) List.mem_cons_self
      have hsorted : SortedMap.Sorted (H ++ [(key, value)] ++ L) := by simpa using hs
      have hL' : ∀ l ∈ L, lc + c * n₁ < keyHeight l.1 := fun l hl => by
        have := hheights l (List.mem_cons_of_mem _ hl)
        omega
      rw [repairLoops_cons_of_le rootOf openTrie hgt hinner, hinsert,
        repairLoops_eq hc hopen hmono hto L _ _ hsorted hL' (by omega)]
      refine Prod.ext ?_ rfl
      dsimp only
      -- the commit heights below the leaf, then those from the leaf's height on
      have hn : n₁ + (toHeight - (lc + c * n₁)) / c = (toHeight - lc) / c := by
        have hn₁le : n₁ ≤ (toHeight - lc) / c :=
          (Nat.le_div_iff_mul_le hc).2 (by rw [Nat.mul_comm]; omega)
        rw [show toHeight - (lc + c * n₁) = toHeight - lc - c * n₁ by omega, Nat.sub_mul_div]
        omega
      rw [← hn, ← List.range'_append, List.flatMap_append,
        show lc + c + c * n₁ = lc + c * n₁ + c by omega]
      congr 1
      · refine List.flatMap_congr fun k hk => ?_
        have hb := mem_range'_bounds hk
        rw [filter_height_le_eq_nil hheights (by omega), List.append_nil]
      · refine List.flatMap_congr fun k hk => ?_
        have hb := mem_range'_bounds hk
        rw [List.filter_cons_of_pos (by simp only [decide_eq_true_eq]; omega),
          List.append_assoc, List.singleton_append]

end Loops

/-! ## The writes of a run keep the map repaired -/

section Writes

variable {keyHeight} {c : ℕ} {T : List (κ × V)}

omit [LinearOrder κ]

@[simp] lemma applyWrites_append (s : RepairState Hash) (ws ws' : List (RepairWrite Hash)) :
    applyWrites s (ws ++ ws') = applyWrites (applyWrites s ws) ws' :=
  List.foldl_append

/-- A list of writes that ends with a commit leaves that commit's root at its height and its
height as the marker, whatever came before. -/
lemma applyWrites_append_commitWrites (s : RepairState Hash) (ws : List (RepairWrite Hash))
    (k : ℕ) (root : Hash) :
    (applyWrites s (ws ++ commitWrites k root)).atomicTrie.heightMap k = some root ∧
      (applyWrites s (ws ++ commitWrites k root)).heightMapRepair = some k := by
  simp [commitWrites, RepairWrite.apply]

lemma repairedWrites_succ (lo n : ℕ) :
    repairedWrites keyHeight rootOf c T lo (n + 1) =
      commitWrites (lo + c) (rootOf (leavesUpTo keyHeight T (lo + c))) ++
        repairedWrites keyHeight rootOf c T (lo + c) n := by
  rw [repairedWrites, List.range'_succ, List.flatMap_cons]
  rfl

/-- Writing the right root at a height keeps every right entry. -/
lemma repairedUpTo_putRoot {s : RepairState Hash} {m : ℕ} (k : ℕ)
    (h : RepairedUpTo keyHeight rootOf c T s m) :
    RepairedUpTo keyHeight rootOf c T
      ((RepairWrite.putRoot k (rootOf (leavesUpTo keyHeight T k))).apply s) m := by
  intro k' hk' hpos hle
  by_cases hkk : k' = k
  · subst hkk
    simp [RepairWrite.apply]
  · simp only [RepairWrite.apply, Function.update_of_ne hkk]
    exact h k' hk' hpos hle

lemma markerSound_putRoot {s : RepairState Hash} (k : ℕ)
    (hs : MarkerSound keyHeight rootOf c T s) :
    MarkerSound keyHeight rootOf c T
      ((RepairWrite.putRoot k (rootOf (leavesUpTo keyHeight T k))).apply s) := by
  intro m hm
  obtain ⟨hdvd, hbound, hrep⟩ := hs m hm
  exact ⟨hdvd, hbound, repairedUpTo_putRoot rootOf k hrep⟩

/-- The commit of `lo + c` extends a map repaired up to `lo` to one repaired up to `lo + c`:
there is no commit height in between. -/
lemma repairedUpTo_commit {s : RepairState Hash} {lo : ℕ} (hlo : c ∣ lo)
    (h : RepairedUpTo keyHeight rootOf c T s lo) :
    RepairedUpTo keyHeight rootOf c T
      (applyWrites s (commitWrites (lo + c) (rootOf (leavesUpTo keyHeight T (lo + c)))))
      (lo + c) := by
  intro k hk hpos hle
  rcases Nat.lt_or_ge lo k with hlt | hge
  · have hk_eq : k = lo + c := by
      have := AtomicTrie.add_le_of_dvd_of_lt hlo hk hlt
      omega
    subst hk_eq
    simp [commitWrites, RepairWrite.apply]
  · exact repairedUpTo_putRoot rootOf (lo + c) h k hk hpos hge

/-- A complete run of the right writes repairs the map up to its last commit height. -/
lemma repairedUpTo_applyWrites_repairedWrites :
    ∀ (n lo : ℕ) (s : RepairState Hash), c ∣ lo → RepairedUpTo keyHeight rootOf c T s lo →
      RepairedUpTo keyHeight rootOf c T
        (applyWrites s (repairedWrites keyHeight rootOf c T lo n)) (lo + c * n)
  | 0, lo, s, _, h => by simpa [repairedWrites] using h
  | n + 1, lo, s, hlo, h => by
    rw [repairedWrites_succ, applyWrites_append, show lo + c * (n + 1) = lo + c + c * n by ring]
    exact repairedUpTo_applyWrites_repairedWrites n (lo + c) _ (dvd_add hlo dvd_rfl)
      (repairedUpTo_commit rootOf hlo h)

/-- Every prefix of the right writes, up to a height at least the interval below `2^64`, keeps
the marker sound: the marker is written after the root of its height, and the heights come in
increasing order. -/
lemma markerSound_applyWrites_take :
    ∀ (n lo : ℕ) (s : RepairState Hash) (j : ℕ), c ∣ lo → lo + c * n + c < 2 ^ 64 →
      RepairedUpTo keyHeight rootOf c T s lo → MarkerSound keyHeight rootOf c T s →
      MarkerSound keyHeight rootOf c T
        (applyWrites s ((repairedWrites keyHeight rootOf c T lo n).take j))
  | 0, lo, s, j, _, _, _, hs => by simpa [repairedWrites] using hs
  | n + 1, lo, s, 0, _, _, _, hs => by simpa using hs
  | n + 1, lo, s, 1, _, _, _, hs => by
    -- stopped between the root and the marker
    simpa [repairedWrites_succ, commitWrites] using markerSound_putRoot rootOf (lo + c) hs
  | n + 1, lo, s, j + 2, hlo, hbound, h, hs => by
    have hnext := repairedUpTo_commit rootOf hlo h
    have hbound' : lo + c + c * n + c < 2 ^ 64 := by rw [mul_add_one] at hbound; omega
    rw [repairedWrites_succ, commitWrites, List.cons_append, List.cons_append, List.nil_append,
      List.take_succ_cons, List.take_succ_cons, applyWrites_cons, applyWrites_cons]
    refine markerSound_applyWrites_take n (lo + c) _ j (dvd_add hlo dvd_rfl) hbound' hnext ?_
    intro m hm
    -- the marker just written is `lo + c`
    simp only [RepairWrite.apply, Option.some.injEq] at hm
    subst hm
    exact ⟨dvd_add hlo dvd_rfl, by omega, hnext⟩

end Writes

/-! ## Runs -/

section Runs

variable {keyHeight} {emptyRootHash : Hash}

lemma repairStart_eq_none {s : RepairState Hash} :
    repairStart s = none ↔ s.heightMapRepair = some repairDone := by
  unfold repairStart
  cases s.heightMapRepair with
  | none => simp
  | some m => by_cases hm : m = repairDone <;> simp [hm]

/-- Where a run starts, at least the interval below `2^64`, the map is repaired and the hasher
holds the leaves up to there. -/
lemma repairStart_spec (hopen : ∀ S, SortedMap.Sorted S → (openTrie (rootOf S)).1 = S)
    (hempty : rootOf [] = emptyRootHash) {c : ℕ} (hc64 : c < 2 ^ 64) {T : List (κ × V)}
    (hT : SortedMap.Sorted T) {s : RepairState Hash} (hs : MarkerSound keyHeight rootOf c T s)
    {repairFrom : ℕ} (hstart : repairStart s = some repairFrom) :
    c ∣ repairFrom ∧ repairFrom + c < 2 ^ 64 ∧ RepairedUpTo keyHeight rootOf c T s repairFrom ∧
      openHasher openTrie emptyRootHash s.atomicTrie repairFrom =
        leavesUpTo keyHeight T repairFrom := by
  have hrep : c ∣ repairFrom ∧ repairFrom + c < 2 ^ 64 ∧
      RepairedUpTo keyHeight rootOf c T s repairFrom := by
    unfold repairStart at hstart
    cases hm : s.heightMapRepair with
    | none =>
      -- no marker: the run starts at `0`, below every commit height
      rw [hm, Option.some.injEq] at hstart
      subst hstart
      exact ⟨dvd_zero c, by omega, fun k _ hpos hle => absurd hle (by omega)⟩
    | some m =>
      by_cases hdone : m = repairDone
      · simp [hm, hdone] at hstart
      · simp only [hm, hdone, if_false, Option.some.injEq] at hstart
        subst hstart
        exact hs m hm
  obtain ⟨hdvd, hfrom, hrepaired⟩ := hrep
  refine ⟨hdvd, hfrom, hrepaired, ?_⟩
  unfold openHasher AtomicTrie.getRoot
  by_cases h0 : repairFrom = 0
  · rw [if_pos h0, h0, leavesUpTo_zero, ← hempty]
    exact hopen [] List.Pairwise.nil
  · rw [if_neg h0, hrepaired repairFrom hdvd (Nat.pos_of_ne_zero h0) le_rfl]
    exact hopen _ (sorted_leavesUpTo hT repairFrom)

/-- A run from a state where the hasher holds the leaves up to its start, with the start and `to`
at least the interval below `2^64`, makes the right writes and returns. -/
lemma repairWrites_eq (hopen : ∀ S, SortedMap.Sorted S → (openTrie (rootOf S)).1 = S)
    (hmono : Monotone keyHeight) (a : AtomicTrie Hash) (repairFrom toHeight : ℕ)
    (hfrom : repairFrom + a.commitInterval < 2 ^ 64) (hto : toHeight + a.commitInterval < 2 ^ 64)
    (hstart : openHasher openTrie emptyRootHash a repairFrom =
      leavesUpTo keyHeight (openTrie a.lastCommittedRoot).1 repairFrom) :
    repairWrites keyHeight rootOf openTrie emptyRootHash a repairFrom toHeight =
      (repairedWrites keyHeight rootOf a.commitInterval (openTrie a.lastCommittedRoot).1 repairFrom
        ((toHeight - repairFrom) / a.commitInterval), true) := by
  have hT := (openTrie a.lastCommittedRoot).2
  simp only [repairWrites, hstart]
  rw [repairLoops_eq rootOf openTrie a.commitInterval_pos hopen hmono hto _ _ _
    (sorted_leavesUpTo_append_dropWhile hmono hT repairFrom)
    (lt_height_of_mem_dropWhile hmono hT) hfrom]
  refine Prod.ext ?_ rfl
  refine List.flatMap_congr fun k hk => ?_
  have := (lt_and_le_of_mem_commitHeights a.commitInterval_pos hk).1
  rw [leavesUpTo_append_dropWhile hmono this.le hT]

@[simp] lemma repairHeightMapStopped_commitInterval (s : RepairState Hash) (toHeight j : ℕ) :
    (repairHeightMapStopped keyHeight rootOf openTrie emptyRootHash s toHeight j).atomicTrie.commitInterval =
      s.atomicTrie.commitInterval := by
  unfold repairHeightMapStopped
  split <;> simp

@[simp] lemma repairHeightMapStopped_lastCommittedRoot (s : RepairState Hash) (toHeight j : ℕ) :
    (repairHeightMapStopped keyHeight rootOf openTrie emptyRootHash s toHeight j).atomicTrie.lastCommittedRoot =
      s.atomicTrie.lastCommittedRoot := by
  unfold repairHeightMapStopped
  split <;> simp

variable (hopen : ∀ S, SortedMap.Sorted S → (openTrie (rootOf S)).1 = S)
  (hempty : rootOf [] = emptyRootHash) (hmono : Monotone keyHeight)
include hopen hempty hmono

/-- A stopped run to a height at least the interval below `2^64` keeps the marker sound. -/
lemma markerSound_repairHeightMapStopped (s : RepairState Hash)
    (hs : MarkerSound keyHeight rootOf s.atomicTrie.commitInterval
      (openTrie s.atomicTrie.lastCommittedRoot).1 s) (toHeight j : ℕ)
    (hto : toHeight + s.atomicTrie.commitInterval < 2 ^ 64) :
    MarkerSound keyHeight rootOf s.atomicTrie.commitInterval
      (openTrie s.atomicTrie.lastCommittedRoot).1
      (repairHeightMapStopped keyHeight rootOf openTrie emptyRootHash s toHeight j) := by
  unfold repairHeightMapStopped
  cases hstart : repairStart s with
  | none => exact hs
  | some repairFrom =>
    obtain ⟨hdvd, hfrom, hrep, hhasher⟩ :=
      repairStart_spec rootOf openTrie hopen hempty (by omega)
        (openTrie s.atomicTrie.lastCommittedRoot).2 hs hstart
    -- the run commits up to `max from to`, which lies at least the interval below `2^64`
    have hbound : repairFrom + s.atomicTrie.commitInterval *
        ((toHeight - repairFrom) / s.atomicTrie.commitInterval) +
          s.atomicTrie.commitInterval < 2 ^ 64 := by
      have := Nat.mul_div_le (toHeight - repairFrom) s.atomicTrie.commitInterval
      omega
    dsimp only
    rw [repairWrites_eq rootOf openTrie hopen hmono _ _ _ hfrom hto hhasher]
    exact markerSound_applyWrites_take rootOf _ _ _ _ hdvd hbound hrep hs

/-- The run lemma: any sequence of stopped runs, to heights at least the interval below `2^64`,
keeps the marker sound. -/
lemma markerSound_repairHeightMapStoppedRuns :
    ∀ (stopped : List (ℕ × ℕ)) (s : RepairState Hash),
      (∀ r ∈ stopped, r.1 + s.atomicTrie.commitInterval < 2 ^ 64) →
      MarkerSound keyHeight rootOf s.atomicTrie.commitInterval
        (openTrie s.atomicTrie.lastCommittedRoot).1 s →
      let s' := repairHeightMapStoppedRuns keyHeight rootOf openTrie emptyRootHash s stopped
      s'.atomicTrie.commitInterval = s.atomicTrie.commitInterval ∧
        s'.atomicTrie.lastCommittedRoot = s.atomicTrie.lastCommittedRoot ∧
        MarkerSound keyHeight rootOf s.atomicTrie.commitInterval
          (openTrie s.atomicTrie.lastCommittedRoot).1 s'
  | [], s, _, hs => ⟨rfl, rfl, hs⟩
  | r :: stopped, s, hstopped, hs => by
    have hstep := markerSound_repairHeightMapStopped rootOf openTrie hopen hempty hmono s hs r.1
      r.2 (hstopped r List.mem_cons_self)
    have hrest : ∀ r' ∈ stopped, r'.1 + (repairHeightMapStopped keyHeight rootOf openTrie
        emptyRootHash s r.1 r.2).atomicTrie.commitInterval < 2 ^ 64 := by
      rw [repairHeightMapStopped_commitInterval]
      exact fun r' hr' => hstopped r' (List.mem_cons_of_mem _ hr')
    obtain ⟨hc, hroot, hsound⟩ := markerSound_repairHeightMapStoppedRuns stopped
      (repairHeightMapStopped keyHeight rootOf openTrie emptyRootHash s r.1 r.2) hrest (by
      rwa [repairHeightMapStopped_commitInterval, repairHeightMapStopped_lastCommittedRoot])
    simp only [repairHeightMapStopped_commitInterval,
      repairHeightMapStopped_lastCommittedRoot] at hc hroot hsound
    exact ⟨hc, hroot, hsound⟩

/-- Height-map repair is correct and resumable: from a database without a marker, after any
number of runs stopped after any of their writes and one run that completes, all to heights at
least the interval below `2^64`, the last run returns, and the height map at every commit height
`k ≤ to` holds the root of the last committed trie's leaves of height in `[1, k]`. -/
theorem repairHeightMapRuns_heightMap (s : RepairState Hash) (hs : s.heightMapRepair = none)
    (stopped : List (ℕ × ℕ))
    (hstopped : ∀ r ∈ stopped, r.1 + s.atomicTrie.commitInterval < 2 ^ 64) (toHeight : ℕ)
    (hto : toHeight + s.atomicTrie.commitInterval < 2 ^ 64) :
    ∃ ran s', repairHeightMapRuns keyHeight rootOf openTrie emptyRootHash s stopped toHeight =
        some (ran, s') ∧
      ∀ k, s.atomicTrie.commitInterval ∣ k → 0 < k → k ≤ toHeight →
        s'.atomicTrie.heightMap k =
          some (rootOf (leavesUpTo keyHeight (openTrie s.atomicTrie.lastCommittedRoot).1 k)) := by
  obtain ⟨hc, hroot, hsound⟩ := markerSound_repairHeightMapStoppedRuns rootOf openTrie hopen
    hempty hmono stopped s hstopped (fun m hm => by simp [hs] at hm)
  unfold repairHeightMapRuns RepairHeightMap
  set s₁ := repairHeightMapStoppedRuns keyHeight rootOf openTrie emptyRootHash s stopped
  cases hstart : repairStart s₁ with
  | none =>
    -- a sound marker lies at least the interval below `2^64`, so it is never `repairDone`
    have hdone := (hsound repairDone (repairStart_eq_none.1 hstart)).2.1
    have := s.atomicTrie.commitInterval_pos
    simp only [repairDone] at hdone
    omega
  | some repairFrom =>
    have hT := (openTrie s.atomicTrie.lastCommittedRoot).2
    obtain ⟨hdvd, hfrom, hrep, hhasher⟩ :=
      repairStart_spec rootOf openTrie hopen hempty (by omega) hT hsound hstart
    have hwrites := repairWrites_eq rootOf openTrie hopen hmono s₁.atomicTrie repairFrom toHeight
      (by rw [hc]; exact hfrom) (by rw [hc]; exact hto) (by rw [hhasher, hroot])
    rw [hc, hroot] at hwrites
    have hfinal := repairedUpTo_applyWrites_repairedWrites rootOf
      ((toHeight - repairFrom) / s.atomicTrie.commitInterval) repairFrom s₁ hdvd hrep
    refine ⟨true, _, by simp only [repairHeightMap, hwrites, if_true, Option.map_some]; rfl,
      fun k hk hpos hle => ?_⟩
    -- every commit height up to `to` is at most the last one the run commits
    have hk_le : k ≤ repairFrom + s.atomicTrie.commitInterval *
        ((toHeight - repairFrom) / s.atomicTrie.commitInterval) := by
      rcases Nat.lt_or_ge repairFrom k with hlt | hge
      · have := AtomicTrie.le_div_mul_of_dvd (Nat.dvd_sub hk hdvd)
          (Nat.sub_le_sub_right hle repairFrom)
        rw [Nat.mul_comm]
        omega
      · omega
    exact hfinal k hk hpos hk_le

end Runs

end Repair

/-- Roots of the samples are the leaf lists themselves: a sorted list opens as itself. -/
def sampleOpenTrie (root : List (ℕ × ℕ)) : {l : List (ℕ × ℕ) // SortedMap.Sorted l} :=
  if h : SortedMap.Sorted root then ⟨root, h⟩ else ⟨[], List.Pairwise.nil⟩

lemma sampleOpenTrie_id (S : List (ℕ × ℕ)) (hS : SortedMap.Sorted S) :
    (sampleOpenTrie (id S)).1 = S := by
  rw [id, sampleOpenTrie, dif_pos hS]

/-- Commit interval 4, a last committed trie with leaves at heights 0, 3 and 6 of one
blockchain (keys are heights), and no repair marker. -/
def sampleRepairState : RepairState (List (ℕ × ℕ)) :=
  ⟨⟨4, AtomicTrie.sampleTrie.commitInterval_pos, [(0, 7), (3, 8), (6, 9)], 8,
    [(0, 7), (3, 8), (6, 9)], fun _ => none⟩, none⟩

/-- A run to height 8 stopped after three writes, then a complete run to height 8. -/
theorem repairHeightMapRuns_heightMap_sample :
    (∀ S, SortedMap.Sorted S → (sampleOpenTrie (id S)).1 = S) ∧ id [] = ([] : List (ℕ × ℕ)) ∧
      Monotone (id : ℕ → ℕ) ∧ sampleRepairState.heightMapRepair = none ∧
      (∀ r ∈ [(8, 3)], r.1 + sampleRepairState.atomicTrie.commitInterval < 2 ^ 64) ∧
      8 + sampleRepairState.atomicTrie.commitInterval < 2 ^ 64 ∧
      ∃ ran s', repairHeightMapRuns id id sampleOpenTrie [] sampleRepairState [(8, 3)] 8 =
          some (ran, s') ∧
        ∀ k, sampleRepairState.atomicTrie.commitInterval ∣ k → 0 < k → k ≤ 8 →
          s'.atomicTrie.heightMap k =
            some (id (leavesUpTo id (sampleOpenTrie sampleRepairState.atomicTrie.lastCommittedRoot).1 k)) :=
  ⟨sampleOpenTrie_id, rfl, monotone_id, rfl, by decide, by decide,
    repairHeightMapRuns_heightMap id sampleOpenTrie sampleOpenTrie_id rfl monotone_id
      sampleRepairState rfl [(8, 3)] (by decide) 8 (by decide)⟩

/-- A leaf at height 0 is never hashed: a complete repair from scratch writes at commit height 4
the root of the height-3 leaf alone, though the leaves of height at most 4 include the height-0
leaf. -/
theorem repairHeightMap_skips_height_zero_leaf :
    (RepairHeightMap id id sampleOpenTrie [] sampleRepairState 8).map
        (fun r => r.2.atomicTrie.heightMap 4) = some (some [(3, 8)]) ∧
      sampleRepairState.atomicTrie.lastCommittedRoot.filter (fun l => l.1 ≤ 4) =
        [(0, 7), (3, 8)] :=
  ⟨by decide, by decide⟩

lemma wrapRepairInterval_pos : 0 < 5 := by decide

/-- Commit interval 5, a last committed trie with leaves at heights 3 and 7, and no marker. -/
def wrapRepairState : RepairState (List (ℕ × ℕ)) :=
  ⟨⟨5, wrapRepairInterval_pos, [(3, 8), (7, 9)], 7, [(3, 8), (7, 9)], fun _ => none⟩, none⟩

/-- A repair from scratch to `2^64 - 1`: the leaf loop commits height 5, and the tail loop from
10 never ends, since every height passes `next <= to`. -/
lemma repairWrites_wrapRepairState :
    repairWrites id id sampleOpenTrie [] wrapRepairState.atomicTrie 0 (2 ^ 64 - 1) =
      (commitWrites 5 [(3, 8)] ++ (List.range (2 ^ 64)).flatMap fun i =>
        commitWrites ((10 + 5 * i) % 2 ^ 64) [(3, 8), (7, 9)], false) := by
  have hwrites : repairWrites id id sampleOpenTrie [] wrapRepairState.atomicTrie 0 (2 ^ 64 - 1) =
      repairLoops id id sampleOpenTrie 5 (2 ^ 64 - 1) [(3, 8), (7, 9)] [] 0 := rfl
  have hleaves : repairLeaves id id sampleOpenTrie 5 (2 ^ 64 - 1) [(3, 8), (7, 9)] [] 0 =
      (commitWrites 5 [(3, 8)], some ([(3, 8), (7, 9)], 5)) := rfl
  have htail : commitLoop id sampleOpenTrie 5 (2 ^ 64) (2 ^ 64) 10 [(3, 8), (7, 9)] 5 =
      ((List.range (2 ^ 64)).flatMap fun i =>
        commitWrites ((10 + 5 * i) % 2 ^ 64) [(3, 8), (7, 9)], none) :=
    commitLoop_top id sampleOpenTrie rfl (2 ^ 64) 10 5 (by decide)
  rw [hwrites, repairLoops_of_repairLeaves id sampleOpenTrie hleaves,
    Nat.sub_add_cancel Nat.one_le_two_pow, show (5 + 5) % 2 ^ 64 = 10 by norm_num, htail]
  dsimp only [Option.isSome_none]

/-- The run to `2^64 - 1`, stopped after its first `2^65 + 2` writes, makes the leaf loop's commit
and `2^64` iterations of the tail loop, the last of which has wrapped back to height 5. -/
lemma repairHeightMapStoppedRuns_wrapRepairState :
    repairHeightMapStoppedRuns id id sampleOpenTrie [] wrapRepairState [(2 ^ 64 - 1, 2 ^ 65 + 2)] =
      applyWrites wrapRepairState (commitWrites 5 [(3, 8)] ++
        (List.range (2 ^ 64 - 1)).flatMap (fun i => commitWrites ((10 + 5 * i) % 2 ^ 64)
          [(3, 8), (7, 9)]) ++ commitWrites 5 [(3, 8), (7, 9)]) := by
  -- the last iteration of the tail loop commits at `(10 + 5 (2^64 - 1)) % 2^64 = 5`
  have hsucc : ∀ n (f : ℕ → List (RepairWrite (List (ℕ × ℕ)))),
      (List.range (n + 1)).flatMap f = (List.range n).flatMap f ++ f n := fun n f => by
    rw [List.range_succ, List.flatMap_append, List.flatMap_singleton]
  have hlast := hsucc (2 ^ 64 - 1)
    (fun i => commitWrites ((10 + 5 * i) % 2 ^ 64) ([(3, 8), (7, 9)] : List (ℕ × ℕ)))
  rw [Nat.sub_add_cancel Nat.one_le_two_pow,
    show (10 + 5 * (2 ^ 64 - 1)) % 2 ^ 64 = 5 by norm_num] at hlast
  -- the stop comes after every write the run lists
  have hlen : ∀ n, ((List.range n).flatMap fun i =>
      commitWrites ((10 + 5 * i) % 2 ^ 64) ([(3, 8), (7, 9)] : List (ℕ × ℕ))).length = 2 * n :=
    fun n => by simp [commitWrites, mul_comm]
  have hlenAll : (commitWrites 5 [(3, 8)] ++ (List.range (2 ^ 64)).flatMap fun i =>
      commitWrites ((10 + 5 * i) % 2 ^ 64) ([(3, 8), (7, 9)] : List (ℕ × ℕ))).length =
        2 + 2 * 2 ^ 64 := by
    rw [List.length_append, hlen]
    rfl
  have hstart : repairStart wrapRepairState = some 0 := rfl
  rw [repairHeightMapStoppedRuns, List.foldl_cons, List.foldl_nil, repairHeightMapStopped, hstart]
  dsimp only
  rw [repairWrites_wrapRepairState, List.take_of_length_le (by rw [hlenAll]; norm_num), hlast,
    List.append_assoc]

/-- A run to `2^64 - 1`, stopped after all the writes of its first `2^64` tail iterations, wraps
past `2^64` and commits height 5 again, with the hasher holding both leaves; the complete run to
8 that follows resumes from the marker 5 and leaves that root there, though only the leaf at
height 3 lies at or below 5. -/
theorem repairHeightMap_wraps_to_first_commit :
    ∃ ran s', repairHeightMapRuns id id sampleOpenTrie [] wrapRepairState
        [(2 ^ 64 - 1, 2 ^ 65 + 2)] 8 = some (ran, s') ∧
      s'.atomicTrie.heightMap 5 = some [(3, 8), (7, 9)] ∧
      leavesUpTo id wrapRepairState.atomicTrie.lastCommittedRoot 5 = [(3, 8)] := by
  -- the stopped run makes every write it lists; the last two commit height 5 again
  obtain ⟨s₁, hs₁⟩ : ∃ s₁, s₁ = repairHeightMapStoppedRuns id id sampleOpenTrie [] wrapRepairState
      [(2 ^ 64 - 1, 2 ^ 65 + 2)] := ⟨_, rfl⟩
  have hs₁' := hs₁.trans repairHeightMapStoppedRuns_wrapRepairState
  obtain ⟨hmap, hmarker⟩ := applyWrites_append_commitWrites wrapRepairState _ 5 [(3, 8), (7, 9)]
  rw [← hs₁'] at hmap hmarker
  -- the complete run resumes at 5, opens the hasher at the root written there, and writes
  -- nothing, since the next commit height 10 lies above 8
  have hstart : repairStart s₁ = some 5 := by simp [repairStart, hmarker, repairDone]
  have hhasher : openHasher sampleOpenTrie [] s₁.atomicTrie 5 = [(3, 8), (7, 9)] := by
    simp only [openHasher, AtomicTrie.getRoot, hmap]
    rfl
  have hci : s₁.atomicTrie.commitInterval = 5 := by
    rw [hs₁', applyWrites_commitInterval]
    rfl
  have hroot : s₁.atomicTrie.lastCommittedRoot = [(3, 8), (7, 9)] := by
    rw [hs₁', applyWrites_lastCommittedRoot]
    rfl
  have hwrites : repairWrites id id sampleOpenTrie [] s₁.atomicTrie 5 8 = ([], true) := by
    simp only [repairWrites, hhasher, hci, hroot]
    rfl
  refine ⟨true, { applyWrites s₁ [] with heightMapRepair := some repairDone }, ?_, hmap,
    by decide⟩
  rw [repairHeightMapRuns, ← hs₁, RepairHeightMap, hstart]
  simp only [repairHeightMap, hwrites, if_true, Option.map_some]

end Jeth
