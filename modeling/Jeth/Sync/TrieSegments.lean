import Jeth.Lib.SortedMap

/-!
# Hashing the segments of a trie in key order

State sync may split a trie into segments (`sync/statesync/trie_segments.go`) that are fetched
concurrently and finish in any order. Each finished segment calls `trieToSync.segmentFinished`,
which, under the trie's lock, marks it done and then hashes every done segment from
`segmentToHashNext` on, in index order, stopping at the first that is not done. Hashing a
segment gives the leaves the snapshot holds from the segment's start to its end, in key order,
to the trie's `StackTrie`. When the last segment is hashed the stack trie is committed and its
root compared with the trie's.

The whole of `segmentFinished` runs under the lock, so concurrent calls take effect one after
the other, in some order: a run is a list of calls. Each call sees the snapshot as it is then,
since unfinished segments are still writing their leaves. The model takes the keys of any
linear order (the source's keys are hashes, compared by `bytes.Compare`) and records what the
stack trie is given (`stackTrie`) and what it held at each `Commit` (`commits`). Writing
batches, `ClearSyncSegments` and `OnFinish` are left out, and the context never expires.

The main result, `segmentFinished_hashes_in_key_order`: for segments that partition the keys
and any order in which each segment finishes once, where each call sees a snapshot that agrees
with a final snapshot `S` on the segments finished so far, the stack trie is given exactly the
leaves of `S`, in key order; it is committed once, at the last call; and `segmentToHashNext`
never passes a segment that is not done.
-/

namespace Jeth

/-- The key range of a `trieSegment`, from `start` to `end` inclusive. A `none` start is the
first key (`common.BytesToHash(nil)` is the zero hash), a `none` end no bound. -/
structure SegmentRange (κ : Type) where
  start : Option κ
  endKey : Option κ

namespace SegmentRange

variable {κ : Type} [LinearOrder κ]

/-- Whether the segment's range holds a key. -/
def contains (s : SegmentRange κ) (k : κ) : Bool :=
  s.start.all (· ≤ k) && s.endKey.all (k ≤ ·)

end SegmentRange

/-- Segments partition the keys: the keys of a segment lie below those of every later one, and
each key lies in some segment. -/
structure IsPartition {κ : Type} [LinearOrder κ] (segments : List (SegmentRange κ)) : Prop where
  ordered : segments.Pairwise fun s s' => ∀ k k', s.contains k → s'.contains k' → k < k'
  covers : ∀ k, ∃ s ∈ segments, s.contains k

/-- The fields of `trieToSync` that `segmentFinished` reads and writes. `stackTrie` is the list
of leaves given to `stackTrie.Update`, in order, and `commits` what the stack trie had been
given at each `stackTrie.Commit()`. -/
structure TrieToSync (κ ν Hash : Type) where
  root : Hash
  account : Hash
  segments : List (SegmentRange κ)
  segmentsDone : Finset ℕ
  segmentToHashNext : ℕ
  stackTrie : List (κ × ν)
  commits : List (List (κ × ν))

variable {κ ν Hash : Type} [LinearOrder κ]

/-- `task.IterateLeafs(seek)`: the snapshot's leaves from `seek` on, in key order. -/
def IterateLeafs (snapshot : List (κ × ν)) (seek : Option κ) : List (κ × ν) :=
  snapshot.dropWhile fun leaf => seek.any (leaf.1 < ·)

/-- The leaves hashing a segment gives the stack trie: those from its start on, until the first
past its end. -/
def segmentLeafs (snapshot : List (κ × ν)) (segment : SegmentRange κ) : List (κ × ν) :=
  (IterateLeafs snapshot segment.start).takeWhile fun leaf => !segment.endKey.any (· < leaf.1)

/-- The loop of `segmentFinished`: from the segment at `segmentToHashNext`, hash each segment
that is done, and stop at the first that is not. It returns the new `segmentToHashNext` and
the leaves given to the stack trie. -/
def hashLoop (snapshot : List (κ × ν)) (segmentsDone : Finset ℕ) :
    ℕ → List (SegmentRange κ) → ℕ × List (κ × ν)
  | segmentToHashNext, [] => (segmentToHashNext, [])
  | segmentToHashNext, segment :: segments =>
    if segmentToHashNext ∈ segmentsDone then
      let (next, leafs) := hashLoop snapshot segmentsDone (segmentToHashNext + 1) segments
      (next, segmentLeafs snapshot segment ++ leafs)
    else (segmentToHashNext, [])

namespace TrieToSync

variable [ToString Hash] [DecidableEq Hash] (stackTrieRoot : List (κ × ν) → Hash)

/-- `segmentFinished(ctx, idx)`, with the snapshot as the call sees it. `stackTrieRoot` is the
root `stackTrie.Commit()` computes from the leaves it was given. -/
def segmentFinished (snapshot : List (κ × ν)) (t : TrieToSync κ ν Hash) (idx : ℕ) :
    Except String Unit × TrieToSync κ ν Hash :=
  let segmentsDone := insert idx t.segmentsDone
  let (segmentToHashNext, leafs) :=
    hashLoop snapshot segmentsDone t.segmentToHashNext (t.segments.drop t.segmentToHashNext)
  let t := { t with segmentsDone, segmentToHashNext, stackTrie := t.stackTrie ++ leafs }
  if segmentToHashNext < t.segments.length then (.ok (), t)
  else
    let t := { t with commits := t.commits ++ [t.stackTrie] }
    let actualRoot := stackTrieRoot t.stackTrie
    if actualRoot ≠ t.root then
      (.error ("unexpected root, expected=" ++ toString t.root ++ ", actual=" ++
        toString actualRoot ++ ", account=" ++ toString t.account), t)
    else (.ok (), t)

/-- The state after a sequence of calls, each with the index of the segment that finished and
the snapshot it sees. -/
def run (t : TrieToSync κ ν Hash) (calls : List (ℕ × List (κ × ν))) : TrieToSync κ ν Hash :=
  calls.foldl (fun t call => (t.segmentFinished stackTrieRoot call.2 call.1).2) t

end TrieToSync


/-! ## What hashing a segment gives the stack trie -/

section Leafs

/-- On a snapshot in key order, hashing a segment gives the leaves in its range. -/
theorem segmentLeafs_eq_filter {snapshot : List (κ × ν)} (hsorted : SortedMap.Sorted snapshot)
    (segment : SegmentRange κ) :
    segmentLeafs snapshot segment = snapshot.filter fun leaf => segment.contains leaf.1 := by
  have hfrom : ∀ k k' : κ, k < k' → segment.start.any (k' < ·) → segment.start.any (k < ·) := by
    intro k k' hlt h
    cases hs : segment.start <;> simp_all [lt_trans hlt]
  have hto : ∀ k k' : κ, k < k' → !segment.endKey.any (· < k') → !segment.endKey.any (· < k) := by
    intro k k' hlt h
    cases he : segment.endKey <;> simp_all
    exact (hlt.trans_le h).le
  unfold segmentLeafs IterateLeafs
  rw [SortedMap.dropWhile_eq_filter_of_lt hfrom hsorted,
    SortedMap.takeWhile_eq_filter_of_lt hto (List.Pairwise.filter _ hsorted), List.filter_filter]
  congr
  funext leaf
  cases hs : segment.start <;> cases he : segment.endKey <;>
    simp [SegmentRange.contains, hs, he, ← not_le, Bool.and_comm]

/-- Over segments whose ranges lie one below the other, hashing each in turn gives the leaves
of a sorted snapshot that lie in some segment. -/
theorem flatMap_filter_eq_filter_any {S : List (κ × ν)} (hS : SortedMap.Sorted S) :
    ∀ {segments : List (SegmentRange κ)},
      segments.Pairwise (fun s s' => ∀ k k', s.contains k → s'.contains k' → k < k') →
      segments.flatMap (fun s => S.filter fun leaf => s.contains leaf.1) =
        S.filter fun leaf => segments.any fun s => s.contains leaf.1
  | [], _ => by simp
  | s :: segments, h => by
    rw [List.pairwise_cons] at h
    rw [List.flatMap_cons, flatMap_filter_eq_filter_any hS h.2]
    simp only [List.any_cons]
    -- the first segment's keys lie below those of every later one
    have hbelow : ∀ k k', s.contains k → (segments.any fun s => s.contains k') → k < k' := by
      intro k k' hk hk'
      obtain ⟨s', hs', hk''⟩ := List.any_eq_true.mp hk'
      exact h.1 s' hs' k k' hk hk''
    exact (@SortedMap.filter_or_eq_append κ ν _ s.contains
      (fun k => segments.any fun s => s.contains k) hbelow S hS).symm

/-- Hashing all segments of a partition gives every leaf of a sorted snapshot. -/
theorem flatMap_segmentLeafs_of_isPartition {S : List (κ × ν)} (hS : SortedMap.Sorted S)
    {segments : List (SegmentRange κ)} (hpart : IsPartition segments) :
    segments.flatMap (segmentLeafs S) = S := by
  rw [List.flatMap_congr fun s _ => segmentLeafs_eq_filter hS s,
    flatMap_filter_eq_filter_any hS hpart.ordered, List.filter_eq_self]
  intro leaf _
  obtain ⟨s, hs, hk⟩ := hpart.covers leaf.1
  exact List.any_eq_true.mpr ⟨s, hs, hk⟩

end Leafs

/-! ## The loop -/

section Loop

variable {snapshot : List (κ × ν)} {segmentsDone : Finset ℕ}

/-- The loop stops at the first segment from `next` on that is not done, and gives the stack
trie the leaves of the segments before it. -/
theorem hashLoop_spec (snapshot : List (κ × ν)) (segmentsDone : Finset ℕ) :
    ∀ (next : ℕ) (segments : List (SegmentRange κ)), ∃ next',
      hashLoop snapshot segmentsDone next segments =
          (next', (segments.take (next' - next)).flatMap (segmentLeafs snapshot)) ∧
        next ≤ next' ∧ next' ≤ next + segments.length ∧
        (∀ i, next ≤ i → i < next' → i ∈ segmentsDone) ∧
        (next' < next + segments.length → next' ∉ segmentsDone)
  | next, [] => ⟨next, by simp [hashLoop], le_rfl, by simp, fun i hi hi' => by omega, by simp⟩
  | next, segment :: segments => by
    by_cases hnext : next ∈ segmentsDone
    · obtain ⟨next', hloop, hle, hge, hdone, hstop⟩ :=
        hashLoop_spec snapshot segmentsDone (next + 1) segments
      refine ⟨next', ?_, by omega, by simp; omega, fun i hi hi' => ?_, fun h => hstop (by simp at h; omega)⟩
      · have htake : next' - next = next' - (next + 1) + 1 := by omega
        simp [hashLoop, hnext, hloop, htake]
      · rcases Nat.eq_or_lt_of_le hi with rfl | hi
        · exact hnext
        · exact hdone i hi hi'
    · exact ⟨next, by simp [hashLoop, hnext], le_rfl, by simp, fun i hi hi' => by omega,
        fun _ => hnext⟩

/-- The loop reads the snapshot only in the ranges of done segments. -/
theorem hashLoop_congr {snapshot' : List (κ × ν)} :
    ∀ (next : ℕ) (segments : List (SegmentRange κ)),
      (∀ j s, segments[j]? = some s → next + j ∈ segmentsDone →
        segmentLeafs snapshot s = segmentLeafs snapshot' s) →
      hashLoop snapshot segmentsDone next segments = hashLoop snapshot' segmentsDone next segments
  | _, [], _ => rfl
  | next, s :: segments, h => by
    have hrest := hashLoop_congr (next + 1) segments fun j s' hj hdone =>
      h (j + 1) s' hj (by rwa [Nat.add_assoc, Nat.add_comm 1 j] at hdone)
    by_cases hnext : next ∈ segmentsDone
    · simp only [hashLoop, if_pos hnext, hrest, h 0 s rfl (by simpa using hnext)]
    · simp only [hashLoop, if_neg hnext]

end Loop


/-! ## Runs of finished segments -/

namespace TrieToSync

variable [ToString Hash] [DecidableEq Hash] (stackTrieRoot : List (κ × ν) → Hash)

/-- What one call does to the state, whether or not the root check fails. -/
theorem segmentFinished_snd (snapshot : List (κ × ν)) (t : TrieToSync κ ν Hash) (idx : ℕ) :
    (t.segmentFinished stackTrieRoot snapshot idx).2 =
      let r := hashLoop snapshot (insert idx t.segmentsDone) t.segmentToHashNext
        (t.segments.drop t.segmentToHashNext)
      { t with
        segmentsDone := insert idx t.segmentsDone
        segmentToHashNext := r.1
        stackTrie := t.stackTrie ++ r.2
        commits := if r.1 < t.segments.length then t.commits
          else t.commits ++ [t.stackTrie ++ r.2] } := by
  unfold segmentFinished
  dsimp only
  split_ifs <;> rfl

/-- What holds between calls, for the final snapshot `S`: the done segments exist,
`segmentToHashNext` is the first segment that is not done, the stack trie has been given the
leaves of `S` in the segments before it, and it has been committed, once, exactly when every
segment is hashed. -/
structure Hashed (S : List (κ × ν)) (t : TrieToSync κ ν Hash) : Prop where
  done_lt : ∀ i ∈ t.segmentsDone, i < t.segments.length
  next_le : t.segmentToHashNext ≤ t.segments.length
  done_of_lt_next : ∀ i < t.segmentToHashNext, i ∈ t.segmentsDone
  next_not_done : t.segmentToHashNext < t.segments.length → t.segmentToHashNext ∉ t.segmentsDone
  stackTrie_eq : t.stackTrie = (t.segments.take t.segmentToHashNext).flatMap (segmentLeafs S)
  commits_eq : t.commits = if t.segmentToHashNext < t.segments.length then [] else [t.stackTrie]

omit [ToString Hash] [DecidableEq Hash] in
theorem hashed_init {S : List (κ × ν)} {t : TrieToSync κ ν Hash} (hne : t.segments ≠ [])
    (hinit : t.segmentsDone = ∅ ∧ t.segmentToHashNext = 0 ∧ t.stackTrie = [] ∧ t.commits = []) :
    t.Hashed S := by
  obtain ⟨hdone, hnext, hstack, hcommits⟩ := hinit
  have hpos : 0 < t.segments.length := List.length_pos_of_ne_nil hne
  exact ⟨by simp [hdone], by omega, by simp [hnext], by simp [hdone], by simp [hnext, hstack],
    by simp [hnext, hcommits, hpos]⟩

omit [ToString Hash] [DecidableEq Hash] in
/-- A segment that is not done exists only while some segment is left to hash. -/
theorem Hashed.next_lt {S : List (κ × ν)} {t : TrieToSync κ ν Hash} (ht : t.Hashed S) {idx : ℕ}
    (hidx : idx < t.segments.length) (hnew : idx ∉ t.segmentsDone) :
    t.segmentToHashNext < t.segments.length := by
  by_contra hge
  exact hnew (ht.done_of_lt_next idx (by omega))

/-- One call, for a segment that exists and is not done yet, keeps `Hashed` when its snapshot
agrees with `S` on every done segment, itself included. -/
theorem hashed_segmentFinished {S : List (κ × ν)} {t : TrieToSync κ ν Hash} (ht : t.Hashed S)
    {idx : ℕ} (hidx : idx < t.segments.length) (hnew : idx ∉ t.segmentsDone)
    {snapshot : List (κ × ν)}
    (hsnap : ∀ j s, t.segments[j]? = some s → j ∈ insert idx t.segmentsDone →
      segmentLeafs snapshot s = segmentLeafs S s) :
    (t.segmentFinished stackTrieRoot snapshot idx).2.Hashed S := by
  have hlt := ht.next_lt hidx hnew
  -- the call hashes what `S` would have it hash
  have hcongr : hashLoop snapshot (insert idx t.segmentsDone) t.segmentToHashNext
      (t.segments.drop t.segmentToHashNext) =
      hashLoop S (insert idx t.segmentsDone) t.segmentToHashNext
        (t.segments.drop t.segmentToHashNext) :=
    hashLoop_congr _ _ fun j s hj hdone => hsnap _ s (by rwa [List.getElem?_drop] at hj) hdone
  obtain ⟨next', hloop, hle, hge, hdone, hstop⟩ := hashLoop_spec S (insert idx t.segmentsDone)
    t.segmentToHashNext (t.segments.drop t.segmentToHashNext)
  have hlen : t.segmentToHashNext + (t.segments.drop t.segmentToHashNext).length =
      t.segments.length := by
    simp only [List.length_drop]
    exact Nat.add_sub_cancel' ht.next_le
  rw [segmentFinished_snd, hcongr, hloop]
  refine ⟨?_, by simp; omega, fun i hi => ?_, fun h => hstop (by simp at h; omega), ?_, ?_⟩
  · intro i hi
    rcases Finset.mem_insert.mp hi with rfl | hi
    · exact hidx
    · exact ht.done_lt i hi
  · by_cases hold : i < t.segmentToHashNext
    · exact Finset.mem_insert_of_mem (ht.done_of_lt_next i hold)
    · exact hdone i (by omega) hi
  · -- the leaves hashed before, and those of the segments this call hashed
    have htake : t.segments.take next' = t.segments.take t.segmentToHashNext ++
        (t.segments.drop t.segmentToHashNext).take (next' - t.segmentToHashNext) := by
      rw [← List.take_add]
      congr 1
      omega
    simp [ht.stackTrie_eq, htake]
  · have hcommits : t.commits = [] := by simpa [hlt] using ht.commits_eq
    by_cases hnext : next' < t.segments.length <;> simp [hnext, hcommits]

/-- Each call sees a snapshot in key order that agrees with `S` on every segment finished so
far, its own included. -/
def SnapshotsAgree (S : List (κ × ν)) (segments : List (SegmentRange κ)) :
    Finset ℕ → List (ℕ × List (κ × ν)) → Prop
  | _, [] => True
  | segmentsDone, (idx, snapshot) :: calls =>
    (SortedMap.Sorted snapshot ∧ ∀ j s, segments[j]? = some s → j ∈ insert idx segmentsDone →
      snapshot.filter (fun leaf => s.contains leaf.1) = S.filter fun leaf => s.contains leaf.1) ∧
    SnapshotsAgree S segments (insert idx segmentsDone) calls

omit [ToString Hash] [DecidableEq Hash] in
theorem SnapshotsAgree.take {S : List (κ × ν)} {segments : List (SegmentRange κ)} :
    ∀ {segmentsDone : Finset ℕ} {calls : List (ℕ × List (κ × ν))} (k : ℕ),
      SnapshotsAgree S segments segmentsDone calls →
        SnapshotsAgree S segments segmentsDone (calls.take k)
  | _, [], k, _ => by rw [List.take_nil]; trivial
  | _, _ :: _, 0, _ => trivial
  | _, (_, _) :: _, k + 1, ⟨hcall, hcalls⟩ => ⟨hcall, SnapshotsAgree.take k hcalls⟩

@[simp] theorem run_nil (t : TrieToSync κ ν Hash) : t.run stackTrieRoot [] = t := rfl

@[simp] theorem run_cons (t : TrieToSync κ ν Hash) (idx : ℕ) (snapshot : List (κ × ν))
    (calls : List (ℕ × List (κ × ν))) :
    t.run stackTrieRoot ((idx, snapshot) :: calls) =
      (t.segmentFinished stackTrieRoot snapshot idx).2.run stackTrieRoot calls := rfl

/-- A run of calls for distinct segments that exist and are not done keeps `Hashed`, marks its
segments done, and leaves the segments as they are. The induction is on the calls, with the
state generalised. -/
theorem hashed_run {S : List (κ × ν)} (hS : SortedMap.Sorted S) :
    ∀ (calls : List (ℕ × List (κ × ν))) {t : TrieToSync κ ν Hash}, t.Hashed S →
      (calls.map Prod.fst).Nodup →
      (∀ i ∈ calls.map Prod.fst, i < t.segments.length ∧ i ∉ t.segmentsDone) →
      SnapshotsAgree S t.segments t.segmentsDone calls →
      (t.run stackTrieRoot calls).Hashed S ∧
        (t.run stackTrieRoot calls).segmentsDone =
          t.segmentsDone ∪ (calls.map Prod.fst).toFinset ∧
        (t.run stackTrieRoot calls).segments = t.segments
  | [], t, ht, _, _, _ => ⟨ht, by simp, rfl⟩
  | (idx, snapshot) :: calls, t, ht, hnodup, hidx, ⟨⟨hsorted, hsnap⟩, hagree⟩ => by
    rw [List.map_cons, List.nodup_cons] at hnodup
    obtain ⟨hidx₀, hnew⟩ := hidx idx List.mem_cons_self
    have ht₁ := hashed_segmentFinished stackTrieRoot ht hidx₀ hnew fun j s hj hdone => by
      rw [segmentLeafs_eq_filter hsorted, segmentLeafs_eq_filter hS, hsnap j s hj hdone]
    -- the first call keeps the segments and marks its own done
    have hsegs : (t.segmentFinished stackTrieRoot snapshot idx).2.segments = t.segments := by
      rw [segmentFinished_snd]
    have hdone₁ : (t.segmentFinished stackTrieRoot snapshot idx).2.segmentsDone =
        insert idx t.segmentsDone := by
      rw [segmentFinished_snd]
    have hrest : ∀ i ∈ calls.map Prod.fst,
        i < (t.segmentFinished stackTrieRoot snapshot idx).2.segments.length ∧
          i ∉ (t.segmentFinished stackTrieRoot snapshot idx).2.segmentsDone := by
      intro i hi
      obtain ⟨hlt, hnot⟩ := hidx i (List.mem_cons_of_mem _ hi)
      have hne : i ≠ idx := fun h => hnodup.1 (h ▸ hi)
      rw [hsegs, hdone₁]
      exact ⟨hlt, by simp [hne, hnot]⟩
    obtain ⟨hrun, hdone, hsegs'⟩ :=
      hashed_run hS calls ht₁ hnodup.2 hrest (by rwa [hsegs, hdone₁])
    refine ⟨by simpa using hrun, ?_, by simpa [hsegs] using hsegs'⟩
    rw [run_cons, hdone, hdone₁, List.map_cons, List.toFinset_cons, Finset.insert_union,
      Finset.union_insert]

end TrieToSync

open TrieToSync in
/-- Segments are hashed in key order whatever order they finish in. For segments that partition
the keys, and calls that finish each segment once, in any order, each seeing a snapshot that
agrees with `S` on the segments finished so far: the stack trie is given exactly the leaves of
`S`, in key order, and is committed once, at the last call and at no call before; and after
every call each segment below `segmentToHashNext` is done. -/
theorem segmentFinished_hashes_in_key_order [ToString Hash] [DecidableEq Hash]
    (stackTrieRoot : List (κ × ν) → Hash) (t : TrieToSync κ ν Hash) (hne : t.segments ≠ [])
    (hpart : IsPartition t.segments)
    (hinit : t.segmentsDone = ∅ ∧ t.segmentToHashNext = 0 ∧ t.stackTrie = [] ∧ t.commits = [])
    {S : List (κ × ν)} (hS : SortedMap.Sorted S) {calls : List (ℕ × List (κ × ν))}
    (hperm : (calls.map Prod.fst).Perm (List.range t.segments.length))
    (hagree : SnapshotsAgree S t.segments ∅ calls) :
    (t.run stackTrieRoot calls).stackTrie = S ∧ (t.run stackTrieRoot calls).commits = [S] ∧
      ∀ k ≤ calls.length,
        (k < calls.length → (t.run stackTrieRoot (calls.take k)).commits = []) ∧
        ∀ i < (t.run stackTrieRoot (calls.take k)).segmentToHashNext,
          i ∈ (t.run stackTrieRoot (calls.take k)).segmentsDone := by
  have ht : t.Hashed S := hashed_init hne hinit
  have hnodup : (calls.map Prod.fst).Nodup := hperm.nodup_iff.mpr List.nodup_range
  have hidx : ∀ i ∈ calls.map Prod.fst, i < t.segments.length ∧ i ∉ t.segmentsDone :=
    fun i hi => ⟨List.mem_range.mp (hperm.subset hi), by simp [hinit.1]⟩
  have hlen : calls.length = t.segments.length := by simpa using hperm.length_eq
  -- the run of every prefix of the calls
  have hupTo : ∀ k, (t.run stackTrieRoot (calls.take k)).Hashed S ∧
      (t.run stackTrieRoot (calls.take k)).segmentsDone = ((calls.take k).map Prod.fst).toFinset ∧
      (t.run stackTrieRoot (calls.take k)).segments = t.segments := by
    intro k
    have hsub : List.Sublist ((calls.take k).map Prod.fst) (calls.map Prod.fst) := by
      rw [List.map_take]
      exact List.take_sublist _ _
    obtain ⟨hrun, hdone, hsegs⟩ := hashed_run stackTrieRoot hS (calls.take k) ht
      (hnodup.sublist hsub) (fun i hi => hidx i (hsub.subset hi))
      (by rw [hinit.1]; exact hagree.take k)
    exact ⟨hrun, by rw [hdone, hinit.1, Finset.empty_union], hsegs⟩
  obtain ⟨hall, hdone, hsegs⟩ := hupTo calls.length
  rw [List.take_length] at hall hdone hsegs
  -- after the last call every segment is done, so every segment is hashed
  have hnext : (t.run stackTrieRoot calls).segmentToHashNext = t.segments.length := by
    refine le_antisymm (hsegs ▸ hall.next_le) (not_lt.mp fun hlt => ?_)
    refine hall.next_not_done (hsegs ▸ hlt) ?_
    rw [hdone, List.mem_toFinset, hperm.mem_iff, List.mem_range]
    exact hlt
  have hstack : (t.run stackTrieRoot calls).stackTrie = S := by
    rw [hall.stackTrie_eq, hsegs, hnext, List.take_length,
      flatMap_segmentLeafs_of_isPartition hS hpart]
  refine ⟨hstack, ?_, fun k hk => ⟨fun hlt => ?_, (hupTo k).1.done_of_lt_next⟩⟩
  · rw [hall.commits_eq, if_neg (by rw [hnext, hsegs]; exact lt_irrefl _), hstack]
  · -- before the last call only `k` segments are done, so some segment is left to hash
    obtain ⟨hk₁, hk₂, hk₃⟩ := hupTo k
    rw [hk₁.commits_eq, if_pos]
    by_contra hge
    have hsub : Finset.range t.segments.length ⊆ ((calls.take k).map Prod.fst).toFinset := by
      intro i hi
      rw [← hk₂]
      exact hk₁.done_of_lt_next i (by rw [hk₃] at hge; simp at hi; omega)
    have hcard := Finset.card_le_card hsub
    have hnodup_k : ((calls.take k).map Prod.fst).Nodup := by
      rw [List.map_take]
      exact hnodup.sublist (List.take_sublist _ _)
    rw [Finset.card_range, List.toFinset_card_of_nodup hnodup_k, List.length_map,
      List.length_take] at hcard
    omega


/-- A trie of two segments, the keys up to 4 and those from 5 on. -/
def sampleTrieToSync : TrieToSync ℕ ℕ ℕ where
  root := 2
  account := 0
  segments := [⟨none, some 4⟩, ⟨some 5, none⟩]
  segmentsDone := ∅
  segmentToHashNext := 0
  stackTrie := []
  commits := []

/-- A snapshot with one leaf in each segment. -/
def sampleSnapshot : List (ℕ × ℕ) := [(2, 20), (7, 70)]

/-- The second segment finishes first, then the first. -/
def sampleSegmentCalls : List (ℕ × List (ℕ × ℕ)) := [(1, sampleSnapshot), (0, sampleSnapshot)]

/-- The first call hashes nothing, since the first segment is not done; the second hashes
both. -/
example : (sampleTrieToSync.run List.length (sampleSegmentCalls.take 1)).stackTrie = [] ∧
    (sampleTrieToSync.run List.length sampleSegmentCalls).stackTrie = sampleSnapshot := by
  decide

/-- The premises of `segmentFinished_hashes_in_key_order` hold of the sample. -/
theorem segmentFinished_hashes_in_key_order_sample :
    sampleTrieToSync.segments ≠ [] ∧ IsPartition sampleTrieToSync.segments ∧
      (sampleTrieToSync.segmentsDone = ∅ ∧ sampleTrieToSync.segmentToHashNext = 0 ∧
        sampleTrieToSync.stackTrie = [] ∧ sampleTrieToSync.commits = []) ∧
      SortedMap.Sorted sampleSnapshot ∧
      (sampleSegmentCalls.map Prod.fst).Perm (List.range sampleTrieToSync.segments.length) ∧
      TrieToSync.SnapshotsAgree sampleSnapshot sampleTrieToSync.segments ∅ sampleSegmentCalls ∧
      (sampleTrieToSync.run List.length sampleSegmentCalls).stackTrie = sampleSnapshot ∧
      (sampleTrieToSync.run List.length sampleSegmentCalls).commits = [sampleSnapshot] ∧
      ∀ k ≤ sampleSegmentCalls.length,
        (k < sampleSegmentCalls.length →
          (sampleTrieToSync.run List.length (sampleSegmentCalls.take k)).commits = []) ∧
        ∀ i < (sampleTrieToSync.run List.length (sampleSegmentCalls.take k)).segmentToHashNext,
          i ∈ (sampleTrieToSync.run List.length (sampleSegmentCalls.take k)).segmentsDone := by
  have hpart : IsPartition sampleTrieToSync.segments := by
    refine ⟨?_, fun k => ?_⟩
    · simp only [sampleTrieToSync, List.pairwise_pair, SegmentRange.contains]
      intro k k' hk hk'
      simp at hk hk'
      omega
    · by_cases hk : k ≤ 4
      · exact ⟨⟨none, some 4⟩, by simp [sampleTrieToSync], by simp [SegmentRange.contains, hk]⟩
      · exact ⟨⟨some 5, none⟩, by simp [sampleTrieToSync],
          by simp [SegmentRange.contains]; omega⟩
  have hS : SortedMap.Sorted sampleSnapshot := by decide
  have hagree : TrieToSync.SnapshotsAgree sampleSnapshot sampleTrieToSync.segments ∅
      sampleSegmentCalls :=
    ⟨⟨hS, fun _ _ _ _ => rfl⟩, ⟨hS, fun _ _ _ _ => rfl⟩, trivial⟩
  have hperm : (sampleSegmentCalls.map Prod.fst).Perm
      (List.range sampleTrieToSync.segments.length) := by decide
  exact ⟨by simp [sampleTrieToSync], hpart, ⟨rfl, rfl, rfl, rfl⟩, hS, hperm, hagree,
    segmentFinished_hashes_in_key_order List.length sampleTrieToSync (by simp [sampleTrieToSync])
      hpart ⟨rfl, rfl, rfl, rfl⟩ hS hperm hagree⟩

end Jeth
