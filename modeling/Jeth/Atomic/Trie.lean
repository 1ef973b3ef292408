import Mathlib

/-!
# The atomic trie and its commit schedule

`atomicTrie` (`plugin/evm/atomic_trie.go`) indexes the atomic operations of accepted blocks
in a trie keyed by block height.  The trie is accepted at every height that carries atomic
operations, but it is committed to disk, and its root recorded in the *height map* of the
metadata database, only at multiples of `commitInterval`.  Because heights without atomic
operations are never accepted, `AcceptTrie` first fills in every commit height that was
skipped since the last commit, with the root accepted last, and then commits the new root if
its own height is a commit height.

The model keeps the part of `atomicTrie` that this schedule reads and writes: the commit
interval, the last committed root and height, the last accepted root, and the height map
(`height ↦ root` entries of `metadataDB`).  Roots are elements of an arbitrary type `Hash`;
the trie database and the tip buffer only hold memory and do not appear.  Heights are `uint64`
block numbers, modelled by `ℕ` with the wrap of `nextCommitHeight += commitInterval` at
`2^64` written out: near `2^64` the loop goes on from a small height, commits at heights that
are not commit heights, and may never end.

`acceptTrieSpec` says in closed form what one call does when no height wraps, and
`acceptTrie_eq` that the code does it when `height + commitInterval ≤ 2^64`.  The run lemmas
at the end of the file follow a whole sequence of calls at increasing heights, and
`acceptTrie_wraps_past_commit_height` shows a call past that bound.
-/

namespace Jeth

/-- The fields of `atomicTrie` that commits read and write.  The commit interval is positive:
`AcceptTrie` divides by it. -/
@[ext]
structure AtomicTrie (Hash : Type) where
  commitInterval : ℕ
  commitInterval_pos : 0 < commitInterval
  lastCommittedRoot : Hash
  lastCommittedHeight : ℕ
  lastAcceptedRoot : Hash
  /-- The `height ↦ root` entries of `metadataDB`. -/
  heightMap : ℕ → Option Hash

namespace AtomicTrie

variable {Hash : Type}

/-- `updateLastCommitted`: store `height ↦ root` in the height map and mark it as the last
commit. -/
def updateLastCommitted (a : AtomicTrie Hash) (root : Hash) (height : ℕ) : AtomicTrie Hash :=
  { a with
    heightMap := Function.update a.heightMap height (some root)
    lastCommittedRoot := root
    lastCommittedHeight := height }

/-- `commit`: flush the trie database, which the model does not track, and update the
metadata pointers. -/
def commit (a : AtomicTrie Hash) (height : ℕ) (root : Hash) : AtomicTrie Hash :=
  a.updateLastCommitted root height

/-- `LastCommitted`. -/
def lastCommitted (a : AtomicTrie Hash) : Hash × ℕ :=
  (a.lastCommittedRoot, a.lastCommittedHeight)

/-- `getRoot`: the root recorded at `height`, with the empty trie's root at height zero and
`none` for the zero hash that `getRoot` returns when nothing was committed there. -/
def getRoot (emptyRootHash : Hash) (a : AtomicTrie Hash) (height : ℕ) : Option Hash :=
  if height = 0 then some emptyRootHash else a.heightMap height

/-- The skipped-interval loop of `AcceptTrie`:
`for nextCommitHeight := lastCommittedHeight + commitInterval; nextCommitHeight < height;
nextCommitHeight += commitInterval` in `uint64`, committing the last accepted root at each step.
The test reads only `nextCommitHeight`, which takes at most `2^64` values, so a loop that has not
ended after `2^64` steps never ends.  The first argument is fuel: the loop returns `none` when it
runs out, and `acceptTrie` passes `2^64`. -/
def commitSkipped (height : ℕ) :
    ℕ → ℕ → AtomicTrie Hash → Bool → Option (AtomicTrie Hash × Bool)
  | 0, _, _, _ => none
  | fuel + 1, nextCommitHeight, a, hasCommitted =>
    if nextCommitHeight < height then
      commitSkipped height fuel ((nextCommitHeight + a.commitInterval) % 2 ^ 64)
        (a.commit nextCommitHeight a.lastAcceptedRoot) true
    else some (a, hasCommitted)

/-- `AcceptTrie`: commit the skipped commit heights, commit `root` if `height` is a commit
height, and make `root` the last accepted root.  Returns whether anything was committed, or
`none` for a call whose loop never ends. -/
def acceptTrie (a : AtomicTrie Hash) (height : ℕ) (root : Hash) :
    Option (AtomicTrie Hash × Bool) :=
  match commitSkipped height (2 ^ 64) ((a.lastCommittedHeight + a.commitInterval) % 2 ^ 64) a
      false with
  | none => none
  | some (a, hasCommitted) =>
    let (a, hasCommitted) :=
      if height % a.commitInterval = 0 then (a.commit height root, true) else (a, hasCommitted)
    some ({ a with lastAcceptedRoot := root }, hasCommitted)

/-! ## Field lemmas -/

@[simp] lemma commit_commitInterval (a : AtomicTrie Hash) (h : ℕ) (r : Hash) :
    (a.commit h r).commitInterval = a.commitInterval := rfl

@[simp] lemma commit_lastCommittedRoot (a : AtomicTrie Hash) (h : ℕ) (r : Hash) :
    (a.commit h r).lastCommittedRoot = r := rfl

@[simp] lemma commit_lastCommittedHeight (a : AtomicTrie Hash) (h : ℕ) (r : Hash) :
    (a.commit h r).lastCommittedHeight = h := rfl

@[simp] lemma commit_lastAcceptedRoot (a : AtomicTrie Hash) (h : ℕ) (r : Hash) :
    (a.commit h r).lastAcceptedRoot = a.lastAcceptedRoot := rfl

@[simp] lemma commit_heightMap (a : AtomicTrie Hash) (h : ℕ) (r : Hash) :
    (a.commit h r).heightMap = Function.update a.heightMap h (some r) := rfl

/-! ## Arithmetic of commit heights -/

/-- Two multiples of `c` that differ are at least `c` apart. -/
lemma add_le_of_dvd_of_lt {c m k : ℕ} (hm : c ∣ m) (hk : c ∣ k) (hlt : m < k) :
    m + c ≤ k := by
  obtain ⟨p, rfl⟩ := hm
  obtain ⟨q, rfl⟩ := hk
  have hpq : p < q := by
    by_contra hle
    exact absurd hlt (not_lt.mpr (Nat.mul_le_mul_left c (not_lt.mp hle)))
  calc c * p + c = c * (p + 1) := by ring
    _ ≤ c * q := Nat.mul_le_mul_left c hpq

/-- `h / c * c` is the largest multiple of `c` that is at most `h`. -/
lemma le_div_mul_of_dvd {c m h : ℕ} (hm : c ∣ m) (hle : m ≤ h) : m ≤ h / c * c := by
  obtain ⟨p, rfl⟩ := hm
  rcases Nat.eq_zero_or_pos c with rfl | hc
  · simp
  · have : p ≤ h / c := (Nat.le_div_iff_mul_le hc).mpr (by linarith)
    calc c * p = p * c := by ring
      _ ≤ h / c * c := Nat.mul_le_mul_right c this

/-- When the next multiple `m + c` of `c` lies below `h` and the one after it does not, the
largest multiple below `h` is `m + c`. -/
lemma pred_div_mul_eq {c m h : ℕ} (hm : c ∣ m) (hlt : m + c < h)
    (hge : ¬ m + c + c < h) : (h - 1) / c * c = m + c := by
  obtain ⟨p, rfl⟩ := hm
  have hdiv : (h - 1) / c = p + 1 := by
    apply Nat.div_eq_of_lt_le
    · rw [add_mul, one_mul, mul_comm]; omega
    · rw [show (p + 1 + 1) * c = c * p + c + c by ring]; omega
  rw [hdiv]; ring

/-- When `c ∣ h`, the largest multiple of `c` that is at most `h` is `h`. -/
lemma div_mul_eq_of_dvd {c h : ℕ} (hh : c ∣ h) : h / c * c = h :=
  Nat.div_mul_cancel hh

/-- Without dividing `h`, the largest multiple of `c` below `h` is the largest one at most
`h`. -/
lemma pred_div_mul_eq_div_mul {c h : ℕ} (hc : 0 < c) (hh : ¬ c ∣ h) :
    (h - 1) / c * c = h / c * c := by
  have hpos : 0 < h := Nat.pos_of_ne_zero (by rintro rfl; exact hh (dvd_zero c))
  have hmod : h % c ≠ 0 := fun h0 => hh (Nat.dvd_of_mod_eq_zero h0)
  have hdiv : (h - 1) / c = h / c := by
    apply Nat.div_eq_of_lt_le
    · have := Nat.div_mul_le_self h c
      have hne : h / c * c ≠ h := fun heq => hh ⟨h / c, by rw [mul_comm]; exact heq.symm⟩
      omega
    · have : h < h / c * c + c := Nat.lt_div_mul_add hc
      rw [add_mul, one_mul]; omega
  rw [hdiv]

/-! ## One call of `AcceptTrie` -/

/-- What the skipped-interval loop leaves behind when the last commit height is a multiple of
the interval: every multiple of the interval strictly between the last commit and `height`
holds the last accepted root, and the largest of them becomes the last commit. -/
def skippedCommits (a : AtomicTrie Hash) (height : ℕ) : AtomicTrie Hash :=
  if a.lastCommittedHeight + a.commitInterval < height then
    { a with
      heightMap := fun k =>
        if a.commitInterval ∣ k ∧ a.lastCommittedHeight < k ∧ k < height then
          some a.lastAcceptedRoot
        else a.heightMap k
      lastCommittedRoot := a.lastAcceptedRoot
      lastCommittedHeight := (height - 1) / a.commitInterval * a.commitInterval }
  else a

section Skipped

variable {a : AtomicTrie Hash} {height : ℕ}

@[simp] lemma skippedCommits_commitInterval :
    (a.skippedCommits height).commitInterval = a.commitInterval := by
  unfold skippedCommits; split <;> rfl

@[simp] lemma skippedCommits_lastAcceptedRoot :
    (a.skippedCommits height).lastAcceptedRoot = a.lastAcceptedRoot := by
  unfold skippedCommits; split <;> rfl

lemma skippedCommits_lastCommittedHeight :
    (a.skippedCommits height).lastCommittedHeight =
      if a.lastCommittedHeight + a.commitInterval < height then
        (height - 1) / a.commitInterval * a.commitInterval
      else a.lastCommittedHeight := by
  unfold skippedCommits; split <;> rfl

lemma skippedCommits_lastCommittedRoot :
    (a.skippedCommits height).lastCommittedRoot =
      if a.lastCommittedHeight + a.commitInterval < height then a.lastAcceptedRoot
      else a.lastCommittedRoot := by
  unfold skippedCommits; split <;> rfl

/-- The height map after the loop, in one formula for both outcomes: when the loop does not
run there is no multiple of the interval strictly between the last commit and `height`. -/
lemma skippedCommits_heightMap (hL : a.commitInterval ∣ a.lastCommittedHeight) (k : ℕ) :
    (a.skippedCommits height).heightMap k =
      if a.commitInterval ∣ k ∧ a.lastCommittedHeight < k ∧ k < height then
        some a.lastAcceptedRoot
      else a.heightMap k := by
  unfold skippedCommits
  split
  · rfl
  · rename_i hlt
    have hnot : ¬ (a.commitInterval ∣ k ∧ a.lastCommittedHeight < k ∧ k < height) := by
      rintro ⟨hk, hLk, hkh⟩
      have := add_le_of_dvd_of_lt hL hk hLk
      omega
    rw [if_neg hnot]

/-- One commit at the next commit height does not change what the loop leaves behind. -/
lemma skippedCommits_commit (hL : a.commitInterval ∣ a.lastCommittedHeight)
    (hlt : a.lastCommittedHeight + a.commitInterval < height) :
    (a.commit (a.lastCommittedHeight + a.commitInterval) a.lastAcceptedRoot).skippedCommits
      height = a.skippedCommits height := by
  have hc : 0 < a.commitInterval := a.commitInterval_pos
  have hL' : a.commitInterval ∣ a.lastCommittedHeight + a.commitInterval := dvd_add hL dvd_rfl
  apply AtomicTrie.ext
  · simp
  · rw [skippedCommits_lastCommittedRoot, skippedCommits_lastCommittedRoot,
      commit_lastCommittedHeight, commit_commitInterval, commit_lastAcceptedRoot,
      commit_lastCommittedRoot, if_pos hlt, ite_self]
  · rw [skippedCommits_lastCommittedHeight, skippedCommits_lastCommittedHeight,
      commit_lastCommittedHeight, commit_commitInterval, if_pos hlt]
    by_cases h2 : a.lastCommittedHeight + a.commitInterval + a.commitInterval < height
    · rw [if_pos h2]
    · rw [if_neg h2, pred_div_mul_eq hL hlt h2]
  · simp
  · funext k
    rw [skippedCommits_heightMap hL', skippedCommits_heightMap hL, commit_lastCommittedHeight,
      commit_commitInterval, commit_lastAcceptedRoot, commit_heightMap]
    by_cases hk : k = a.lastCommittedHeight + a.commitInterval
    · subst hk
      simp [hc, hlt, hL']
    · rw [Function.update_of_ne hk]
      -- a multiple of the interval above the last commit, other than the next one, lies
      -- above the next one
      have hiff : (a.commitInterval ∣ k ∧ a.lastCommittedHeight + a.commitInterval < k ∧
          k < height) ↔ (a.commitInterval ∣ k ∧ a.lastCommittedHeight < k ∧ k < height) := by
        constructor
        · rintro ⟨hk', hlk, hkh⟩; exact ⟨hk', by omega, hkh⟩
        · rintro ⟨hk', hlk, hkh⟩
          exact ⟨hk', lt_of_le_of_ne (add_le_of_dvd_of_lt hL hk' hlk) (Ne.symm hk), hkh⟩
      simp only [hiff]

/-- The skipped-interval loop from the next commit height, given fuel for every step and no
height that wraps, leaves `skippedCommits` behind and reports a commit exactly when there was a
commit height to fill. -/
lemma commitSkipped_eq (fuel : ℕ) (hc : Bool) (hL : a.commitInterval ∣ a.lastCommittedHeight)
    (hfuel : height ≤ fuel + a.lastCommittedHeight) (hpos : 0 < fuel)
    (hwrap : height + a.commitInterval ≤ 2 ^ 64) :
    commitSkipped height fuel (a.lastCommittedHeight + a.commitInterval) a hc =
      some (a.skippedCommits height,
        hc || decide (a.lastCommittedHeight + a.commitInterval < height)) := by
  have hci := a.commitInterval_pos
  induction fuel generalizing a hc with
  | zero => exact absurd hpos (lt_irrefl 0)
  | succ fuel ih =>
    by_cases hlt : a.lastCommittedHeight + a.commitInterval < height
    · -- one commit at the next commit height; below `height` the next one does not wrap
      have hL' : a.commitInterval ∣ a.lastCommittedHeight + a.commitInterval :=
        dvd_add hL dvd_rfl
      have hnext : a.lastCommittedHeight + a.commitInterval + a.commitInterval < 2 ^ 64 := by
        omega
      have step := @ih (a.commit (a.lastCommittedHeight + a.commitInterval) a.lastAcceptedRoot)
        true hL' (by simp only [commit_lastCommittedHeight]; omega) (by omega)
        (by simpa using hwrap) (by simpa using hci)
      simp only [commit_lastCommittedHeight, commit_commitInterval] at step
      rw [commitSkipped, if_pos hlt, Nat.mod_eq_of_lt hnext, step, skippedCommits_commit hL hlt]
      simp [hlt]
    · simp [commitSkipped, skippedCommits, hlt]

end Skipped

/-- What `AcceptTrie` does when no height wraps, from a trie whose last commit height is a
multiple of the interval: the commit heights strictly between the last commit and `height`
get the last accepted root, `height` gets `root` if it is a commit height, and `root` becomes
the last accepted root. -/
def acceptTrieSpec (a : AtomicTrie Hash) (height : ℕ) (root : Hash) : AtomicTrie Hash × Bool :=
  if a.commitInterval ∣ height then
    ({ (a.skippedCommits height).commit height root with lastAcceptedRoot := root }, true)
  else
    ({ a.skippedCommits height with lastAcceptedRoot := root },
      decide (a.lastCommittedHeight + a.commitInterval < height))

section Accept

variable {a : AtomicTrie Hash} {height : ℕ} {root : Hash}

/-- `AcceptTrie` above the last commit does what `acceptTrieSpec` says, when the commit
heights it computes stay below `2^64`. -/
lemma acceptTrie_eq (hL : a.commitInterval ∣ a.lastCommittedHeight)
    (hlt : a.lastCommittedHeight < height) (hwrap : height + a.commitInterval ≤ 2 ^ 64) :
    a.acceptTrie height root = some (a.acceptTrieSpec height root) := by
  have hc := a.commitInterval_pos
  have hstart : a.lastCommittedHeight + a.commitInterval < 2 ^ 64 := by omega
  unfold acceptTrie
  rw [Nat.mod_eq_of_lt hstart,
    commitSkipped_eq (2 ^ 64) false hL (by omega) (Nat.two_pow_pos 64) hwrap]
  simp only [skippedCommits_commitInterval, Bool.false_or, ← Nat.dvd_iff_mod_eq_zero]
  unfold acceptTrieSpec
  split <;> rfl

lemma acceptTrieSpec_commitInterval :
    (a.acceptTrieSpec height root).1.commitInterval = a.commitInterval := by
  unfold acceptTrieSpec; split <;> simp

lemma acceptTrieSpec_lastAcceptedRoot :
    (a.acceptTrieSpec height root).1.lastAcceptedRoot = root := by
  unfold acceptTrieSpec; split <;> rfl

lemma acceptTrieSpec_lastCommittedHeight :
    (a.acceptTrieSpec height root).1.lastCommittedHeight =
      if a.commitInterval ∣ height then height
      else if a.lastCommittedHeight + a.commitInterval < height then
        (height - 1) / a.commitInterval * a.commitInterval
      else a.lastCommittedHeight := by
  unfold acceptTrieSpec; split
  · rfl
  · exact skippedCommits_lastCommittedHeight

lemma acceptTrieSpec_lastCommittedRoot :
    (a.acceptTrieSpec height root).1.lastCommittedRoot =
      if a.commitInterval ∣ height then root
      else if a.lastCommittedHeight + a.commitInterval < height then a.lastAcceptedRoot
      else a.lastCommittedRoot := by
  unfold acceptTrieSpec; split
  · rfl
  · exact skippedCommits_lastCommittedRoot

/-- The height map after `AcceptTrie`: the new root at `height` if it is a commit height, the
previously accepted root at the skipped commit heights, and nothing else changed. -/
lemma acceptTrieSpec_heightMap (hL : a.commitInterval ∣ a.lastCommittedHeight) (k : ℕ) :
    (a.acceptTrieSpec height root).1.heightMap k =
      if a.commitInterval ∣ height ∧ k = height then some root
      else if a.commitInterval ∣ k ∧ a.lastCommittedHeight < k ∧ k < height then
        some a.lastAcceptedRoot
      else a.heightMap k := by
  unfold acceptTrieSpec
  by_cases hh : a.commitInterval ∣ height
  · rw [if_pos hh]
    by_cases hk : k = height
    · subst hk; simp [hh]
    · simp only [commit_heightMap, Function.update_of_ne hk, hh, hk, and_false, if_false]
      exact skippedCommits_heightMap hL k
  · rw [if_neg hh]
    simp only [hh, false_and, if_false]
    exact skippedCommits_heightMap hL k

lemma acceptTrieSpec_snd :
    (a.acceptTrieSpec height root).2 =
      decide (a.commitInterval ∣ height ∨
        a.lastCommittedHeight + a.commitInterval < height) := by
  unfold acceptTrieSpec; split <;> simp_all

/-- Above the last commit, the last commit height after `AcceptTrie` is the largest commit
height at most `height`. -/
lemma acceptTrieSpec_lastCommittedHeight_of_lt (hL : a.commitInterval ∣ a.lastCommittedHeight)
    (hlt : a.lastCommittedHeight < height) :
    (a.acceptTrieSpec height root).1.lastCommittedHeight =
      height / a.commitInterval * a.commitInterval := by
  have hc := a.commitInterval_pos
  rw [acceptTrieSpec_lastCommittedHeight]
  by_cases hh : a.commitInterval ∣ height
  · rw [if_pos hh, div_mul_eq_of_dvd hh]
  · rw [if_neg hh, ← pred_div_mul_eq_div_mul hc hh]
    by_cases hnext : a.lastCommittedHeight + a.commitInterval < height
    · rw [if_pos hnext]
    · rw [if_neg hnext]
      -- no commit height lies in `(L, height)`, so the largest one below `height` is `L`
      have hle : a.lastCommittedHeight ≤ (height - 1) / a.commitInterval * a.commitInterval :=
        le_div_mul_of_dvd hL (by omega)
      have hge : (height - 1) / a.commitInterval * a.commitInterval ≤ a.lastCommittedHeight := by
        by_contra hgt
        have h1 := add_le_of_dvd_of_lt hL (Nat.dvd_mul_left _ _) (not_le.mp hgt)
        have h2 := Nat.div_mul_le_self (height - 1) a.commitInterval
        have heq : a.lastCommittedHeight + a.commitInterval = height := by omega
        exact hh (heq ▸ dvd_add hL dvd_rfl)
      omega

/-- Above the last commit, `AcceptTrie` reports a commit exactly when a commit height lies in
`(lastCommittedHeight, height]`. -/
lemma acceptTrieSpec_snd_iff_of_lt (hL : a.commitInterval ∣ a.lastCommittedHeight)
    (hlt : a.lastCommittedHeight < height) :
    (a.acceptTrieSpec height root).2 = true ↔
      ∃ m, a.commitInterval ∣ m ∧ a.lastCommittedHeight < m ∧ m ≤ height := by
  rw [acceptTrieSpec_snd, decide_eq_true_iff]
  constructor
  · rintro (hh | hnext)
    · exact ⟨height, hh, hlt, le_rfl⟩
    · exact ⟨_, dvd_add hL dvd_rfl, by have := a.commitInterval_pos; omega, hnext.le⟩
  · rintro ⟨m, hm, hLm, hmh⟩
    have := add_le_of_dvd_of_lt hL hm hLm
    rcases Nat.lt_or_ge (a.lastCommittedHeight + a.commitInterval) height with h | h
    · exact Or.inr h
    · have heq : a.lastCommittedHeight + a.commitInterval = height := by omega
      exact Or.inl (heq ▸ dvd_add hL dvd_rfl)

/-- One call at a height above the last commit keeps the last committed root recorded at the
last commit height, once that height has moved past `L₀`. -/
lemma acceptTrieSpec_committed_step (hL : a.commitInterval ∣ a.lastCommittedHeight)
    (hlt : a.lastCommittedHeight < height) {L₀ : ℕ}
    (hP : L₀ < a.lastCommittedHeight → a.heightMap a.lastCommittedHeight = some a.lastCommittedRoot)
    (hpos : L₀ < (a.acceptTrieSpec height root).1.lastCommittedHeight) :
    (a.acceptTrieSpec height root).1.heightMap (a.acceptTrieSpec height root).1.lastCommittedHeight =
      some (a.acceptTrieSpec height root).1.lastCommittedRoot := by
  have hc := a.commitInterval_pos
  rw [acceptTrieSpec_lastCommittedHeight] at hpos ⊢
  rw [acceptTrieSpec_lastCommittedRoot]
  by_cases hh : a.commitInterval ∣ height
  · simp only [if_pos hh] at hpos ⊢
    rw [acceptTrieSpec_heightMap hL, if_pos ⟨hh, rfl⟩]
  · simp only [if_neg hh] at hpos ⊢
    by_cases hnext : a.lastCommittedHeight + a.commitInterval < height
    · simp only [if_pos hnext] at hpos ⊢
      -- the last skipped commit height lies strictly between the last commit and `height`
      set M := (height - 1) / a.commitInterval * a.commitInterval
      have hLM : a.lastCommittedHeight + a.commitInterval ≤ M :=
        le_div_mul_of_dvd (dvd_add hL dvd_rfl) (by omega)
      have hMh : M < height := by
        have := Nat.div_mul_le_self (height - 1) a.commitInterval; omega
      rw [acceptTrieSpec_heightMap hL, if_neg (fun h => hh h.1),
        if_pos ⟨Nat.dvd_mul_left _ _, by omega, hMh⟩]
    · simp only [if_neg hnext] at hpos ⊢
      rw [acceptTrieSpec_heightMap hL, if_neg (fun h => hh h.1), if_neg (by omega)]
      exact hP hpos

end Accept

/-! ## A sequence of calls -/

/-- Accept the trie at each `(height, root)` of `calls` in turn: the final trie and what each
call returned, or `none` when a call never returns. -/
def acceptTrieAll (a : AtomicTrie Hash) : List (ℕ × Hash) → Option (AtomicTrie Hash × List Bool)
  | [] => some (a, [])
  | (height, root) :: calls =>
    match a.acceptTrie height root with
    | none => none
    | some r =>
      match r.1.acceptTrieAll calls with
      | none => none
      | some r' => some (r'.1, r.2 :: r'.2)

/-- `acceptTrieAll` with every call as `acceptTrieSpec` says. -/
def acceptTrieAllSpec (a : AtomicTrie Hash) : List (ℕ × Hash) → AtomicTrie Hash × List Bool
  | [] => (a, [])
  | (height, root) :: calls =>
    let (a', committed) := a.acceptTrieSpec height root
    let (a'', results) := a'.acceptTrieAllSpec calls
    (a'', committed :: results)

@[simp] lemma acceptTrieAllSpec_nil (a : AtomicTrie Hash) : a.acceptTrieAllSpec [] = (a, []) := rfl

@[simp] lemma acceptTrieAllSpec_cons_fst (a : AtomicTrie Hash) (height : ℕ) (root : Hash)
    (calls : List (ℕ × Hash)) :
    (a.acceptTrieAllSpec ((height, root) :: calls)).1 =
      ((a.acceptTrieSpec height root).1.acceptTrieAllSpec calls).1 := rfl

@[simp] lemma acceptTrieAllSpec_cons_snd (a : AtomicTrie Hash) (height : ℕ) (root : Hash)
    (calls : List (ℕ × Hash)) :
    (a.acceptTrieAllSpec ((height, root) :: calls)).2 =
      (a.acceptTrieSpec height root).2 ::
        ((a.acceptTrieSpec height root).1.acceptTrieAllSpec calls).2 :=
  rfl

/-- The root of the last call at or below height `k`, or `r₀` when there is none. -/
def rootAtOrBelow (r₀ : Hash) (calls : List (ℕ × Hash)) (k : ℕ) : Hash :=
  ((calls.filter fun p => p.1 ≤ k).getLast?.map Prod.snd).getD r₀

lemma rootAtOrBelow_of_lt_all {r₀ : Hash} {calls : List (ℕ × Hash)} {k : ℕ}
    (hall : ∀ p ∈ calls, k < p.1) : rootAtOrBelow r₀ calls k = r₀ := by
  have : calls.filter (fun p => p.1 ≤ k) = [] :=
    List.filter_eq_nil_iff.mpr fun p hp => by have := hall p hp; simp; omega
  simp [rootAtOrBelow, this]

lemma rootAtOrBelow_cons_of_le {r₀ r : Hash} {h k : ℕ} (calls : List (ℕ × Hash))
    (hle : h ≤ k) : rootAtOrBelow r₀ ((h, r) :: calls) k = rootAtOrBelow r calls k := by
  unfold rootAtOrBelow
  rw [List.filter_cons_of_pos (by simpa using hle), List.getLast?_cons]
  cases (calls.filter fun p => p.1 ≤ k).getLast? <;> rfl

section Run

variable {a : AtomicTrie Hash} {height : ℕ} {root : Hash} {calls : List (ℕ × Hash)}

/-- What one call at the head of a run at increasing heights hands on to the rest of the run. -/
lemma acceptTrieSpec_run_step (hL : a.commitInterval ∣ a.lastCommittedHeight)
    (hinc : (a.lastCommittedHeight :: ((height, root) :: calls).map Prod.fst).Pairwise (· < ·)) :
    let a₁ := (a.acceptTrieSpec height root).1
    a.lastCommittedHeight < height ∧ (∀ p ∈ calls, height < p.1) ∧
      a₁.commitInterval = a.commitInterval ∧
      a₁.lastCommittedHeight = height / a.commitInterval * a.commitInterval ∧
      a₁.commitInterval ∣ a₁.lastCommittedHeight ∧
      (a₁.lastCommittedHeight :: calls.map Prod.fst).Pairwise (· < ·) := by
  simp only [List.map_cons, List.pairwise_cons, List.mem_cons, List.mem_map] at hinc
  obtain ⟨hLall, hhall, hrest⟩ := hinc
  have hlt : a.lastCommittedHeight < height := hLall height (Or.inl rfl)
  have hrest_gt : ∀ p ∈ calls, height < p.1 := fun p hp => hhall p.1 ⟨p, hp, rfl⟩
  have hLC : (a.acceptTrieSpec height root).1.lastCommittedHeight =
      height / a.commitInterval * a.commitInterval :=
    acceptTrieSpec_lastCommittedHeight_of_lt hL hlt
  have hci : (a.acceptTrieSpec height root).1.commitInterval = a.commitInterval :=
    acceptTrieSpec_commitInterval
  refine ⟨hlt, hrest_gt, hci, hLC, ?_, ?_⟩
  · rw [hci, hLC]; exact Nat.dvd_mul_left _ _
  · refine List.pairwise_cons.mpr ⟨fun x hx => ?_, hrest⟩
    obtain ⟨p, hp, rfl⟩ := List.mem_map.mp hx
    have := Nat.div_mul_le_self height a.commitInterval
    have := hrest_gt p hp
    omega

lemma acceptTrieAllSpec_commitInterval (hL : a.commitInterval ∣ a.lastCommittedHeight)
    (hinc : (a.lastCommittedHeight :: calls.map Prod.fst).Pairwise (· < ·)) :
    (a.acceptTrieAllSpec calls).1.commitInterval = a.commitInterval := by
  induction calls generalizing a with
  | nil => rfl
  | cons p calls ih =>
    obtain ⟨height, root⟩ := p
    obtain ⟨-, -, hci, -, hL₁, hinc₁⟩ := acceptTrieSpec_run_step hL hinc
    rw [acceptTrieAllSpec_cons_fst, ih hL₁ hinc₁, hci]

/-- A run at heights above the last commit leaves the height map alone up to that commit. -/
lemma acceptTrieAllSpec_heightMap_of_le (hL : a.commitInterval ∣ a.lastCommittedHeight)
    (hinc : (a.lastCommittedHeight :: calls.map Prod.fst).Pairwise (· < ·)) {k : ℕ}
    (hk : k ≤ a.lastCommittedHeight) :
    (a.acceptTrieAllSpec calls).1.heightMap k = a.heightMap k := by
  induction calls generalizing a with
  | nil => rfl
  | cons p calls ih =>
    obtain ⟨height, root⟩ := p
    obtain ⟨hlt, -, -, hLC, hL₁, hinc₁⟩ := acceptTrieSpec_run_step hL hinc
    have hk₁ : k ≤ (a.acceptTrieSpec height root).1.lastCommittedHeight :=
      hLC ▸ le_trans hk (le_div_mul_of_dvd hL hlt.le)
    rw [acceptTrieAllSpec_cons_fst, ih hL₁ hinc₁ hk₁, acceptTrieSpec_heightMap hL,
      if_neg (by omega), if_neg (by omega)]

/-- Every commit height above the last commit and at most the last height of the run holds
the root accepted last at or below it. -/
lemma acceptTrieAllSpec_heightMap (hL : a.commitInterval ∣ a.lastCommittedHeight)
    (hinc : (a.lastCommittedHeight :: calls.map Prod.fst).Pairwise (· < ·)) {k : ℕ}
    (hk : a.commitInterval ∣ k) (hLk : a.lastCommittedHeight < k)
    (hkn : ∃ p ∈ calls, k ≤ p.1) :
    (a.acceptTrieAllSpec calls).1.heightMap k = some (rootAtOrBelow a.lastAcceptedRoot calls k) := by
  induction calls generalizing a with
  | nil => simp at hkn
  | cons p calls ih =>
    obtain ⟨height, root⟩ := p
    obtain ⟨hlt, hrest, hci, hLC, hL₁, hinc₁⟩ := acceptTrieSpec_run_step hL hinc
    rw [acceptTrieAllSpec_cons_fst]
    by_cases hkh : k ≤ height
    · -- `k` was written by this call and is below every later commit
      have hk₁ : k ≤ (a.acceptTrieSpec height root).1.lastCommittedHeight :=
        hLC ▸ le_div_mul_of_dvd hk hkh
      rw [acceptTrieAllSpec_heightMap_of_le hL₁ hinc₁ hk₁, acceptTrieSpec_heightMap hL]
      rcases Nat.lt_or_ge k height with hkl | hkg
      · rw [if_neg (by omega), if_pos ⟨hk, hLk, hkl⟩,
          rootAtOrBelow_of_lt_all (fun q hq => by
            rcases List.mem_cons.mp hq with rfl | hq
            · exact hkl
            · exact lt_trans hkl (hrest q hq))]
      · have hkeq : k = height := le_antisymm hkh hkg
        subst hkeq
        rw [if_pos ⟨hk, rfl⟩, rootAtOrBelow_cons_of_le calls le_rfl,
          rootAtOrBelow_of_lt_all hrest]
    · -- `k` lies above this call: the rest of the run writes it
      have hkn' : ∃ q ∈ calls, k ≤ q.1 := by
        obtain ⟨q, hq, hkq⟩ := hkn
        rcases List.mem_cons.mp hq with rfl | hq
        · exact absurd hkq hkh
        · exact ⟨q, hq, hkq⟩
      have hLk₁ : (a.acceptTrieSpec height root).1.lastCommittedHeight < k := by
        have := Nat.div_mul_le_self height a.commitInterval; omega
      rw [ih hL₁ hinc₁ (hci ▸ hk) hLk₁ hkn', acceptTrieSpec_lastAcceptedRoot,
        rootAtOrBelow_cons_of_le calls (by omega)]

/-- After a nonempty run, the last commit is the largest commit height at most the last
height of the run. -/
lemma acceptTrieAllSpec_lastCommittedHeight (hL : a.commitInterval ∣ a.lastCommittedHeight)
    (hinc : (a.lastCommittedHeight :: calls.map Prod.fst).Pairwise (· < ·)) (hne : calls ≠ []) :
    (a.acceptTrieAllSpec calls).1.lastCommittedHeight =
      (calls.getLast hne).1 / a.commitInterval * a.commitInterval := by
  induction calls generalizing a with
  | nil => exact absurd rfl hne
  | cons p calls ih =>
    obtain ⟨height, root⟩ := p
    obtain ⟨-, -, hci, hLC, hL₁, hinc₁⟩ := acceptTrieSpec_run_step hL hinc
    rw [acceptTrieAllSpec_cons_fst]
    rcases eq_or_ne calls [] with rfl | hne'
    · exact hLC
    · rw [ih hL₁ hinc₁ hne', hci, List.getLast_cons hne']

/-- After a nonempty run, the last accepted root is the root of the last call. -/
lemma acceptTrieAllSpec_lastAcceptedRoot (hL : a.commitInterval ∣ a.lastCommittedHeight)
    (hinc : (a.lastCommittedHeight :: calls.map Prod.fst).Pairwise (· < ·)) (hne : calls ≠ []) :
    (a.acceptTrieAllSpec calls).1.lastAcceptedRoot = (calls.getLast hne).2 := by
  induction calls generalizing a with
  | nil => exact absurd rfl hne
  | cons p calls ih =>
    obtain ⟨height, root⟩ := p
    obtain ⟨-, -, -, -, hL₁, hinc₁⟩ := acceptTrieSpec_run_step hL hinc
    rw [acceptTrieAllSpec_cons_fst]
    rcases eq_or_ne calls [] with rfl | hne'
    · exact acceptTrieSpec_lastAcceptedRoot
    · rw [ih hL₁ hinc₁ hne', List.getLast_cons hne']

/-- Once the last commit height has moved past `L₀`, the height map holds the last committed
root there; a run at increasing heights keeps this. -/
lemma acceptTrieAllSpec_committed (hL : a.commitInterval ∣ a.lastCommittedHeight)
    (hinc : (a.lastCommittedHeight :: calls.map Prod.fst).Pairwise (· < ·)) {L₀ : ℕ}
    (h₀ : L₀ ≤ a.lastCommittedHeight)
    (hP : L₀ < a.lastCommittedHeight → a.heightMap a.lastCommittedHeight = some a.lastCommittedRoot)
    (hpos : L₀ < (a.acceptTrieAllSpec calls).1.lastCommittedHeight) :
    (a.acceptTrieAllSpec calls).1.heightMap (a.acceptTrieAllSpec calls).1.lastCommittedHeight =
      some (a.acceptTrieAllSpec calls).1.lastCommittedRoot := by
  induction calls generalizing a with
  | nil => exact hP hpos
  | cons p calls ih =>
    obtain ⟨height, root⟩ := p
    obtain ⟨hlt, -, -, hLC, hL₁, hinc₁⟩ := acceptTrieSpec_run_step hL hinc
    have h₁ : L₀ ≤ (a.acceptTrieSpec height root).1.lastCommittedHeight :=
      hLC ▸ le_trans h₀ (le_div_mul_of_dvd hL hlt.le)
    exact ih hL₁ hinc₁ h₁ (acceptTrieSpec_committed_step hL hlt hP) hpos

/-- Call `i` of a run at increasing heights reports a commit exactly when a commit height lies
between the last commit before it and its own height. -/
lemma acceptTrieAllSpec_results (hL : a.commitInterval ∣ a.lastCommittedHeight)
    (hinc : (a.lastCommittedHeight :: calls.map Prod.fst).Pairwise (· < ·)) (i : ℕ)
    (hi : i < calls.length) :
    (a.acceptTrieAllSpec calls).2[i]? = some true ↔
      ∃ m, a.commitInterval ∣ m ∧
        (a.acceptTrieAllSpec (calls.take i)).1.lastCommittedHeight < m ∧ m ≤ calls[i].1 := by
  induction calls generalizing a i with
  | nil => exact absurd hi (Nat.not_lt_zero _)
  | cons p calls ih =>
    obtain ⟨height, root⟩ := p
    obtain ⟨hlt, -, hci, -, hL₁, hinc₁⟩ := acceptTrieSpec_run_step hL hinc
    cases i with
    | zero =>
      have hsnd : (a.acceptTrieSpec height root).2 = true ↔
          ∃ m, a.commitInterval ∣ m ∧ a.lastCommittedHeight < m ∧ m ≤ height :=
        acceptTrieSpec_snd_iff_of_lt hL hlt
      simpa using hsnd
    | succ i =>
      have hi' : i < calls.length := by simpa using hi
      simpa [hci] using ih hL₁ hinc₁ i hi'

/-- A run at increasing heights, each at least the interval below `2^64`, returns what
`acceptTrieAllSpec` says. -/
lemma acceptTrieAll_eq (hL : a.commitInterval ∣ a.lastCommittedHeight)
    (hinc : (a.lastCommittedHeight :: calls.map Prod.fst).Pairwise (· < ·))
    (hwrap : ∀ p ∈ calls, p.1 + a.commitInterval ≤ 2 ^ 64) :
    a.acceptTrieAll calls = some (a.acceptTrieAllSpec calls) := by
  induction calls generalizing a with
  | nil => rfl
  | cons p calls ih =>
    obtain ⟨height, root⟩ := p
    obtain ⟨hlt, -, hci, -, hL₁, hinc₁⟩ := acceptTrieSpec_run_step hL hinc
    have hcall : a.acceptTrie height root = some (a.acceptTrieSpec height root) :=
      acceptTrie_eq hL hlt (hwrap _ List.mem_cons_self)
    have hrest : ∀ q ∈ calls, q.1 + (a.acceptTrieSpec height root).1.commitInterval ≤ 2 ^ 64 := by
      rw [hci]
      exact fun q hq => hwrap q (List.mem_cons_of_mem _ hq)
    simp only [acceptTrieAll, hcall]
    rw [ih hL₁ hinc₁ hrest]
    rfl

end Run

/-- The commit schedule of a nonempty run from `a` that returned the trie `a'` and the results
`results`: every commit height `k ∈ (L, hₙ]` holds the root accepted last at or below `k` (or
the last accepted root from before the run); the last commit is that root at `⌊hₙ / c⌋ · c`
whenever this lies above `L`; the last accepted root is `rₙ`; and call `i` reports a commit
exactly when a commit height lies in `(last commit height before call i, hᵢ]`. -/
def CommitSchedule (emptyRootHash : Hash) (a : AtomicTrie Hash) (calls : List (ℕ × Hash))
    (hne : calls ≠ []) (a' : AtomicTrie Hash) (results : List Bool) : Prop :=
  (∀ k, a.commitInterval ∣ k → a.lastCommittedHeight < k → k ≤ (calls.getLast hne).1 →
    a'.getRoot emptyRootHash k = some (rootAtOrBelow a.lastAcceptedRoot calls k)) ∧
  (a.lastCommittedHeight < (calls.getLast hne).1 / a.commitInterval * a.commitInterval →
    a'.lastCommitted =
      (rootAtOrBelow a.lastAcceptedRoot calls
          ((calls.getLast hne).1 / a.commitInterval * a.commitInterval),
        (calls.getLast hne).1 / a.commitInterval * a.commitInterval)) ∧
  a'.lastAcceptedRoot = (calls.getLast hne).2 ∧
  (∀ i (hi : i < calls.length), ∃ aᵢ resultsᵢ, a.acceptTrieAll (calls.take i) = some (aᵢ, resultsᵢ) ∧
    (results[i]? = some true ↔
      ∃ m, a.commitInterval ∣ m ∧ aᵢ.lastCommittedHeight < m ∧ m ≤ calls[i].1))

/-- **Commit schedule of `AcceptTrie`.**  From a trie whose last commit height `L` is a
multiple of the interval `c`, accepting roots `r₁, …, rₙ` at heights `L < h₁ < ⋯ < hₙ` with
`hₙ + c ≤ 2^64` returns, and leaves the commit schedule `CommitSchedule`. -/
theorem acceptTrieAll_commit_schedule (emptyRootHash : Hash) (a : AtomicTrie Hash)
    (calls : List (ℕ × Hash)) (hL : a.commitInterval ∣ a.lastCommittedHeight)
    (hinc : (a.lastCommittedHeight :: calls.map Prod.fst).Pairwise (· < ·)) (hne : calls ≠ [])
    (hwrap : (calls.getLast hne).1 + a.commitInterval ≤ 2 ^ 64) :
    ∃ a' results, a.acceptTrieAll calls = some (a', results) ∧
      CommitSchedule emptyRootHash a calls hne a' results := by
  have hlast : (calls.getLast hne) ∈ calls := List.getLast_mem hne
  -- the heights increase, so none lies above the last
  have hbelow : ∀ p ∈ calls, p.1 + a.commitInterval ≤ 2 ^ 64 := by
    intro p hp
    have hle : p.1 ≤ (calls.map Prod.fst).getLast (by simpa using hne) :=
      ((List.pairwise_cons.mp hinc).2.imp le_of_lt).rel_getLast (List.mem_map_of_mem hp)
    rw [List.getLast_map] at hle
    omega
  have hmap : ∀ k, a.commitInterval ∣ k → a.lastCommittedHeight < k →
      k ≤ (calls.getLast hne).1 →
      (a.acceptTrieAllSpec calls).1.heightMap k =
        some (rootAtOrBelow a.lastAcceptedRoot calls k) :=
    fun k hk hLk hkn => acceptTrieAllSpec_heightMap hL hinc hk hLk ⟨_, hlast, hkn⟩
  refine ⟨_, _, acceptTrieAll_eq hL hinc hbelow, fun k hk hLk hkn => ?_, fun hpos => ?_,
    acceptTrieAllSpec_lastAcceptedRoot hL hinc hne, fun i hi => ?_⟩
  · rw [getRoot, if_neg (by omega)]
    exact hmap k hk hLk hkn
  · have hLC := acceptTrieAllSpec_lastCommittedHeight hL hinc hne
    have hroot := acceptTrieAllSpec_committed hL hinc le_rfl (fun h => absurd h (lt_irrefl _))
      (hLC ▸ hpos)
    rw [hLC, hmap _ (Nat.dvd_mul_left _ _) hpos (Nat.div_mul_le_self _ _)] at hroot
    rw [lastCommitted, hLC, Option.some_inj.mp hroot]
  · -- the calls before call `i` are a run of the same kind
    have hinc' : (a.lastCommittedHeight :: (calls.take i).map Prod.fst).Pairwise (· < ·) :=
      hinc.sublist (((List.take_sublist i calls).map Prod.fst).cons_cons _)
    exact ⟨_, _, acceptTrieAll_eq hL hinc' fun p hp => hbelow p (List.mem_of_mem_take hp),
      acceptTrieAllSpec_results hL hinc i hi⟩

/-- A trie with commit interval 4 and nothing committed yet. -/
def sampleTrie : AtomicTrie ℕ :=
  ⟨4, by decide, 0, 0, 0, fun _ => none⟩

theorem acceptTrieAll_commit_schedule_sample :
    sampleTrie.commitInterval ∣ sampleTrie.lastCommittedHeight ∧
    (sampleTrie.lastCommittedHeight :: [(1, 10), (6, 20), (13, 30)].map Prod.fst).Pairwise
      (· < ·) ∧
    13 + sampleTrie.commitInterval ≤ 2 ^ 64 ∧
    ∃ a' results, sampleTrie.acceptTrieAll [(1, 10), (6, 20), (13, 30)] = some (a', results) ∧
      CommitSchedule 0 sampleTrie [(1, 10), (6, 20), (13, 30)] (by simp) a' results :=
  ⟨by decide, by decide, by decide,
    acceptTrieAll_commit_schedule 0 sampleTrie _ (by decide) (by decide) (by simp) (by decide)⟩

/-- The interval of `wrapTrie` is positive. -/
lemma wrapInterval_pos : 0 < 3 * 2 ^ 62 - 1 := by decide

/-- A trie with commit interval `3·2^62 - 1`, whose only commit heights below `2^64` are `0` and
the interval itself, and nothing committed yet. -/
def wrapTrie : AtomicTrie ℕ :=
  ⟨3 * 2 ^ 62 - 1, wrapInterval_pos, 0, 0, 0, fun _ => none⟩

/-- Past the bound the schedule fails.  `AcceptTrie(3·2^62)` on `wrapTrie` commits at the interval
`c`, then `c + c` wraps to `2^63 - 2` and `2^63 - 2 + c` to `2^62 - 3`, both below the height, so
it commits there too; only `2^62 - 3 + c = 2^64 - 4` ends the loop.  The last commit is then at
`2^62 - 3`, not at `⌊h / c⌋ · c = c`. -/
theorem acceptTrie_wraps_past_commit_height :
    (wrapTrie.acceptTrieAll [(3 * 2 ^ 62, 1)]).map (fun r => r.1.lastCommitted) =
        some (0, 2 ^ 62 - 3) ∧
      3 * 2 ^ 62 / wrapTrie.commitInterval * wrapTrie.commitInterval = 3 * 2 ^ 62 - 1 ∧
      rootAtOrBelow wrapTrie.lastAcceptedRoot [(3 * 2 ^ 62, 1)] (3 * 2 ^ 62 - 1) = 0 :=
  ⟨by decide, by decide, by decide⟩

end AtomicTrie

end Jeth
