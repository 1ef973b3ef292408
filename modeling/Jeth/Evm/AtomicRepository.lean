import Jeth.Lib.SortFunc
import Jeth.Lib.Hex
import Jeth.Evm.AtomicBatch

/-!
# The atomic operations of a block, from the block and from the repository

`mergeAtomicOps` (`plugin/evm/tx.go`) merges the shared-memory operations of a block's atomic
transactions chain by chain, after sorting a copy of them with `Tx.Compare`, which compares the
hex strings of their IDs. The atomic trie holds the merged operations under the key
`height ‖ blockchainID`. `InsertTxs` (`plugin/evm/atomic_backend.go`) computes them from the
transactions of a block in block order. `initialize` computes them again from the height index
of the atomic transaction repository, where `write` (`plugin/evm/atomic_tx_repository.go`)
stored each block's transactions, sorted.

The hex string of an ID is a parameter `hex`: `ids.ID.Hex()` is `hex.EncodeToString` of the
ID's bytes, injective and ordered as the bytes are (`Jeth.Lib.Hex`). Go's maps become an
`AtomicOpsMap` of the chains it holds and their requests, and a trie any type `T` with an
`update` that stands for `trie.Update`. Committing and re-opening the trie, which `initialize`
does after every height, do not change what it holds, and are left out.

The results: `mergeAtomicOps` does not depend on the order of transactions whose IDs are
pairwise distinct (`mergeAtomicOps_eq_of_perm`), and replaying the height index that `Write`
filled block after block rebuilds the trie that `InsertTxs` built block after block
(`initializeLoop_eq_insertTxs`). The source sorts a copy of the caller's slice; the model takes
the list as a value.
-/

namespace Jeth

/-- `UnsignedAtomicTx`: an import or an export. -/
inductive UnsignedAtomicTx (ID Address Owner : Type)
  | importTx (utx : UnsignedImportTx ID Address)
  | exportTx (utx : UnsignedExportTx ID Address Owner)

/-- `Tx`: an unsigned atomic transaction and its `ID()`, the hash of its signed bytes. The
credentials are not read here. -/
structure AtomicTx (ID Address Owner : Type) where
  id : ID
  unsignedAtomicTx : UnsignedAtomicTx ID Address Owner

/-- The map `mergeAtomicOps` returns, `map[ids.ID]*atomic.Requests`: the chains it holds, each
once, in the order they were added, and the requests of each. -/
structure AtomicOpsMap (ChainID K E : Type) where
  chains : List ChainID
  requests : ChainID → Requests K E
  chains_nodup : chains.Nodup

namespace AtomicOpsMap

variable {ChainID K E : Type} [DecidableEq ChainID]

/-- `make(map[ids.ID]*atomic.Requests)`. -/
def empty : AtomicOpsMap ChainID K E := ⟨[], fun _ => .empty, List.nodup_nil⟩

/-- `mergeAtomicOpsToMap(output, chainID, requests)` on the map: the chain is added when the
map does not hold it yet, and its requests are appended. -/
def merge (output : AtomicOpsMap ChainID K E) (chainID : ChainID) (requests : Requests K E) :
    AtomicOpsMap ChainID K E where
  chains := if chainID ∈ output.chains then output.chains else output.chains ++ [chainID]
  requests := mergeAtomicOpsToMap output.requests chainID requests
  chains_nodup := by
    split_ifs with hmem
    · exact output.chains_nodup
    · exact output.chains_nodup.append (List.nodup_singleton chainID)
        (List.disjoint_singleton.mpr hmem)

end AtomicOpsMap

variable {ID Address Owner β : Type} [DecidableEq ID]

/-- `AtomicOps()` of the unsigned transaction; an export names its UTXOs after `txID`. -/
def UnsignedAtomicTx.AtomicOps (ctx : AtomicContext ID Address Owner) (txID : ID) :
    UnsignedAtomicTx ID Address Owner → ID × Requests ID (Element ID Owner)
  | .importTx utx => utx.AtomicOps ctx
  | .exportTx utx => utx.AtomicOps ctx txID

/-- `Tx.Compare`: by the hex strings of the IDs. -/
def AtomicTx.Compare (hex : ID → String) :
    AtomicTx ID Address Owner → AtomicTx ID Address Owner → Ordering :=
  compareBy fun tx => hex tx.id

section Merge

variable (hex : ID → String) (ctx : AtomicContext ID Address Owner)

/-- The transactions as `mergeAtomicOps` and `write` visit them: a sorted copy when there are
two or more. -/
def sortedTxs (txs : List (AtomicTx ID Address Owner)) : List (AtomicTx ID Address Owner) :=
  if 1 < txs.length then sortFunc (AtomicTx.Compare hex) txs else txs

/-- `mergeAtomicOps(txs)`. The encoding of an export's UTXOs, the only step of `AtomicOps` that
can fail, is taken not to fail. -/
def mergeAtomicOps (txs : List (AtomicTx ID Address Owner)) : AtomicOpsMap ID ID (Element ID Owner) :=
  (sortedTxs hex txs).foldl (fun output tx =>
    let (chainID, txRequests) := tx.unsignedAtomicTx.AtomicOps ctx tx.id
    output.merge chainID txRequests) .empty

/-- `UpdateTrie(trie, height, atomicOps)`: each chain's requests are written under
`height ‖ chainID` by `update`. Go visits the chains of the map in no fixed order; the model
visits them in the order they were added, and `UpdateTrie_eq_foldl_of_perm` shows that the
order does not matter to a trie whose updates of distinct keys commute. -/
def UpdateTrie {T : Type} (update : T → ℕ × ID → Requests ID (Element ID Owner) → T) (trie : T)
    (height : ℕ) (atomicOps : AtomicOpsMap ID ID (Element ID Owner)) : T :=
  atomicOps.chains.foldl
    (fun trie chainID => update trie (height, chainID) (atomicOps.requests chainID)) trie

/-- `InsertTxs(blockHash, blockHeight, parentHash, txs)` on the trie opened at the parent's
root: the trie with the block's operations written in. -/
def InsertTxs {T : Type} (update : T → ℕ × ID → Requests ID (Element ID Owner) → T) (trie : T)
    (blockHeight : ℕ) (txs : List (AtomicTx ID Address Owner)) : T :=
  UpdateTrie update trie blockHeight (mergeAtomicOps hex ctx txs)

end Merge

/-! ## The repository -/

/-- The indices of `atomicTxRepository` that `write` fills. -/
structure AtomicTxRepository (ID β : Type) where
  /-- `acceptedAtomicTxDB`: the height each transaction was accepted at. The encoding stored
  with it is not read here. -/
  acceptedAtomicTxDB : ID → Option ℕ
  /-- `acceptedAtomicTxByHeightDB`, in key order: the encoded transactions of each height. -/
  acceptedAtomicTxByHeightDB : List (ℕ × List β)
  /-- The height under `maxIndexedHeightKey`. -/
  maxIndexedHeight : Option ℕ

namespace AtomicTxRepository

variable (hex : ID → String) (codec : AtomicTxCodec (AtomicTx ID Address Owner) β)

/-- `indexTxByID(heightBytes, tx)`. -/
def indexTxByID (repo : AtomicTxRepository ID β) (height : ℕ) (tx : AtomicTx ID Address Owner) :
    AtomicTxRepository ID β :=
  { repo with acceptedAtomicTxDB := Function.update repo.acceptedAtomicTxDB tx.id (some height) }

/-- `write(height, txs, bonus)`: index each transaction by its ID, except, for a bonus block,
one indexed before; then store the encoded transactions at the height, and the height as the
highest indexed one. Transactions are visited, and stored, sorted. -/
def write (repo : AtomicTxRepository ID β) (height : ℕ) (txs : List (AtomicTx ID Address Owner))
    (bonus : Bool) : Except String (AtomicTxRepository ID β) :=
  let txs := sortedTxs hex txs
  if 0 < txs.length then
    let repo := txs.foldl (fun repo tx =>
      if bonus ∧ (repo.acceptedAtomicTxDB tx.id).isSome then repo else repo.indexTxByID height tx)
      repo
    match codec.marshalBatch txs with
    | .error err => .error err
    | .ok txsBytes =>
      .ok { repo with
        acceptedAtomicTxByHeightDB := SortedMap.insert height txsBytes repo.acceptedAtomicTxByHeightDB
        maxIndexedHeight := some height }
  else .ok { repo with maxIndexedHeight := some height }

/-- `Write(height, txs)`. -/
def Write (repo : AtomicTxRepository ID β) (height : ℕ) (txs : List (AtomicTx ID Address Owner)) :
    Except String (AtomicTxRepository ID β) :=
  repo.write hex codec height txs false

/-- `IterateByHeight(height)`: the entries of the height index from `height` on. -/
def IterateByHeight (repo : AtomicTxRepository ID β) (height : ℕ) : List (ℕ × List β) :=
  repo.acceptedAtomicTxByHeightDB.dropWhile fun entry => entry.1 < height

end AtomicTxRepository

/-- The loop of `initialize` over `IterateByHeight(lastCommittedHeight + 1)`: decode each
height's transactions, merge their operations, and write them into the trie. -/
def initializeLoop {T : Type} (update : T → ℕ × ID → Requests ID (Element ID Owner) → T)
    (hex : ID → String) (ctx : AtomicContext ID Address Owner)
    (codec : AtomicTxCodec (AtomicTx ID Address Owner) β) (trie : T) :
    List (ℕ × List β) → Except String T
  | [] => .ok trie
  | (height, txsBytes) :: entries =>
    match ExtractAtomicTxs codec txsBytes true with
    | .error err => .error err
    | .ok txs =>
      initializeLoop update hex ctx codec (UpdateTrie update trie height (mergeAtomicOps hex ctx txs))
        entries


/-! ## Merging does not depend on the order of the transactions -/

section Order

variable (hex : ID → String) (ctx : AtomicContext ID Address Owner)

omit [DecidableEq ID] in
theorem sortedTxs_eq_sortFunc (txs : List (AtomicTx ID Address Owner)) :
    sortedTxs hex txs = sortFunc (AtomicTx.Compare hex) txs := by
  unfold sortedTxs
  split_ifs with hlen
  · rfl
  · exact (sortFunc_of_length_le_one _ (by omega)).symm

omit [DecidableEq ID] in
theorem sortedTxs_perm (txs : List (AtomicTx ID Address Owner)) :
    (sortedTxs hex txs).Perm txs := by
  rw [sortedTxs_eq_sortFunc]
  exact sortFunc_perm _ txs

variable {hex}

omit [DecidableEq ID] in
/-- With an injective `hex`, `Tx.Compare` is a strict order on transactions of pairwise distinct
IDs, so their sorted copy does not depend on their order. -/
theorem sortedTxs_eq_of_perm (hhex : Function.Injective hex)
    {txs txs' : List (AtomicTx ID Address Owner)} (hids : (txs.map AtomicTx.id).Nodup)
    (hperm : txs'.Perm txs) : sortedTxs hex txs' = sortedTxs hex txs := by
  have hkeys : (txs.map fun tx => hex tx.id).Nodup := by
    simpa [List.map_map, Function.comp_def] using hids.map hhex
  rw [sortedTxs_eq_sortFunc, sortedTxs_eq_sortFunc, AtomicTx.Compare]
  exact sortFunc_compareBy_eq_of_perm hperm ((hperm.map _).nodup_iff.mpr hkeys)

theorem mergeAtomicOps_eq_of_perm (hhex : Function.Injective hex)
    {txs txs' : List (AtomicTx ID Address Owner)} (hids : (txs.map AtomicTx.id).Nodup)
    (hperm : txs'.Perm txs) : mergeAtomicOps hex ctx txs' = mergeAtomicOps hex ctx txs := by
  unfold mergeAtomicOps
  rw [sortedTxs_eq_of_perm hhex hids hperm]

/-- What `write` stored, a sorted copy, merges as the transactions do. -/
theorem mergeAtomicOps_sortedTxs (hhex : Function.Injective hex)
    {txs : List (AtomicTx ID Address Owner)} (hids : (txs.map AtomicTx.id).Nodup) :
    mergeAtomicOps hex ctx (sortedTxs hex txs) = mergeAtomicOps hex ctx txs :=
  mergeAtomicOps_eq_of_perm ctx hhex hids (sortedTxs_perm hex txs)

/-- Go visits the chains of the map in no fixed order. The trie is the same for every order
when updates of distinct keys commute. -/
theorem UpdateTrie_eq_foldl_of_perm {T : Type}
    {update : T → ℕ × ID → Requests ID (Element ID Owner) → T}
    (hcomm : ∀ trie k k' v v', k ≠ k' → update (update trie k v) k' v' = update (update trie k' v') k v)
    (trie : T) (height : ℕ) (atomicOps : AtomicOpsMap ID ID (Element ID Owner)) {chains : List ID}
    (hperm : chains.Perm atomicOps.chains) :
    chains.foldl (fun trie chainID => update trie (height, chainID) (atomicOps.requests chainID))
      trie = UpdateTrie update trie height atomicOps := by
  refine hperm.foldl_eq' (fun x _ y _ z => ?_) trie
  by_cases hxy : x = y
  · rw [hxy]
  · exact hcomm z _ _ _ _ (by simpa using hxy)

/-- A block without atomic transactions leaves the trie as it was. -/
@[simp] theorem InsertTxs_nil {T : Type} (update : T → ℕ × ID → Requests ID (Element ID Owner) → T)
    (trie : T) (blockHeight : ℕ) :
    InsertTxs hex ctx update trie blockHeight ([] : List (AtomicTx ID Address Owner)) = trie :=
  rfl

end Order

/-! ## The repository -/

namespace AtomicTxRepository

variable {hex : ID → String} {codec : AtomicTxCodec (AtomicTx ID Address Owner) β}

/-- Indexing transactions by ID leaves the height index alone. -/
theorem acceptedAtomicTxByHeightDB_foldl_indexTxByID (height : ℕ) (bonus : Bool) :
    ∀ (txs : List (AtomicTx ID Address Owner)) (repo : AtomicTxRepository ID β),
      (txs.foldl (fun repo tx =>
        if bonus ∧ (repo.acceptedAtomicTxDB tx.id).isSome then repo
        else repo.indexTxByID height tx) repo).acceptedAtomicTxByHeightDB =
        repo.acceptedAtomicTxByHeightDB
  | [], _ => rfl
  | tx :: txs, repo => by
    rw [List.foldl_cons, acceptedAtomicTxByHeightDB_foldl_indexTxByID height bonus txs]
    split_ifs <;> rfl

/-- `write` at a height above every stored one appends the encoded, sorted transactions to the
height index, or leaves it alone when there are none. -/
theorem write_acceptedAtomicTxByHeightDB {repo repo' : AtomicTxRepository ID β} {height : ℕ}
    {txs : List (AtomicTx ID Address Owner)} {bonus : Bool}
    (h : repo.write hex codec height txs bonus = .ok repo')
    (hbelow : ∀ e ∈ repo.acceptedAtomicTxByHeightDB, e.1 < height) :
    (txs = [] ∧ repo'.acceptedAtomicTxByHeightDB = repo.acceptedAtomicTxByHeightDB) ∨
      ∃ txsBytes, txs ≠ [] ∧ codec.marshalBatch (sortedTxs hex txs) = .ok txsBytes ∧
        repo'.acceptedAtomicTxByHeightDB = repo.acceptedAtomicTxByHeightDB ++ [(height, txsBytes)] := by
  have hlen : (sortedTxs hex txs).length = txs.length := (sortedTxs_perm hex txs).length_eq
  unfold write at h
  dsimp only at h
  split_ifs at h with hpos
  · split at h
    · cases h
    · next txsBytes hbytes =>
      injection h with h
      subst h
      refine .inr ⟨txsBytes, List.ne_nil_of_length_pos (hlen ▸ hpos), hbytes, ?_⟩
      rw [acceptedAtomicTxByHeightDB_foldl_indexTxByID, SortedMap.insert_of_lt_all hbelow]
  · injection h with h
    subst h
    exact .inl ⟨List.eq_nil_of_length_eq_zero (by omega), rfl⟩

end AtomicTxRepository


/-! ## Rebuilding the trie from the repository -/

section Rebuild

variable {hex : ID → String} (ctx : AtomicContext ID Address Owner)
  {codec : AtomicTxCodec (AtomicTx ID Address Owner) β} {T : Type}
  (update : T → ℕ × ID → Requests ID (Element ID Owner) → T)

theorem initializeLoop_append (trie : T) (entries entries' : List (ℕ × List β)) :
    initializeLoop update hex ctx codec trie (entries ++ entries') =
      initializeLoop update hex ctx codec trie entries >>= fun trie =>
        initializeLoop update hex ctx codec trie entries' := by
  induction entries generalizing trie with
  | nil => rfl
  | cons entry entries ih =>
    obtain ⟨height, txsBytes⟩ := entry
    cases hext : ExtractAtomicTxs codec txsBytes true with
    | error err => simp [initializeLoop, hext]
    | ok txs => simp [initializeLoop, hext, ih]

/-- The entry `write` stored for a block replays as `InsertTxs` of the block. -/
theorem initializeLoop_stored (hhex : Function.Injective hex) (trie : T) {height : ℕ}
    {txs : List (AtomicTx ID Address Owner)} {txsBytes : List β} (hne : txs ≠ [])
    (hids : (txs.map AtomicTx.id).Nodup) (hbytes : codec.marshalBatch (sortedTxs hex txs) = .ok txsBytes) :
    initializeLoop update hex ctx codec trie [(height, txsBytes)] =
      .ok (InsertTxs hex ctx update trie height txs) := by
  have hsorted : sortedTxs hex txs ≠ [] := by
    intro h
    have hperm := sortedTxs_perm hex txs
    rw [h] at hperm
    exact hne hperm.nil_eq.symm
  simp only [initializeLoop, ExtractAtomicTxs_of_marshalBatch codec hbytes hsorted,
    mergeAtomicOps_sortedTxs ctx hhex hids]
  rfl

/-- `Write` of blocks at increasing heights, above every height stored, appends one entry per
block with atomic transactions to the height index, and replaying these entries builds the
trie that `InsertTxs` builds block after block. The induction is on the blocks, and the trie
the replay starts from is generalised. -/
theorem foldlM_Write_initializeLoop (hhex : Function.Injective hex) :
    ∀ (blocks : List (ℕ × List (AtomicTx ID Address Owner))) {repo repo' : AtomicTxRepository ID β}
      (trie : T),
      blocks.foldlM (fun repo b => repo.Write hex codec b.1 b.2) repo = .ok repo' →
      (∀ e ∈ repo.acceptedAtomicTxByHeightDB, ∀ b ∈ blocks, e.1 < b.1) →
      (blocks.map Prod.fst).Pairwise (· < ·) →
      (∀ b ∈ blocks, (b.2.map AtomicTx.id).Nodup) →
      ∃ entries, repo'.acceptedAtomicTxByHeightDB = repo.acceptedAtomicTxByHeightDB ++ entries ∧
        (∀ e ∈ entries, ∃ b ∈ blocks, e.1 = b.1) ∧
        initializeLoop update hex ctx codec trie entries =
          .ok (blocks.foldl (fun trie b => InsertTxs hex ctx update trie b.1 b.2) trie)
  | [], repo, repo', trie, h, _, _, _ => by
    rw [List.foldlM_nil, except_pure_eq_ok] at h
    injection h with h
    subst h
    exact ⟨[], by simp, by simp, rfl⟩
  | (height, txs) :: blocks, repo, repo', trie, h, hbelow, hheights, hids => by
    rw [List.foldlM_cons] at h
    obtain ⟨repo₁, hwrite, hrest⟩ := except_bind_eq_ok.mp h
    rw [List.map_cons, List.pairwise_cons] at hheights
    obtain ⟨hfirst, hheights⟩ := hheights
    have hhead : ∀ e ∈ repo.acceptedAtomicTxByHeightDB, e.1 < height :=
      fun e he => hbelow e he _ List.mem_cons_self
    have hids' : ∀ b ∈ blocks, (b.2.map AtomicTx.id).Nodup :=
      fun b hb => hids b (List.mem_cons_of_mem _ hb)
    have hentries_cons : ∀ {entries : List (ℕ × List β)},
        (∀ e ∈ entries, ∃ b ∈ blocks, e.1 = b.1) →
          ∀ e ∈ entries, ∃ b ∈ (height, txs) :: blocks, e.1 = b.1 := by
      intro entries hentries e he
      obtain ⟨b, hb, heq⟩ := hentries e he
      exact ⟨b, List.mem_cons_of_mem _ hb, heq⟩
    rcases AtomicTxRepository.write_acceptedAtomicTxByHeightDB hwrite hhead with
      ⟨rfl, hindex⟩ | ⟨txsBytes, hne, hbytes, hindex⟩
    · -- no atomic transactions: nothing is stored, and the trie is unchanged
      obtain ⟨entries, hindex', hentries, hloop⟩ := foldlM_Write_initializeLoop hhex blocks trie
        hrest (fun e he b hb => hbelow e (hindex ▸ he) b (List.mem_cons_of_mem _ hb)) hheights
        hids'
      exact ⟨entries, by rw [hindex', hindex], hentries_cons hentries, by simpa using hloop⟩
    · -- the block's entry is appended above the others, and replays as `InsertTxs`
      have hbelow₁ : ∀ e ∈ repo₁.acceptedAtomicTxByHeightDB, ∀ b ∈ blocks, e.1 < b.1 := by
        intro e he b hb
        rw [hindex, List.mem_append, List.mem_singleton] at he
        rcases he with he | rfl
        · exact hbelow e he b (List.mem_cons_of_mem _ hb)
        · exact hfirst b.1 (List.mem_map_of_mem hb)
      obtain ⟨entries, hindex', hentries, hloop⟩ := foldlM_Write_initializeLoop hhex blocks
        (InsertTxs hex ctx update trie height txs) hrest hbelow₁ hheights hids'
      refine ⟨(height, txsBytes) :: entries, ?_, fun e he => ?_, ?_⟩
      · rw [hindex', hindex, List.append_assoc, List.singleton_append]
      · rcases List.mem_cons.mp he with rfl | he
        · exact ⟨(height, txs), List.mem_cons_self, rfl⟩
        · exact hentries_cons hentries e he
      · rw [← List.singleton_append, initializeLoop_append,
          initializeLoop_stored ctx update hhex trie hne (hids _ List.mem_cons_self) hbytes]
        exact hloop

/-- `initialize` replays `IterateByHeight(start)`: when the repository held nothing from `start`
on and the blocks from `start` on were written in order of height, the replay rebuilds the
trie `InsertTxs` built from the blocks' transactions in block order. -/
theorem initializeLoop_eq_insertTxs (hhex : Function.Injective hex) (trie : T)
    {blocks : List (ℕ × List (AtomicTx ID Address Owner))} {repo repo' : AtomicTxRepository ID β}
    {start : ℕ} (hwrites : blocks.foldlM (fun repo b => repo.Write hex codec b.1 b.2) repo = .ok repo')
    (hbelow : ∀ e ∈ repo.acceptedAtomicTxByHeightDB, e.1 < start) (hstart : ∀ b ∈ blocks, start ≤ b.1)
    (hheights : (blocks.map Prod.fst).Pairwise (· < ·))
    (hids : ∀ b ∈ blocks, (b.2.map AtomicTx.id).Nodup) :
    initializeLoop update hex ctx codec trie (repo'.IterateByHeight start) =
      .ok (blocks.foldl (fun trie b => InsertTxs hex ctx update trie b.1 b.2) trie) := by
  obtain ⟨entries, hindex, hentries, hloop⟩ := foldlM_Write_initializeLoop ctx update hhex blocks
    trie hwrites (fun e he b hb => lt_of_lt_of_le (hbelow e he) (hstart b hb)) hheights hids
  -- the entries stored before lie below `start`, the new ones from `start` on
  have hiter : repo'.IterateByHeight start = entries := by
    rw [AtomicTxRepository.IterateByHeight, hindex,
      List.dropWhile_append_of_pos (by simpa using hbelow)]
    cases entries with
    | nil => rfl
    | cons e entries =>
      obtain ⟨b, hb, he⟩ := hentries e List.mem_cons_self
      rw [List.dropWhile_cons_of_neg (by simpa [he] using hstart b hb)]
  rw [hiter, hloop]

end Rebuild


/-! ## IDs as bytes -/

/-- `ids.ID.Hex()`: `hex.EncodeToString` of the ID's bytes. -/
def IDHex (id : List UInt8) : String := EncodeToString id

/-- `Tx.Compare` orders transactions as the bytes of their IDs are ordered, lexicographically. -/
theorem Compare_IDHex_eq_lt_iff (tx other : AtomicTx (List UInt8) Address Owner) :
    AtomicTx.Compare IDHex tx other = .lt ↔ tx.id < other.id := by
  rw [AtomicTx.Compare, compareBy_eq_lt_iff]
  exact EncodeToString_lt_iff tx.id other.id

/-- The atomic operations of a block do not depend on the order of its transactions: with IDs
pairwise distinct, `mergeAtomicOps` returns the same map for every permutation of them, and
`initialize`, replaying what `Write` stored, rebuilds the trie that `InsertTxs` built from the
blocks in block order. -/
theorem atomicOps_independent_of_tx_order (ctx : AtomicContext (List UInt8) Address Owner)
    (codec : AtomicTxCodec (AtomicTx (List UInt8) Address Owner) β) :
    (∀ txs txs' : List (AtomicTx (List UInt8) Address Owner), (txs.map AtomicTx.id).Nodup →
      txs'.Perm txs → mergeAtomicOps IDHex ctx txs' = mergeAtomicOps IDHex ctx txs) ∧
    ∀ {T : Type} (update : T → ℕ × List UInt8 → Requests (List UInt8) (Element (List UInt8) Owner) → T)
      (trie : T) (blocks : List (ℕ × List (AtomicTx (List UInt8) Address Owner)))
      (repo repo' : AtomicTxRepository (List UInt8) β) (start : ℕ),
      blocks.foldlM (fun repo b => repo.Write IDHex codec b.1 b.2) repo = .ok repo' →
      (∀ e ∈ repo.acceptedAtomicTxByHeightDB, e.1 < start) → (∀ b ∈ blocks, start ≤ b.1) →
      (blocks.map Prod.fst).Pairwise (· < ·) → (∀ b ∈ blocks, (b.2.map AtomicTx.id).Nodup) →
      initializeLoop update IDHex ctx codec trie (repo'.IterateByHeight start) =
        .ok (blocks.foldl (fun trie b => InsertTxs IDHex ctx update trie b.1 b.2) trie) :=
  ⟨fun _ _ hids hperm => mergeAtomicOps_eq_of_perm ctx EncodeToString_injective hids hperm,
    fun update trie _ _ _ _ hwrites hbelow hstart hheights hids =>
      initializeLoop_eq_insertTxs ctx update EncodeToString_injective trie hwrites hbelow hstart
        hheights hids⟩

/-! ## A sample block -/

/-- A context whose IDs are byte strings, every check outside this repository passing. -/
def sampleHexContext : AtomicContext (List UInt8) (Fin 2) Unit where
  networkID := 1
  chainID := [0]
  jvmChainID := [5]
  juneChainID := [0]
  chainAssetID := [7]
  juneAssetID := [7]
  platformChainID := [9]
  emptyID := []
  idString := EncodeToString
  inputID := fun txID i => txID ++ [UInt8.ofNat i]
  packNonceAddress := fun nonce _ => [UInt8.ofNat nonce]
  sameSupernet := fun _ => true
  isPrimaryAssetID := fun _ => true
  verifyInput := fun _ => .ok ()
  verifyOutput := fun _ => .ok ()
  isSortedTransferableOutputs := fun _ => true

/-- The encoding of the sample codec: a version marker, then the transactions. -/
def sampleMarshalBatch {α : Type} (txs : List α) : Except String (List (Option α)) :=
  .ok (none :: txs.map some)

/-- The decoding of the sample codec: the transactions after the marker. -/
def sampleUnmarshalBatch {α : Type} (bytes : List (Option α)) : Except String (List α) :=
  .ok (bytes.filterMap id)

theorem sampleUnmarshalBatch_marshalBatch {α : Type} :
    ∀ (txs : List α) bytes, sampleMarshalBatch txs = .ok bytes →
      sampleUnmarshalBatch bytes = .ok txs := by
  intro txs bytes h
  cases h
  simp [sampleUnmarshalBatch, List.filterMap_map]

theorem sampleMarshalBatch_ne_nil {α : Type} :
    ∀ (txs : List α) bytes, sampleMarshalBatch txs = .ok bytes → bytes ≠ [] := by
  intro txs bytes h
  cases h
  exact List.cons_ne_nil _ _

/-- A codec whose batches decode to what was encoded. -/
def sampleTxCodec :
    AtomicTxCodec (AtomicTx (List UInt8) (Fin 2) Unit) (Option (AtomicTx (List UInt8) (Fin 2) Unit)) :=
  ⟨sampleMarshalBatch, sampleUnmarshalBatch, fun _ => .error "unsupported",
    sampleUnmarshalBatch_marshalBatch, sampleMarshalBatch_ne_nil⟩

/-- An import from chain `[5]`. -/
def sampleHexImport : AtomicTx (List UInt8) (Fin 2) Unit :=
  ⟨[1], .importTx ⟨1, [0], [5], [⟨[3], 0, [7], 2000000, [0]⟩], [⟨0, 1000000, [7]⟩], 200⟩⟩

/-- An export to chain `[5]`, whose operations merge with those of `sampleHexImport`. -/
def sampleHexExport : AtomicTx (List UInt8) (Fin 2) Unit :=
  ⟨[2], .exportTx ⟨1, [0], [5], [⟨0, 2000000, [7], 0⟩], [⟨[7], ⟨1000000, 0, 1, [()]⟩⟩], 200⟩⟩

/-- A trie that records its updates in order. -/
def sampleUpdate (trie : List ((ℕ × List UInt8) × Requests (List UInt8) (Element (List UInt8) Unit)))
    (key : ℕ × List UInt8) (requests : Requests (List UInt8) (Element (List UInt8) Unit)) :
    List ((ℕ × List UInt8) × Requests (List UInt8) (Element (List UInt8) Unit)) :=
  trie ++ [(key, requests)]

/-- An empty repository. -/
def sampleRepository : AtomicTxRepository (List UInt8) (Option (AtomicTx (List UInt8) (Fin 2) Unit)) :=
  ⟨fun _ => none, [], none⟩

/-- The two transactions merge alike in either order. The repository written with one block at
height 1, the import, and one at height 2, the export, replays to the trie `InsertTxs` builds. -/
theorem atomicOps_independent_of_tx_order_sample :
    mergeAtomicOps IDHex sampleHexContext [sampleHexExport, sampleHexImport] =
        mergeAtomicOps IDHex sampleHexContext [sampleHexImport, sampleHexExport] ∧
      ∃ repo', [(1, [sampleHexImport]), (2, [sampleHexExport])].foldlM
          (fun repo b => repo.Write IDHex sampleTxCodec b.1 b.2) sampleRepository = .ok repo' ∧
        initializeLoop sampleUpdate IDHex sampleHexContext sampleTxCodec [] (repo'.IterateByHeight 1) =
          .ok ([(1, [sampleHexImport]), (2, [sampleHexExport])].foldl
            (fun trie b => InsertTxs IDHex sampleHexContext sampleUpdate trie b.1 b.2) []) := by
  -- one transaction a block: `write` stores it without sorting
  obtain ⟨repo', hwrites⟩ : ∃ repo', [(1, [sampleHexImport]), (2, [sampleHexExport])].foldlM
      (fun repo b => repo.Write IDHex sampleTxCodec b.1 b.2) sampleRepository = .ok repo' :=
    ⟨_, rfl⟩
  have hids : ∀ b ∈ [(1, [sampleHexImport]), (2, [sampleHexExport])],
      (b.2.map AtomicTx.id).Nodup := by
    decide
  exact ⟨(atomicOps_independent_of_tx_order sampleHexContext sampleTxCodec).1 _ _ (by decide)
      (List.Perm.swap _ _ []), repo', hwrites,
    (atomicOps_independent_of_tx_order sampleHexContext sampleTxCodec).2 sampleUpdate [] _ _ _ 1
      hwrites (by simp [sampleRepository]) (by simp) (by simp) hids⟩

end Jeth
