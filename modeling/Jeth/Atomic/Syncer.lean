import Jeth.Atomic.Trie
import Jeth.Lib.SortedMap
import Jeth.Sync.LeafSyncer

/-!
# Syncing the atomic trie from peers

`atomicSyncer` (`plugin/evm/atomic_syncer.go`) rebuilds the atomic trie from the leaves that
`CallbackLeafSyncer` fetches, in key order, starting above the last committed height.  Keys are
40 bytes: an 8-byte big-endian height followed by a 32-byte blockchain ID.  When `onLeafs`
meets the first key of a new height it hashes the trie built so far and accepts it at the
previous height; `onFinish` hashes the whole trie and accepts it at the target height.  Where
`AcceptTrie` does not return (its commit loop wraps past `2^64` forever), neither does the
callback: it gives `none`.

The trie being built is its key-sorted list of leaves, and its root is `rootOf` of that list:
the trie root is a function of the trie's key/value set.  `openTrie` gives back the leaves of a
committed root.  Inserting nodes into the trie database and flushing it only move data between
memory and disk and are not modelled.
-/

namespace Jeth

/-- `atomicKeyLength`: 8 bytes of height and 32 of blockchain ID. -/
def atomicKeyLength : ℕ := 40

/-- `database.PackUInt64` (and `Packer.PackLong`): 8 bytes, big-endian. -/
def packUInt64 (n : ℕ) : Bytes :=
  (List.range 8).reverse.map fun i => UInt8.ofNat (n / 256 ^ i % 256)

/-- `binary.BigEndian.Uint64` of the first 8 bytes. -/
def bigEndianUint64 (b : Bytes) : ℕ :=
  (b.take 8).foldl (fun acc x => acc * 256 + x.toNat) 0

/-- `addZeroes`: the smallest atomic key at `height`. -/
def addZeroes (height : ℕ) : Bytes :=
  packUInt64 height ++ List.replicate 32 0

/-- The fields of `atomicSyncer`: the atomic trie it fills, the leaves of the trie being built,
the target, and the greatest height whose leaves were inserted. -/
structure AtomicSyncer (Hash : Type) where
  atomicTrie : AtomicTrie Hash
  trie : List (Bytes × Bytes)
  targetRoot : Hash
  targetHeight : ℕ
  lastHeight : ℕ

namespace AtomicSyncer

variable {Hash : Type} (rootOf : List (Bytes × Bytes) → Hash)

/-- `newAtomicSyncer`: start from the last committed trie, at the last committed height. -/
def new (openTrie : Hash → List (Bytes × Bytes)) (atomicTrie : AtomicTrie Hash)
    (targetRoot : Hash) (targetHeight : ℕ) : AtomicSyncer Hash :=
  { atomicTrie
    trie := openTrie atomicTrie.lastCommittedRoot
    targetRoot
    targetHeight
    lastHeight := atomicTrie.lastCommittedHeight }

/-- One key of `onLeafs`: at the first key of a new height, accept the trie built so far at the
previous height; then insert the leaf. -/
def onLeaf (s : AtomicSyncer Hash) (key value : Bytes) :
    Option (Except String (AtomicSyncer Hash)) :=
  if key.length ≠ atomicKeyLength then
    some (.error ("unexpected key len (" ++ toString key.length ++ ") in atomic trie sync"))
  else
    let height := bigEndianUint64 key
    let s? :=
      if height > s.lastHeight then
        -- the reopened trie holds the same leaves as the committed one
        (s.atomicTrie.acceptTrie s.lastHeight (rootOf s.trie)).map fun r =>
          { s with atomicTrie := r.1, lastHeight := height }
      else some s
    s?.map fun s => .ok { s with trie := SortedMap.insert key value s.trie }

/-- `atomicSyncer.onLeafs`. -/
def onLeafs (s : AtomicSyncer Hash) (keys values : List Bytes) :
    Option (Except String (AtomicSyncer Hash)) :=
  ExceptT.run <| (keys.zip values).foldlM (fun s kv => ExceptT.mk (s.onLeaf rootOf kv.1 kv.2)) s

/-- `atomicSyncer.onFinish`: accept the whole trie at the target height and check its root. -/
def onFinish [DecidableEq Hash] [ToString Hash] (s : AtomicSyncer Hash) :
    Option (Except String (AtomicSyncer Hash)) :=
  let root := rootOf s.trie
  (s.atomicTrie.acceptTrie s.targetHeight root).map fun r =>
    let s := { s with atomicTrie := r.1 }
    if s.targetRoot ≠ root then
      .error ("synced root (" ++ toString root ++ ") does not match expected (" ++
        toString s.targetRoot ++ ") for atomic trie ")
    else .ok s

/-- `atomicSyncerLeafTask`: one task for the whole atomic trie, from the height above the last
one inserted, with no end key.  It keeps no slice of a response. -/
def leafSyncTask [DecidableEq Hash] [ToString Hash] (zeroHash : Hash) :
    LeafSyncTask Hash (AtomicSyncer Hash) where
  root s := s.targetRoot
  account _ := zeroHash
  start s _ := addZeroes (s.lastHeight + 1)
  endKey _ := none
  nodeType := .atomicTrieNode
  onStart s := .ok (false, s)
  onLeafs s heap keys vals :=
    (s.onLeafs rootOf (keys.map fun i => heap.getD i []) vals).map (Except.map fun s => (s, heap))
  onFinish s _ := s.onFinish rootOf

end AtomicSyncer

/-- Two leaves of blockchain `0x00…00`, at heights 1 and 2. -/
def sampleAtomicLeaves : List (Bytes × Bytes) := [(addZeroes 1, [1]), (addZeroes 2, [2])]

/-- A node that has not committed anything, with commit interval 4, syncing the trie of
`sampleAtomicLeaves` to target height 8.  Roots are the leaf lists themselves. -/
def sampleAtomicSyncer : AtomicSyncer (List (Bytes × Bytes)) :=
  AtomicSyncer.new id ⟨4, AtomicTrie.sampleTrie.commitInterval_pos, [], 0, [], fun _ => none⟩
    sampleAtomicLeaves 8

set_option maxRecDepth 8000 in
/-- The sync finishes without error, yet the commit height 4 holds the trie of the height-1
leaf alone, although both leaves lie at or below 4: `onLeafs` never accepts the trie at the
last leaf height 2, and `onFinish`'s `AcceptTrie(8, root)` fills the skipped commit height 4
with the root accepted before, the one of height 1. -/
theorem atomicSyncer_commit_height_misses_last_leaf :
    (syncTask (prefixResponder sampleAtomicLeaves 2) (AtomicSyncer.leafSyncTask id []) 2 3
        sampleAtomicSyncer).map (Except.map fun s => s.atomicTrie.getRoot [] 4) =
      some (.ok (some [(addZeroes 1, [1])])) ∧
    sampleAtomicLeaves.filter (fun kv => bigEndianUint64 kv.1 ≤ 4) = sampleAtomicLeaves :=
  ⟨rfl, rfl⟩

end Jeth
