import Mathlib

/-!
# Leaf sync: `CallbackLeafSyncer.syncTask` and trie segments

`CallbackLeafSyncer.syncTask` (`sync/client/leaf_syncer.go`) fetches the leaves of one trie
range in requests of `requestSize` leaves.  Each response is truncated to the task's end key,
handed to the task's `OnLeafs` callback, and the next request starts one past the last key
returned, computed by `utils.IncrOne`, which increments a byte string in place.

Byte strings are `List UInt8`, compared as `bytes.Compare` does, lexicographically.  A Go
interface becomes a structure of functions over the task's own state.  Go slices alias: the
keys of a response are slices that the callback may keep and modify, and `syncTask` modifies
the last of them itself.  The model therefore keeps the response's key slices in a store
`SliceHeap` and passes slice indices; `trieSegment.OnLeafs` (`sync/statesync/trie_segments.go`)
keeps the index of the last key as its position and increments that slice in place, and
`syncTask` then increments the same slice again.

The loop of `syncTask` runs for as long as the responder reports more leaves; the model takes
fuel and returns `none` when the fuel runs out.  The request context never expires in the
model.
-/

namespace Jeth

/-- A key or value as the sync code sees it: a byte string. -/
abbrev Bytes := List UInt8

/-! ## `IncrOne` -/

/-- The loop of `IncrOne` on the bytes from the last one back: a byte below 255 is incremented
and ends the loop, a byte 255 becomes 0 and the carry moves on. -/
def incrOneRev : Bytes → Bytes
  | [] => []
  | b :: rest => if b < 255 then (b + 1) :: rest else 0 :: incrOneRev rest

/-- `utils.IncrOne`: increment a big-endian byte string by one, wrapping all-0xff to zero. -/
def incrOne (bytes : Bytes) : Bytes :=
  (incrOneRev bytes.reverse).reverse

lemma incrOneRev_length (bytes : Bytes) : (incrOneRev bytes).length = bytes.length := by
  induction bytes with
  | nil => rfl
  | cons b rest ih => unfold incrOneRev; split <;> simp [ih]

lemma incrOne_length (bytes : Bytes) : (incrOne bytes).length = bytes.length := by
  simp [incrOne, incrOneRev_length]

/-! ## Requests, responses and tasks -/

/-- `message.NodeType`. -/
inductive NodeType
  | stateTrieNode
  | atomicTrieNode
  deriving DecidableEq, Repr

/-- `message.LeafsRequest`. -/
structure LeafsRequest (Hash : Type) where
  root : Hash
  account : Hash
  start : Bytes
  limit : ℕ
  nodeType : NodeType

/-- `message.LeafsResponse` as `LeafClient.GetLeafs` returns it, after the client verified its
range proof. -/
structure LeafsResponse where
  keys : List Bytes
  vals : List Bytes
  more : Bool

/-- The byte slices a sync run allocates, by index: the keys of each response, in order. -/
abbrev SliceHeap := List Bytes

/-- `LeafSyncTask`, over the task's state `σ`.  `start` is passed by value: `syncTask` never
writes through it.  The callbacks see the response's key slices by index in the slice store,
and may write to the store; `onLeafs` and `onFinish` give `none` when they do not return. -/
structure LeafSyncTask (Hash σ : Type) where
  root : σ → Hash
  account : σ → Hash
  start : σ → SliceHeap → Bytes
  /-- `End()`, with `none` for a nil end key. -/
  endKey : σ → Option Bytes
  nodeType : NodeType
  onStart : σ → Except String (Bool × σ)
  onLeafs : σ → SliceHeap → List ℕ → List Bytes → Option (Except String (σ × SliceHeap))
  onFinish : σ → SliceHeap → Option (Except String σ)

/-- `errFailedToFetchLeafs`. -/
def errFailedToFetchLeafs : String := "failed to fetch leafs"

/-- The truncation loop of `syncTask`, counting kept keys: starting from all `n` keys, drop the
last one while it lies past `endKey`, and record in `done` that a key was dropped. -/
def keepUpToEnd (endKey : Bytes) (keys : List Bytes) : ℕ → Bool → ℕ × Bool
  | 0, done => (0, done)
  | n + 1, done =>
    if keys.getD n [] ≤ endKey then (n + 1, done) else keepUpToEnd endKey keys n true

/-- The response's keys (as slice indices) and values truncated to the task's end key, and
whether anything was cut off. -/
def truncateResponse (endKey : Option Bytes) (keys : List Bytes) (ids : List ℕ)
    (vals : List Bytes) : List ℕ × List Bytes × Bool :=
  match endKey with
  | some e =>
    if keys.length > 0 then
      let (n, done) := keepUpToEnd e keys keys.length false
      (ids.take n, vals.take n, done)
    else (ids, vals, false)
  | none => (ids, vals, false)

section SyncTask

variable {Hash σ : Type} (client : LeafsRequest Hash → Except String LeafsResponse)
  (task : LeafSyncTask Hash σ) (requestSize : ℕ)

/-- The request loop of `syncTask`, from key `start` in task state `s`.  The keys of each
response are allocated as new slices at the end of the store.  Returns `none` when the fuel
runs out or a callback does not return. -/
def syncTaskLoop (root : Hash) : ℕ → Bytes → σ → SliceHeap → Option (Except String σ)
  | 0, _, _, _ => none
  | fuel + 1, start, s, heap =>
    match client ⟨root, task.account s, start, requestSize, task.nodeType⟩ with
    | .error err => some (.error (errFailedToFetchLeafs ++ ": " ++ err))
    | .ok resp =>
      let ids := List.range' heap.length resp.keys.length
      let heap := heap ++ resp.keys
      let (ids, vals, done) := truncateResponse (task.endKey s) resp.keys ids resp.vals
      match task.onLeafs s heap ids vals with
      | none => none
      | some (.error err) => some (.error err)
      | some (.ok (s', heap')) =>
        if done || !resp.more then task.onFinish s' heap'
        else
          match ids.getLast? with
          | none => some (.error "found no keys in a response with more set to true")
          | some last =>
            -- `start = leafsResponse.Keys[len-1]; utils.IncrOne(start)`: in place
            let heap'' := heap'.set last (incrOne (heap'.getD last []))
            syncTaskLoop root fuel (heap''.getD last []) s' heap''

/-- `CallbackLeafSyncer.syncTask`, from an empty slice store. -/
def syncTask (fuel : ℕ) (s : σ) : Option (Except String σ) :=
  let root := task.root s
  let start := task.start s []
  match task.onStart s with
  | .error err => some (.error err)
  | .ok (true, s') => some (.ok s')
  | .ok (false, s') => syncTaskLoop client task requestSize root fuel start s' []

end SyncTask

/-! ## Trie segments -/

/-- The fields of `trieSegment` and of the trie it belongs to that its callbacks read.  `pos`
is a slice of a response, by index in the slice store; `inner` is the state of the trie's
`syncTask` (main trie or storage trie task), which writes the leaves it is given. -/
structure TrieSegment (Hash τ : Type) where
  root : Hash
  account : Hash
  start : Bytes
  pos : Option ℕ
  endKey : Option Bytes
  leafs : ℕ
  /-- `len(t.trie.segments)`. -/
  numSegments : ℕ
  inner : τ

/-- `segmentThreshold`: estimated leaf count above which a trie is split into segments. -/
def segmentThreshold : ℕ := 500000

/-- `numStorageTrieSegments`. -/
def numStorageTrieSegments : ℕ := 4

/-- `binary.BigEndian.Uint16` of the first two bytes. -/
def bigEndianUint16 (b : Bytes) : ℕ :=
  (b.getD 0 0).toNat * 256 + (b.getD 1 0).toNat

namespace TrieSegment

variable {Hash τ : Type}

/-- `trieSegment.Start`: the position if one was recorded, the segment start otherwise. -/
def startKey (t : TrieSegment Hash τ) (heap : SliceHeap) : Bytes :=
  match t.pos with
  | some i => heap.getD i []
  | none => t.start

/-- `trieSegment.estimateSize`, with the `uint16` subtractions wrapping. -/
def estimateSize (t : TrieSegment Hash τ) (heap : SliceHeap) : ℕ :=
  let start := if t.start.length > 0 then bigEndianUint16 t.start else 0
  let pos := match t.pos with
    | some i => if (heap.getD i []).length > 0 then bigEndianUint16 (heap.getD i []) else 0
    | none => 0
  let e := match t.endKey with
    | some e => if e.length > 0 then bigEndianUint16 e else 0xffff
    | none => 0xffff
  let progress := (pos + 65536 - start) % 65536
  if progress = 0 then 0 else t.leafs * ((e + 65536 - pos) % 65536) / progress

/-- `trieToSync.shouldSegment`, seen from the trie's first segment. -/
def shouldSegment (t : TrieSegment Hash τ) (heap : SliceHeap) : Bool :=
  if t.numSegments > 1 then false else decide (segmentThreshold ≤ t.estimateSize heap)

/-- `trieToSync.createSegmentsIfNeeded`.  The splitting itself, `createSegments`, is a
parameter here. -/
def createSegmentsIfNeeded
    (createSegments : ℕ → TrieSegment Hash τ → SliceHeap → Except String (TrieSegment Hash τ))
    (numSegments : ℕ) (t : TrieSegment Hash τ) (heap : SliceHeap) :
    Except String (TrieSegment Hash τ) :=
  if t.shouldSegment heap then createSegments numSegments t heap else .ok t

/-- `trieSegment.OnLeafs` for a storage trie: hand the leaves to the trie's task, count them,
make the last key's slice the position and increment it in place, and split the trie if it is
large. -/
def onLeafs (taskOnLeafs : τ → List Bytes → List Bytes → Except String τ)
    (createSegments : ℕ → TrieSegment Hash τ → SliceHeap → Except String (TrieSegment Hash τ))
    (t : TrieSegment Hash τ) (heap : SliceHeap) (keys : List ℕ) (vals : List Bytes) :
    Except String (TrieSegment Hash τ × SliceHeap) := do
  let inner ← taskOnLeafs t.inner (keys.map fun i => heap.getD i []) vals
  let t := { t with inner, leafs := t.leafs + keys.length }
  -- `t.pos = keys[len(keys)-1]; utils.IncrOne(t.pos)`: the position aliases the key
  let (t, heap) := match keys.getLast? with
    | some last => ({ t with pos := some last }, heap.set last (incrOne (heap.getD last [])))
    | none => (t, heap)
  let t ← t.createSegmentsIfNeeded createSegments numStorageTrieSegments heap
  return (t, heap)

/-- A storage-trie segment as a `LeafSyncTask`. -/
def leafSyncTask (taskOnStart : τ → Except String (Bool × τ))
    (taskOnLeafs : τ → List Bytes → List Bytes → Except String τ)
    (createSegments : ℕ → TrieSegment Hash τ → SliceHeap → Except String (TrieSegment Hash τ))
    (segmentFinished : TrieSegment Hash τ → SliceHeap → Except String (TrieSegment Hash τ)) :
    LeafSyncTask Hash (TrieSegment Hash τ) where
  root t := t.root
  account t := t.account
  start t heap := t.startKey heap
  endKey t := t.endKey
  nodeType := .stateTrieNode
  onStart t := do
    let (skip, inner) ← taskOnStart t.inner
    return (skip, { t with inner })
  onLeafs t heap keys vals := some (t.onLeafs taskOnLeafs createSegments heap keys vals)
  onFinish t heap := some (segmentFinished t heap)

end TrieSegment

/-- An honest responder over the leaves of a trie, sorted by key: each request is answered with
the first `n` leaves at or after its start, with `more` set when leaves remain after them. -/
def prefixResponder {Hash : Type} (leaves : List (Bytes × Bytes)) (n : ℕ)
    (req : LeafsRequest Hash) : Except String LeafsResponse :=
  let rest := leaves.filter fun kv => decide (req.start ≤ kv.1)
  .ok ⟨(rest.take n).map Prod.fst, (rest.take n).map Prod.snd, decide (n < rest.length)⟩

/-- `storageTrieTask.OnLeafs`: write every leaf to the storage snapshot of every account that
shares the trie.  The snapshot is the list of `(account, key, value)` writes. -/
def storageTrieTaskOnLeafs {Hash : Type} (accounts : List Hash)
    (snapshot : List (Hash × Bytes × Bytes)) (keys vals : List Bytes) :
    Except String (List (Hash × Bytes × Bytes)) :=
  .ok (snapshot ++ accounts.flatMap fun account =>
    (keys.zip vals).map fun kv => (account, kv.1, kv.2))

/-- A 32-byte key `0x00…00b`. -/
def sampleKey (b : UInt8) : Bytes := List.replicate 31 0 ++ [b]

/-- A storage trie with the two adjacent keys `0x00…00` and `0x00…01`. -/
def sampleLeaves : List (Bytes × Bytes) := [(sampleKey 0, [7]), (sampleKey 1, [8])]

/-- The only segment of that storage trie (root 1, for account 2), not started yet. -/
def sampleSegment : TrieSegment ℕ (List (ℕ × Bytes × Bytes)) :=
  ⟨1, 2, sampleKey 0, none, none, 0, 1, []⟩

/-- The segment as a leaf sync task: the storage trie is not on disk, and the trie is too small
to split, so `createSegments` is never reached. -/
def sampleSegmentTask : LeafSyncTask ℕ (TrieSegment ℕ (List (ℕ × Bytes × Bytes))) :=
  TrieSegment.leafSyncTask (fun inner => .ok (false, inner)) (storageTrieTaskOnLeafs [2])
    (fun _ t _ => .ok t) (fun t _ => .ok t)

/-- With an honest responder that answers one leaf per request, the storage snapshot receives
the first key only: `trieSegment.OnLeafs` increments the last key of the response in place, and
`syncTask` increments the same slice again, so the next request starts two past it and the key
`0x00…01` is never requested. -/
theorem syncTask_trieSegment_skips_adjacent_key :
    (syncTask (prefixResponder sampleLeaves 1) sampleSegmentTask 1 3 sampleSegment).map
        (Except.map fun t => t.inner.map fun w => w.2.1) = some (.ok [sampleKey 0]) ∧
      sampleLeaves.map Prod.fst = [sampleKey 0, sampleKey 1] :=
  ⟨rfl, rfl⟩

end Jeth
