import Jeth.Sync.LeafSyncer
import Jeth.Lib.SortedMap
import Jeth.Lib.FlowChecker

/-!
# Serving leafs: `LeafsRequestHandler.OnLeafsRequest`

`LeafsRequestHandler.OnLeafsRequest` (`sync/handlers/leafs_request.go`) answers a request for
the leaves of the trie at `Root` with keys in `[Start, End]`, at most `Limit` of them (and at
most `maxLeavesLimit`), with a range proof of the leaves returned.  Its `responseBuilder` reads
the trie with `fillFromTrie`; when a snapshot is provided it first reads the snapshot, checks
the whole read against the trie with a range proof, and failing that checks it in segments of
`segmentLen` leaves.  A valid segment is appended to the response: directly after the previous
valid segment, which `nextKey` continues one past the last key with `utils.IncrOne`, or after a
gap that `fillFromTrie` fills up to the segment's first key, which is then dropped again since
the segment brings it.

The trie is the list of its leaves in key order, which is what `trie.NewIterator` walks; the
database errors of its iterators are not modelled.  The trie's nodes are not modelled either:
`Trie.Prove`, `iterateVals` and `trie.VerifyRangeProof` are operations of a `TrieDB`, and
`TrieDB.Sound` states what `VerifyRangeProof` answers for a proof that `Prove` built of the two
edge keys when every key lies between the edges (`expectedRange`).  The request context never
expires, so the snapshot's shortened deadline and the `ctx.Err()` checks drop out, and the
stats are left out.
-/

namespace Jeth

/-! ## Requests, responses and the trie -/

/-- `message.LeafsRequest` as the handler reads it: the fields the client model has, and
`End`, which `CallbackLeafSyncer` leaves empty. -/
structure LeafsRangeRequest (Hash : Type) extends LeafsRequest Hash where
  endKey : Bytes

/-- `message.LeafsResponse` as the handler fills it: the leaves and the nodes of their range
proof.  `More` is set by the client. -/
structure ServedLeafsResponse where
  keys : List Bytes
  vals : List Bytes
  proofVals : List Bytes
  deriving DecidableEq, Repr

/-- The response without its last leaf. -/
def ServedLeafsResponse.dropLastLeaf (response : ServedLeafsResponse) : ServedLeafsResponse :=
  { response with keys := response.keys.dropLast, vals := response.vals.dropLast }

/-- `maxLeavesLimit`. -/
def maxLeavesLimit : ℕ := 1024

/-- `segmentLen`. -/
def segmentLen : ℕ := 64

/-- `getKeyLength`: `wrappers.LongLen + common.HashLength` for the atomic trie and
`common.HashLength` for the state trie. -/
def getKeyLength : NodeType → ℕ
  | .atomicTrieNode => 8 + 32
  | .stateTrieNode => 32

/-- `common.BytesToHash`, as bytes: the last 32 bytes, padded with zero bytes on the left. -/
def bytesToHash (b : Bytes) : Bytes :=
  List.replicate (32 - b.length) 0 ++ b.drop (b.length - 32)

/-- The trie database and the proof functions of package `trie`, over root hashes `Hash` and
proof databases `Proof`. -/
structure TrieDB (Hash Proof : Type) where
  /-- `trie.New(trie.TrieID(root), trieDB)`, as the leaves its iterator walks in key order;
  `none` when the root is not in the database. -/
  trie : Hash → Option (List (Bytes × Bytes))
  /-- `types.EmptyRootHash`. -/
  emptyRootHash : Hash
  /-- `memorydb.New()`. -/
  newProof : Proof
  /-- `t.Prove(key, proof)` on the trie at `root`. -/
  prove : Hash → Bytes → Proof → Except String Proof
  /-- `iterateVals(proof)`: the nodes in a proof database. -/
  iterateVals : Proof → List Bytes
  /-- `trie.VerifyRangeProof(root, firstKey, lastKey, keys, vals, proof)`. -/
  verifyRangeProof : Hash → Bytes → Bytes → List Bytes → List Bytes → Proof → Except String Bool

namespace TrieDB

variable {Hash Proof : Type} (db : TrieDB Hash Proof)

/-- A range proof as `generateRangeProof` builds it from a padded start: `Prove` of the start,
then of the last key when there is one. -/
def proveRange (root : Hash) (start : Bytes) (keys : List Bytes) : Except String Proof := do
  let proof ← db.prove root start db.newProof
  match keys.getLast? with
  | some lastKey => db.prove root lastKey proof
  | none => pure proof

end TrieDB

/-- What a sound and complete range proof over the leaves `t` answers for `keys` and `vals`
from `firstKey` on (`none` for an error): with no keys, that `t` has no leaf from `firstKey`
on, and no more leaves; otherwise, that the keys and values are `t`'s leaves from `firstKey` to
the last key, and whether `t` has a leaf past the last key. -/
def expectedRange (t : List (Bytes × Bytes)) (firstKey : Bytes) (keys vals : List Bytes) :
    Option Bool :=
  if keys.length = vals.length then
    match keys.getLast? with
    | none => if t.all fun leaf => leaf.1 < firstKey then some false else none
    | some lastKey =>
      if keys.zip vals = t.filter (fun leaf => firstKey ≤ leaf.1 ∧ leaf.1 ≤ lastKey) then
        some (t.any fun leaf => lastKey < leaf.1)
      else none
  else none

/-- The laws of the trie package that the handler relies on.  The empty root holds no leaves;
`Prove` succeeds on a trie in the database; and `VerifyRangeProof`, given a proof that
`Prove` built of `firstKey` and the last key, answers as `expectedRange` when every key lies
from `firstKey` on and all keys have `firstKey`'s length.  Keys before `firstKey` are left out:
for them `VerifyRangeProof` can answer otherwise. -/
structure TrieDB.Sound {Hash Proof : Type} (db : TrieDB Hash Proof) : Prop where
  emptyRoot : db.trie db.emptyRootHash = some []
  prove_ok : ∀ root t key proof, db.trie root = some t → ∃ proof', db.prove root key proof = .ok proof'
  verify : ∀ root t firstKey keys vals proof, db.trie root = some t →
    db.proveRange root firstKey keys = .ok proof →
    (∀ k ∈ keys, firstKey ≤ k ∧ k.length = firstKey.length) →
    (∀ leaf ∈ t, leaf.1.length = firstKey.length) →
    (db.verifyRangeProof root firstKey (keys.getLast?.getD []) keys vals proof).toOption =
      expectedRange t firstKey keys vals

/-- The trie database whose range proofs answer exactly as `expectedRange`: proofs carry
nothing, and verifying reads the trie's leaves. -/
def TrieDB.reference {Hash : Type} (trie : Hash → Option (List (Bytes × Bytes)))
    (emptyRootHash : Hash) : TrieDB Hash Unit where
  trie := trie
  emptyRootHash := emptyRootHash
  newProof := ()
  prove _ _ _ := .ok ()
  iterateVals _ := []
  verifyRangeProof root firstKey _ keys vals _ :=
    match (trie root).bind fun t => expectedRange t firstKey keys vals with
    | some more => .ok more
    | none => .error "invalid proof"

/-- The reference database keeps the laws: they can be met. -/
theorem TrieDB.reference_sound {Hash : Type} {trie : Hash → Option (List (Bytes × Bytes))}
    {emptyRootHash : Hash} (hempty : trie emptyRootHash = some []) :
    (TrieDB.reference trie emptyRootHash).Sound where
  emptyRoot := hempty
  prove_ok _ _ _ _ _ := ⟨(), rfl⟩
  verify root t firstKey keys vals _ ht _ _ _ := by
    have ht' : trie root = some t := ht
    have hbind : ((trie root).bind fun t => expectedRange t firstKey keys vals) =
        expectedRange t firstKey keys vals := by
      simp [ht']
    change (match (trie root).bind (fun t => expectedRange t firstKey keys vals) with
      | some more => Except.ok more
      | none => Except.error "invalid proof").toOption = _
    rw [hbind]
    cases expectedRange t firstKey keys vals <;> rfl

/-- The disk layer of a `snapshot.Tree` as `readLeafsFromSnapshot` reads it: the account
snapshot and each account's storage snapshot, in key order, values as the `syncutils`
iterators give them. -/
structure SnapshotTree (Hash : Type) where
  accounts : List (Bytes × Bytes)
  storage : Hash → List (Bytes × Bytes)

/-- `LeafsRequestHandler`: the trie database and the snapshot the provider gives, if there is
a provider. -/
structure LeafsRequestHandler (Hash Proof : Type) where
  trieDB : TrieDB Hash Proof
  snapshotProvider : Option (SnapshotTree Hash)

/-- `responseBuilder`: the request, the leaves of the requested trie `t`, the snapshot, and the
key length and limit.  The response is passed through its methods. -/
structure ResponseBuilder (Hash : Type) where
  request : LeafsRangeRequest Hash
  t : List (Bytes × Bytes)
  snap : Option (SnapshotTree Hash)
  keyLength : ℕ
  limit : ℕ

/-! ## Reading leaves -/

/-- The loop of `fillFromTrie` and of `readLeafsFromSnapshot` over the leaves an iterator still
yields: stop at the first leaf past a non-empty `endKey`, or, with `more` set, once `keys` holds
`limit` keys; otherwise append the leaf.  Returns `more`, the keys and the values.  At a leaf
past `endKey` `fillFromTrie` sets `more` and `readLeafsFromSnapshot` ignores it. -/
def appendLeavesLoop (limit : ℕ) (endKey : Bytes) :
    List (Bytes × Bytes) → List Bytes → List Bytes → Bool × List Bytes × List Bytes
  | [], keys, vals => (false, keys, vals)
  | (k, v) :: rest, keys, vals =>
    if endKey.length > 0 ∧ endKey < k then (true, keys, vals)
    else if limit ≤ keys.length then (true, keys, vals)
    else appendLeavesLoop limit endKey rest (keys ++ [k]) (vals ++ [v])

/-- The leaves of a key-ordered list from `start` on, as an iterator opened at `start` yields
them. -/
def leavesFrom (leaves : List (Bytes × Bytes)) (start : Bytes) : List (Bytes × Bytes) :=
  leaves.dropWhile fun leaf => leaf.1 < start

namespace ResponseBuilder

variable {Hash : Type} (rb : ResponseBuilder Hash)

/-- `nextKey`: the request's start while the response is empty, and one past its last key
(by `utils.IncrOne`) after that. -/
def nextKey (response : ServedLeafsResponse) : Bytes :=
  match response.keys.getLast? with
  | none => rb.request.start
  | some lastKey => incrOne lastKey

/-- `fillFromTrie`: append the trie's leaves from `nextKey` on, up to `endKey` and the limit.
Returns whether leaves are left. -/
def fillFromTrie (response : ServedLeafsResponse) (endKey : Bytes) :
    Bool × ServedLeafsResponse :=
  let (more, keys, vals) :=
    appendLeavesLoop rb.limit endKey (leavesFrom rb.t (rb.nextKey response))
      response.keys response.vals
  (more, { response with keys := keys, vals := vals })

/-- `readLeafsFromSnapshot`: the snapshot's leaves of the requested account (the account
snapshot for the zero account) from `common.BytesToHash(Start)` on, up to `End` and the
limit. -/
def readLeafsFromSnapshot [Zero Hash] [DecidableEq Hash] (snap : SnapshotTree Hash) :
    List Bytes × List Bytes :=
  let snapIt :=
    if rb.request.account = 0 then snap.accounts else snap.storage rb.request.account
  let (_, keys, vals) :=
    appendLeavesLoop rb.limit rb.request.endKey
      (leavesFrom snapIt (bytesToHash rb.request.start)) [] []
  (keys, vals)

/-! ## Range proofs -/

variable {Proof : Type} (db : TrieDB Hash Proof)

/-- The start of a range proof: an empty `start` becomes `keyLength` zero bytes. -/
def padStart (start : Bytes) : Bytes :=
  if start.length = 0 then List.replicate rb.keyLength 0 else start

/-- `generateRangeProof`. -/
def generateRangeProof (start : Bytes) (keys : List Bytes) : Except String Proof :=
  db.proveRange rb.request.root (rb.padStart start) keys

/-- `responseBuilder.verifyRangeProof`: the last edge is the last key, nil without keys. -/
def verifyRangeProof (keys vals : List Bytes) (start : Bytes) (proof : Proof) :
    Except String Bool :=
  db.verifyRangeProof rb.request.root (rb.padStart start) (keys.getLast?.getD []) keys vals proof

/-- The start of the range `isRangeValid` checks: the first key after a gap, `nextKey`
otherwise. -/
def rangeStartKey (response : ServedLeafsResponse) (keys : List Bytes) (hasGap : Bool) : Bytes :=
  if hasGap then keys.headD [] else rb.nextKey response

/-- `isRangeValid`: prove and verify `keys` from `rangeStartKey`.  Returns the proof, whether
it verified and the `more` flag. -/
def isRangeValid (response : ServedLeafsResponse) (keys vals : List Bytes) (hasGap : Bool) :
    Except String (Proof × Bool × Bool) := do
  let startKey := rb.rangeStartKey response keys hasGap
  let proof ← rb.generateRangeProof db startKey keys
  match rb.verifyRangeProof db keys vals startKey proof with
  | .ok more => pure (proof, true, more)
  | .error _ => pure (proof, false, false)

/-! ## The snapshot path -/

/-- The response after a valid segment: the segment's leaves appended, as many as the limit
leaves room for. -/
def appendSegment (keys vals : List Bytes) (response : ServedLeafsResponse) :
    ServedLeafsResponse :=
  let n := rb.limit - response.keys.length
  { response with keys := response.keys ++ keys.take n, vals := response.vals ++ vals.take n }


/-- The segment loop of `fillFromSnapshot` over the snapshot's keys and values from segment
`i` on, with `hasGap` set when an invalid segment came since the last valid one.  The fuel is
the number of keys left, which outlasts the segments. -/
def fillFromSnapshotLoop :
    ℕ → List Bytes → List Bytes → Bool → ServedLeafsResponse → Except String ServedLeafsResponse
  | 0, _, _, _, response => .ok response
  | fuel + 1, snapKeys, snapVals, hasGap, response =>
    if snapKeys = [] then .ok response
    else
      let segKeys := snapKeys.take segmentLen
      let segVals := snapVals.take segmentLen
      match rb.isRangeValid db response segKeys segVals hasGap with
      | .error err => .error err
      | .ok (_, false, _) =>
        fillFromSnapshotLoop fuel (snapKeys.drop segmentLen) (snapVals.drop segmentLen) true
          response
      | .ok (_, true, _) =>
        -- after a gap, fill it from the trie up to the segment's first key, which the trie
        -- must hold since the segment's proof starts there
        let filled :=
          if hasGap then (rb.fillFromTrie response (segKeys.headD [])).2 else response
        if hasGap ∧ rb.limit ≤ filled.keys.length then .ok filled
        else
          -- the fill's last key is the segment's first, which the segment brings again
          let appended :=
            rb.appendSegment segKeys segVals (if hasGap then filled.dropLastLeaf else filled)
          if rb.limit ≤ appended.keys.length then .ok appended
          else
            fillFromSnapshotLoop fuel (snapKeys.drop segmentLen) (snapVals.drop segmentLen)
              false appended

/-- `fillFromSnapshot` on an empty response: returns whether the response is complete.  When
the whole read verifies, the response is the read with its proof, left out when `Start` is
empty and nothing follows; otherwise the valid segments are collected. -/
def fillFromSnapshot [Zero Hash] [DecidableEq Hash] (snap : SnapshotTree Hash)
    (response : ServedLeafsResponse) : Except String (Bool × ServedLeafsResponse) := do
  let (snapKeys, snapVals) := rb.readLeafsFromSnapshot snap
  let (proof, ok, more) ← rb.isRangeValid db response snapKeys snapVals false
  if ok then
    let response := { response with keys := snapKeys, vals := snapVals }
    if rb.request.start.length = 0 ∧ more = false then pure (true, response)
    else pure (!more, { response with proofVals := db.iterateVals proof })
  else
    let response ← rb.fillFromSnapshotLoop db snapKeys.length snapKeys snapVals false response
    pure (false, response)

/-! ## The request -/

/-- The end of `handleRequest`: a range proof of the response from `Start`. -/
def addRangeProof (response : ServedLeafsResponse) : Except String ServedLeafsResponse := do
  let proof ← rb.generateRangeProof db rb.request.start response.keys
  pure { response with proofVals := db.iterateVals proof }

/-- The part of `handleRequest` after the snapshot: fill from the trie up to `End` while the
response is under the limit, then add the range proof, which is left out when `Start` is empty
and the trie has nothing more. -/
def fillAndProve (response : ServedLeafsResponse) : Except String ServedLeafsResponse :=
  if response.keys.length < rb.limit then
    let (more, response) := rb.fillFromTrie response rb.request.endKey
    if rb.request.start.length = 0 ∧ more = false then pure response
    else rb.addRangeProof db response
  else rb.addRangeProof db response

/-- `handleRequest` on an empty response: the snapshot first, when there is one, and the trie
after it unless the snapshot completed the response; the snapshot's proof is reset then. -/
def handleRequest [Zero Hash] [DecidableEq Hash] : Except String ServedLeafsResponse :=
  match rb.snap with
  | none => rb.fillAndProve db ⟨[], [], []⟩
  | some snap => do
    let (done, response) ← rb.fillFromSnapshot db snap ⟨[], [], []⟩
    if done then pure response
    else rb.fillAndProve db { response with proofVals := [] }

end ResponseBuilder

/-- `LeafsRequestHandler.OnLeafsRequest`: `none` for a dropped request (`nil` bytes), and the
response otherwise.  A request is dropped when its range is reversed, its root is zero or the
empty root, its limit is zero, a bound has neither length zero nor the node type's key length,
the root is not in the database, or serving it fails. -/
def LeafsRequestHandler.OnLeafsRequest {Hash Proof : Type} [Zero Hash] [DecidableEq Hash]
    (lrh : LeafsRequestHandler Hash Proof) (leafsRequest : LeafsRangeRequest Hash) :
    Option ServedLeafsResponse :=
  if (leafsRequest.endKey.length > 0 ∧ leafsRequest.endKey < leafsRequest.start) ∨
      leafsRequest.root = 0 ∨ leafsRequest.root = lrh.trieDB.emptyRootHash ∨
      leafsRequest.limit = 0 then none
  else
    let keyLength := getKeyLength leafsRequest.nodeType
    if (leafsRequest.start.length ≠ 0 ∧ leafsRequest.start.length ≠ keyLength) ∨
        (leafsRequest.endKey.length ≠ 0 ∧ leafsRequest.endKey.length ≠ keyLength) then none
    else
      match lrh.trieDB.trie leafsRequest.root with
      | none => none
      | some t =>
        let rb : ResponseBuilder Hash :=
          ⟨leafsRequest, t, lrh.snapshotProvider, keyLength, min leafsRequest.limit maxLeavesLimit⟩
        match rb.handleRequest lrh.trieDB with
        | .error _ => none
        | .ok response => some response

/-! ## Spec lemmas -/

namespace TrieDB

variable {Hash Proof : Type} {db : TrieDB Hash Proof}

/-- A sound trie database proves every range of a trie it holds. -/
theorem Sound.proveRange_ok (hsound : db.Sound) {root : Hash} {t : List (Bytes × Bytes)}
    (ht : db.trie root = some t) (start : Bytes) (keys : List Bytes) :
    ∃ proof, db.proveRange root start keys = .ok proof := by
  obtain ⟨proof, hproof⟩ := hsound.prove_ok root t start db.newProof ht
  cases hlast : keys.getLast? with
  | none => exact ⟨proof, by simp [proveRange, hproof, hlast]⟩
  | some lastKey =>
    obtain ⟨proof', hproof'⟩ := hsound.prove_ok root t lastKey proof ht
    exact ⟨proof', by simp [proveRange, hproof, hlast, hproof']⟩

end TrieDB

namespace ResponseBuilder

variable {Hash Proof : Type} {rb : ResponseBuilder Hash} {db : TrieDB Hash Proof}

/-- Over a sound trie database, `isRangeValid` answers as `expectedRange` from its padded start,
when every key lies from that start on and keys have its length. -/
theorem isRangeValid_of_sound (hsound : db.Sound) (ht : db.trie rb.request.root = some rb.t)
    {response : ServedLeafsResponse} {keys vals : List Bytes} {hasGap : Bool} {firstKey : Bytes}
    (hfirst : rb.padStart (rb.rangeStartKey response keys hasGap) = firstKey)
    (hkeys : ∀ k ∈ keys, firstKey ≤ k ∧ k.length = firstKey.length)
    (hleaves : ∀ leaf ∈ rb.t, leaf.1.length = firstKey.length) :
    ∃ proof, rb.isRangeValid db response keys vals hasGap =
      .ok (proof, (expectedRange rb.t firstKey keys vals).isSome,
        (expectedRange rb.t firstKey keys vals).getD false) := by
  obtain ⟨proof, hproof⟩ := hsound.proveRange_ok ht firstKey keys
  have hverify := hsound.verify _ _ firstKey keys vals proof ht hproof hkeys hleaves
  refine ⟨proof, ?_⟩
  simp only [isRangeValid, generateRangeProof, verifyRangeProof, hfirst, hproof]
  cases h : db.verifyRangeProof rb.request.root firstKey (keys.getLast?.getD []) keys vals proof with
  | ok more =>
    rw [h] at hverify
    simp [← hverify, h, Except.toOption]
  | error err =>
    rw [h] at hverify
    simp [← hverify, h, Except.toOption]

/-- With no snapshot keys left, the segment loop returns the response. -/
theorem fillFromSnapshotLoop_nil (fuel : ℕ) (snapVals : List Bytes) (hasGap : Bool)
    (response : ServedLeafsResponse) :
    rb.fillFromSnapshotLoop db fuel [] snapVals hasGap response = .ok response := by
  cases fuel <;> simp [fillFromSnapshotLoop]

section Segments

variable {fuel : ℕ} {snapKeys snapVals : List Bytes} {hasGap : Bool}
  {response : ServedLeafsResponse} {proof : Proof} {more : Bool}

/-- A segment that fails its range proof is skipped and leaves a gap. -/
theorem fillFromSnapshotLoop_invalid (hfuel : 0 < fuel) (hne : snapKeys ≠ [])
    (h : rb.isRangeValid db response (snapKeys.take segmentLen) (snapVals.take segmentLen) hasGap =
      .ok (proof, false, more)) :
    rb.fillFromSnapshotLoop db fuel snapKeys snapVals hasGap response =
      rb.fillFromSnapshotLoop db (fuel - 1) (snapKeys.drop segmentLen) (snapVals.drop segmentLen)
        true response := by
  obtain ⟨fuel, rfl⟩ := Nat.exists_eq_add_one_of_ne_zero hfuel.ne'
  simp only [fillFromSnapshotLoop, if_neg hne, h, Nat.add_sub_cancel]

/-- A valid segment after a gap: the gap is filled from the trie up to the segment's first key,
that key is dropped and the segment appended.  Under the limit the loop goes on with no gap. -/
theorem fillFromSnapshotLoop_valid_gap (hfuel : 0 < fuel) (hne : snapKeys ≠ [])
    (h : rb.isRangeValid db response (snapKeys.take segmentLen) (snapVals.take segmentLen) true =
      .ok (proof, true, more))
    (hfill : (rb.fillFromTrie response ((snapKeys.take segmentLen).headD [])).2.keys.length <
      rb.limit)
    (happend : (rb.appendSegment (snapKeys.take segmentLen) (snapVals.take segmentLen)
      (rb.fillFromTrie response ((snapKeys.take segmentLen).headD [])).2.dropLastLeaf).keys.length <
        rb.limit) :
    rb.fillFromSnapshotLoop db fuel snapKeys snapVals true response =
      rb.fillFromSnapshotLoop db (fuel - 1) (snapKeys.drop segmentLen) (snapVals.drop segmentLen)
        false (rb.appendSegment (snapKeys.take segmentLen) (snapVals.take segmentLen)
          (rb.fillFromTrie response ((snapKeys.take segmentLen).headD [])).2.dropLastLeaf) := by
  obtain ⟨fuel, rfl⟩ := Nat.exists_eq_add_one_of_ne_zero hfuel.ne'
  simp only [fillFromSnapshotLoop, if_neg hne, h, if_true, Nat.add_sub_cancel]
  rw [if_neg (by simpa using hfill), if_neg (by simpa using happend)]

end Segments

/-- When the whole snapshot read fails its range proof, `fillFromSnapshot` collects the valid
segments and reports the response incomplete. -/
theorem fillFromSnapshot_invalid [Zero Hash] [DecidableEq Hash] {snap : SnapshotTree Hash}
    {response : ServedLeafsResponse} {snapKeys snapVals : List Bytes} {proof : Proof} {more : Bool}
    (hread : rb.readLeafsFromSnapshot snap = (snapKeys, snapVals))
    (h : rb.isRangeValid db response snapKeys snapVals false = .ok (proof, false, more)) :
    rb.fillFromSnapshot db snap response =
      rb.fillFromSnapshotLoop db snapKeys.length snapKeys snapVals false response >>=
        fun response => pure (false, response) := by
  simp only [fillFromSnapshot, hread, h, except_ok_bind, Bool.false_eq_true, if_false]

/-- A snapshot pass that leaves the response incomplete hands it to the trie, without its
proof. -/
theorem handleRequest_of_fillFromSnapshot [Zero Hash] [DecidableEq Hash]
    {snap : SnapshotTree Hash} {response : ServedLeafsResponse} (hsnap : rb.snap = some snap)
    (h : rb.fillFromSnapshot db snap ⟨[], [], []⟩ = .ok (false, response)) :
    rb.handleRequest db = rb.fillAndProve db { response with proofVals := [] } := by
  simp only [handleRequest, hsnap, h, except_ok_bind, Bool.false_eq_true, if_false]

/-- Without a snapshot, `handleRequest` reads the trie. -/
theorem handleRequest_of_snap_none [Zero Hash] [DecidableEq Hash] (hsnap : rb.snap = none) :
    rb.handleRequest db = rb.fillAndProve db ⟨[], [], []⟩ := by
  simp only [handleRequest, hsnap]

end ResponseBuilder

/-! ## A stale snapshot of a trie that holds the largest key

The trie holds 65 leaves: 64 keys below `0x40` and the largest 32-byte key, all bytes `0xff`.
The snapshot holds the same keys, with a stale value at the first.  The whole read and the first
segment fail their proofs; the second segment, the largest key alone, is valid, so the gap before
it is filled from the trie.  The response then ends with the largest key, and `nextKey` wraps it
to 32 zero bytes: the trie is read once more from its first leaf. -/

/-- A 32-byte key starting with byte `b`. -/
def sampleLeafKey (b : ℕ) : Bytes := b.toUInt8 :: List.replicate 31 0

/-- The largest 32-byte key, all bytes `0xff`. -/
def maxHashKey : Bytes := List.replicate 32 255

/-- The trie's keys. -/
def sampleTrieKeys : List Bytes := (List.range 64).map sampleLeafKey ++ [maxHashKey]

/-- The trie's values. -/
def sampleTrieVals : List Bytes := List.replicate 65 [1]

/-- The trie's leaves. -/
def sampleTrieLeaves : List (Bytes × Bytes) := sampleTrieKeys.zip sampleTrieVals

/-- The snapshot's values: stale at the first key. -/
def staleVals : List Bytes := [2] :: List.replicate 64 [1]

/-- The account snapshot. -/
def staleSnapshot : SnapshotTree ℕ := ⟨sampleTrieKeys.zip staleVals, fun _ => []⟩

/-- A request for every leaf of the state trie at root `1`. -/
def sampleLeafsRequest : LeafsRangeRequest ℕ :=
  { root := 1, account := 0, start := [], limit := 1024, nodeType := .stateTrieNode, endKey := [] }

/-- The response builder `OnLeafsRequest` makes for the request. -/
def sampleBuilder (snap : Option (SnapshotTree ℕ)) : ResponseBuilder ℕ :=
  ⟨sampleLeafsRequest, sampleTrieLeaves, snap, 32, 1024⟩

theorem OnLeafsRequest_stale_snapshot_repeats_leaves {Proof : Type} (db : TrieDB ℕ Proof)
    (hsound : db.Sound) (htrie : db.trie 1 = some sampleTrieLeaves) :
    (LeafsRequestHandler.mk db (some staleSnapshot)).OnLeafsRequest sampleLeafsRequest =
        some ⟨sampleTrieKeys ++ sampleTrieKeys, sampleTrieVals ++ sampleTrieVals, []⟩ ∧
      (LeafsRequestHandler.mk db none).OnLeafsRequest sampleLeafsRequest =
        some ⟨sampleTrieKeys, sampleTrieVals, []⟩ := by
  have hroot : (1 : ℕ) ≠ db.emptyRootHash := by
    intro h
    have hempty := hsound.emptyRoot
    rw [← h, htrie] at hempty
    exact absurd hempty (by decide)
  -- the request passes every check, so each handler serves it with `sampleBuilder`
  have hserve : ∀ snap, (LeafsRequestHandler.mk db snap).OnLeafsRequest sampleLeafsRequest =
      ((sampleBuilder snap).handleRequest db).toOption := by
    intro snap
    have htrie' : db.trie sampleLeafsRequest.root = some sampleTrieLeaves := htrie
    simp only [LeafsRequestHandler.OnLeafsRequest, htrie']
    rw [if_neg (by simpa [sampleLeafsRequest] using hroot), if_neg (by decide)]
    change (match (sampleBuilder snap).handleRequest db with
      | .error _ => none
      | .ok response => some response) = _
    cases (sampleBuilder snap).handleRequest db <;> rfl
  -- without the snapshot the trie is read once, from its first leaf
  have hnone : (sampleBuilder none).handleRequest db =
      .ok ⟨sampleTrieKeys, sampleTrieVals, []⟩ := by
    rw [ResponseBuilder.handleRequest_of_snap_none rfl]
    rfl
  -- the range checks of the snapshot pass answer as `expectedRange` over the trie's leaves
  have hleaves : ∀ leaf ∈ sampleTrieLeaves, leaf.1.length = 32 := by decide
  have hcheck : ∀ (response : ServedLeafsResponse) keys vals hasGap firstKey,
      (sampleBuilder (some staleSnapshot)).padStart
        ((sampleBuilder (some staleSnapshot)).rangeStartKey response keys hasGap) = firstKey →
      (∀ k ∈ keys, firstKey ≤ k ∧ k.length = firstKey.length) → firstKey.length = 32 →
      ∃ proof, (sampleBuilder (some staleSnapshot)).isRangeValid db response keys vals hasGap =
        .ok (proof, (expectedRange sampleTrieLeaves firstKey keys vals).isSome,
          (expectedRange sampleTrieLeaves firstKey keys vals).getD false) :=
    fun _ _ _ _ _ hfirst hkeys hlen =>
      ResponseBuilder.isRangeValid_of_sound hsound htrie hfirst hkeys (hlen ▸ hleaves)
  -- the whole read fails: its first value is stale
  obtain ⟨p₀, h₀⟩ := hcheck ⟨[], [], []⟩ sampleTrieKeys staleVals false (List.replicate 32 0)
    (by decide) (by decide) rfl
  have e₀ : expectedRange sampleTrieLeaves (List.replicate 32 0) sampleTrieKeys staleVals = none := by
    decide
  rw [e₀] at h₀
  -- so does the first segment
  obtain ⟨p₁, h₁⟩ := hcheck ⟨[], [], []⟩ (sampleTrieKeys.take segmentLen)
    (staleVals.take segmentLen) false (List.replicate 32 0) (by decide) (by decide) rfl
  have e₁ : expectedRange sampleTrieLeaves (List.replicate 32 0) (sampleTrieKeys.take segmentLen)
      (staleVals.take segmentLen) = none := by
    decide
  rw [e₁] at h₁
  -- the second segment, the largest key alone, is checked from its own key after the gap
  obtain ⟨p₂, h₂⟩ := hcheck ⟨[], [], []⟩ ((sampleTrieKeys.drop segmentLen).take segmentLen)
    ((staleVals.drop segmentLen).take segmentLen) true maxHashKey (by decide) (by decide) rfl
  have e₂ : expectedRange sampleTrieLeaves maxHashKey
      ((sampleTrieKeys.drop segmentLen).take segmentLen)
      ((staleVals.drop segmentLen).take segmentLen) = some false := by
    decide
  rw [e₂] at h₂
  have hread : (sampleBuilder (some staleSnapshot)).readLeafsFromSnapshot staleSnapshot =
      (sampleTrieKeys, staleVals) := by
    decide
  -- the gap fill and the segment rebuild the trie's leaves, ending with the largest key
  have hpass : (sampleBuilder (some staleSnapshot)).fillFromSnapshot db staleSnapshot
      ⟨[], [], []⟩ = .ok (false, ⟨sampleTrieKeys, sampleTrieVals, []⟩) := by
    have hrest : (sampleTrieKeys.drop segmentLen).drop segmentLen = [] := by decide
    rw [ResponseBuilder.fillFromSnapshot_invalid hread h₀,
      ResponseBuilder.fillFromSnapshotLoop_invalid (by decide) (by decide) h₁,
      ResponseBuilder.fillFromSnapshotLoop_valid_gap (by decide) (by decide) h₂
        (by decide +kernel) (by decide +kernel),
      hrest, ResponseBuilder.fillFromSnapshotLoop_nil]
    rfl
  -- `nextKey` wraps the largest key to zero, and the trie is read again from its first leaf
  have hsome : (sampleBuilder (some staleSnapshot)).handleRequest db =
      .ok ⟨sampleTrieKeys ++ sampleTrieKeys, sampleTrieVals ++ sampleTrieVals, []⟩ := by
    rw [ResponseBuilder.handleRequest_of_fillFromSnapshot rfl hpass]
    rfl
  exact ⟨by rw [hserve, hsome]; rfl, by rw [hserve, hnone]; rfl⟩

/-- The reference database holding the trie at root `1`, with the empty root `2`. -/
def sampleTrieDB : TrieDB ℕ Unit :=
  TrieDB.reference (fun root => if root = 1 then some sampleTrieLeaves else some []) 2

theorem OnLeafsRequest_stale_snapshot_repeats_leaves_sample :
    sampleTrieDB.Sound ∧ sampleTrieDB.trie 1 = some sampleTrieLeaves ∧
      (LeafsRequestHandler.mk sampleTrieDB (some staleSnapshot)).OnLeafsRequest sampleLeafsRequest =
        some ⟨sampleTrieKeys ++ sampleTrieKeys, sampleTrieVals ++ sampleTrieVals, []⟩ ∧
      (LeafsRequestHandler.mk sampleTrieDB none).OnLeafsRequest sampleLeafsRequest =
        some ⟨sampleTrieKeys, sampleTrieVals, []⟩ :=
  have hsound : sampleTrieDB.Sound := TrieDB.reference_sound rfl
  ⟨hsound, rfl, OnLeafsRequest_stale_snapshot_repeats_leaves sampleTrieDB hsound rfl⟩

end Jeth
