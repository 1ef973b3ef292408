import Jeth.Sync.LeafSyncer

/-!
# Splitting a trie into segments, and restoring them after a restart

`trieToSync.createSegments` (`sync/statesync/trie_segments.go`) splits a trie that is syncing
as one segment into `numSegments` ranges of keys, by the keys' first two bytes: range `i` runs
from `addPadding(i*segmentStep, 0x00)` to `addPadding(i*segmentStep + segmentStep - 1, 0xff)`.
Ranges that end at or before the segment's sync position are skipped; the first range that does
not becomes the end of the syncing segment, and each later one a new segment, whose start is
written with `WriteSyncSegment`. After a restart `loadSegments` rebuilds the segments from the
written starts, in key order: each start closes the segment before it at
`addPadding(BigEndian.Uint16(start[:2])-1, 0xff)`, and the last segment has no end.

The keys are 32-byte hashes compared by `bytes.Compare`, so a padded boundary compares with a
key as the key's first two bytes compare with the boundary's 16-bit number (`addPadding_le_iff`,
`le_addPadding_iff`). A segment then holds the keys whose 16-bit prefix lies in an interval
(`RangeIs`); the starts cut `0..0xFFFF` into consecutive intervals (`boundsFrom`), and each
prefix lies in exactly one of them (`countP_boundsFrom`). The segments `createSegments` makes
and those `loadSegments` restores from the written starts hold the same keys, segment by
segment (`forall₂_sameKeys_loadSegmentsFrom`).

The leaves `loadSegments` reads to set each segment's position, the errors of the database and
the queueing of the new segments are left out.
-/

namespace Jeth

/-! ## Padded boundaries -/

/-- `addPadding(pos, padding)`: the two bytes of `pos`, big-endian, then 30 bytes `padding`. -/
def addPadding (pos : UInt16) (padding : UInt8) : Bytes :=
  [(pos >>> 8).toUInt8, pos.toUInt8] ++ List.replicate 30 padding

theorem toNat_shiftRight_eight (x : UInt16) : (x >>> 8).toNat = x.toNat / 256 := by
  rw [UInt16.toNat_shiftRight, Nat.shiftRight_eq_div_pow, show UInt16.toNat 8 % 16 = 8 from rfl]

theorem toNat_toUInt8_mod (x : UInt16) : x.toUInt8.toNat = x.toNat % 256 :=
  UInt16.toNat_toUInt8 x

@[simp] theorem length_addPadding (x : UInt16) (padding : UInt8) :
    (addPadding x padding).length = 32 := rfl

theorem bigEndianUint16_cons_cons (a b : UInt8) (rest : Bytes) :
    bigEndianUint16 (a :: b :: rest) = a.toNat * 256 + b.toNat := rfl

theorem bigEndianUint16_lt (k : Bytes) : bigEndianUint16 k < 0x10000 := by
  have := (k.getD 0 0).toNat_lt
  have := (k.getD 1 0).toNat_lt
  unfold bigEndianUint16
  omega

theorem bigEndianUint16_addPadding (x : UInt16) (padding : UInt8) :
    bigEndianUint16 (addPadding x padding) = x.toNat := by
  have := x.toNat_lt
  simp only [addPadding, List.cons_append, bigEndianUint16_cons_cons, toNat_toUInt8_mod,
    toNat_shiftRight_eight]
  omega

/-- Thirty zero bytes are the least tail, and thirty `0xff` bytes the greatest. -/
theorem replicate_zero_le : ∀ {l : Bytes}, List.replicate l.length 0 ≤ l
  | [] => List.nil_le _
  | b :: l => by
    rw [List.length_cons, List.replicate_succ, List.cons_le_cons_iff]
    by_cases hb : b = 0
    · exact .inr ⟨hb.symm, replicate_zero_le⟩
    · left
      have : b.toNat ≠ 0 := fun h => hb (UInt8.toNat_inj.mp h)
      rw [UInt8.lt_iff_toNat_lt, UInt8.toNat_zero]
      omega

theorem le_replicate_max : ∀ {l : Bytes}, l ≤ List.replicate l.length 255
  | [] => List.le_refl _
  | b :: l => by
    rw [List.length_cons, List.replicate_succ, List.cons_le_cons_iff]
    by_cases hb : b = 255
    · exact .inr ⟨hb, le_replicate_max⟩
    · left
      have : b.toNat ≠ 255 := fun h => hb (UInt8.toNat_inj.mp h)
      have := b.toNat_lt
      rw [UInt8.lt_iff_toNat_lt, show (255 : UInt8).toNat = 255 from rfl]
      omega

/-- A start padded with zeros lies at or below a 32-byte key exactly when its 16-bit number lies
at or below the key's first two bytes. -/
theorem addPadding_le_iff (x : UInt16) {k : Bytes} (hk : k.length = 32) :
    addPadding x 0 ≤ k ↔ x.toNat ≤ bigEndianUint16 k := by
  obtain _ | ⟨a, _ | ⟨b, rest⟩⟩ := k
  · simp at hk
  · simp at hk
  have hrest : rest.length = 30 := by simpa using hk
  have hz : List.replicate 30 0 ≤ rest := hrest ▸ replicate_zero_le
  have := x.toNat_lt
  have := a.toNat_lt
  have := b.toNat_lt
  simp only [addPadding, List.cons_append, List.nil_append, List.cons_le_cons_iff,
    UInt8.lt_iff_toNat_lt, ← UInt8.toNat_inj, toNat_shiftRight_eight, toNat_toUInt8_mod,
    bigEndianUint16_cons_cons, hz, and_true]
  omega

/-- An end padded with `0xff` lies at or above a 32-byte key exactly when its 16-bit number lies
at or above the key's first two bytes. -/
theorem le_addPadding_iff (x : UInt16) {k : Bytes} (hk : k.length = 32) :
    k ≤ addPadding x 255 ↔ bigEndianUint16 k ≤ x.toNat := by
  obtain _ | ⟨a, _ | ⟨b, rest⟩⟩ := k
  · simp at hk
  · simp at hk
  have hrest : rest.length = 30 := by simpa using hk
  have hz : rest ≤ List.replicate 30 255 := hrest ▸ le_replicate_max
  have := x.toNat_lt
  have := a.toNat_lt
  have := b.toNat_lt
  simp only [addPadding, List.cons_append, List.nil_append, List.cons_le_cons_iff,
    UInt8.lt_iff_toNat_lt, ← UInt8.toNat_inj, toNat_shiftRight_eight, toNat_toUInt8_mod,
    bigEndianUint16_cons_cons, hz, and_true]
  omega

/-- Keys whose first two bytes differ compare as those bytes do. -/
theorem lt_of_bigEndianUint16_lt {k k' : Bytes} (hk : 2 ≤ k.length) (hk' : 2 ≤ k'.length)
    (h : bigEndianUint16 k < bigEndianUint16 k') : k < k' := by
  obtain _ | ⟨a, _ | ⟨b, rest⟩⟩ := k
  · simp at hk
  · simp at hk
  obtain _ | ⟨a', _ | ⟨b', rest'⟩⟩ := k'
  · simp at hk'
  · simp at hk'
  rw [bigEndianUint16_cons_cons, bigEndianUint16_cons_cons] at h
  have := b.toNat_lt
  have := b'.toNat_lt
  rw [List.cons_lt_cons_iff, List.cons_lt_cons_iff, UInt8.lt_iff_toNat_lt, UInt8.lt_iff_toNat_lt]
  rcases Nat.lt_or_ge a.toNat a'.toNat with ha | ha
  · exact .inl ha
  · have ha' : a.toNat = a'.toNat := by omega
    exact .inr ⟨UInt8.toNat_inj.mp ha', .inl (by omega)⟩

theorem incrOneRev_replicate_append (n : ℕ) (l : Bytes) :
    incrOneRev (List.replicate n 255 ++ l) = List.replicate n 0 ++ incrOneRev l := by
  induction n with
  | zero => rfl
  | succ n ih => simp [List.replicate_succ, incrOneRev, ih]

/-- Incrementing the two bytes of a 16-bit number, low byte first, carries as adding one does. -/
theorem incrOneRev_two_bytes {x : UInt16} (hx : x.toNat < 0xFFFF) :
    incrOneRev [x.toUInt8, (x >>> 8).toUInt8] = [(x + 1).toUInt8, ((x + 1) >>> 8).toUInt8] := by
  have hadd : (x + 1).toNat = x.toNat + 1 := by rw [UInt16.toNat_add]; simp; omega
  have hlo := toNat_toUInt8_mod x
  have hhi := toNat_shiftRight_eight x
  unfold incrOneRev
  split_ifs with hlt
  · rw [UInt8.lt_iff_toNat_lt] at hlt
    simp only [List.cons.injEq, ← UInt8.toNat_inj, UInt8.toNat_add, toNat_toUInt8_mod,
      toNat_shiftRight_eight, hadd, UInt8.toNat_one, and_true] at hlt ⊢
    simp at hlt
    omega
  · -- the low byte is `0xff`: it wraps to zero and the high byte, below `0xff`, takes the carry
    rw [UInt8.lt_iff_toNat_lt, hlo] at hlt
    simp only [show (255 : UInt8).toNat = 255 from rfl] at hlt
    have hcarry : (x >>> 8).toUInt8 < 255 := by
      rw [UInt8.lt_iff_toNat_lt, toNat_toUInt8_mod, hhi]
      simp only [show (255 : UInt8).toNat = 255 from rfl]
      omega
    unfold incrOneRev
    rw [if_pos hcarry]
    simp only [List.cons.injEq, ← UInt8.toNat_inj, UInt8.toNat_add, toNat_toUInt8_mod, hhi,
      toNat_shiftRight_eight, hadd, UInt8.toNat_one, UInt8.toNat_zero, and_true]
    omega

/-- The key after a range's last key is the next range's first. -/
theorem incrOne_addPadding {x : UInt16} (hx : x.toNat < 0xFFFF) :
    incrOne (addPadding x 255) = addPadding (x + 1) 0 := by
  have hrev : ([(x >>> 8).toUInt8, x.toUInt8] ++ List.replicate 30 255).reverse =
      List.replicate 30 (255 : UInt8) ++ [x.toUInt8, (x >>> 8).toUInt8] := by simp
  rw [incrOne, addPadding, hrev, incrOneRev_replicate_append, incrOneRev_two_bytes hx]
  simp [addPadding]

/-! ## The model -/

/-- The fields of a `trieSegment` that `createSegments` and `loadSegments` read and write. A
`nil` start or position is `[]`; a `nil` end, which `createSegments` tests for, is `none`. -/
structure SegmentKeys where
  start : Bytes
  pos : Bytes
  endKey : Option Bytes
  deriving DecidableEq, Repr

namespace SegmentKeys

/-- Whether a key lies in the segment's range, from its start to its end inclusive; no end is
no bound. -/
def contains (s : SegmentKeys) (k : Bytes) : Bool :=
  decide (s.start ≤ k) && s.endKey.all fun e => decide (k ≤ e)

/-- Two segments with the same start that hold the same 32-byte keys. -/
def SameKeys (s s' : SegmentKeys) : Prop :=
  s.start = s'.start ∧ ∀ k : Bytes, k.length = 32 → s.contains k = s'.contains k

theorem sameKeys_of_endKey_eq {s s' : SegmentKeys} (hstart : s.start = s'.start)
    (hend : s.endKey = s'.endKey) : SameKeys s s' :=
  ⟨hstart, fun k _ => by simp only [contains, hstart, hend]⟩

end SegmentKeys

/-- The segment `addSegment(start, end)` appends to the trie's segments: no position yet. -/
def newSegment (start : Bytes) (endKey : Option Bytes) : SegmentKeys := ⟨start, [], endKey⟩

/-- `addPadding(uint16(i*segmentStep), 0x00)`: the first key of range `i`. -/
def startBytes (segmentStep i : ℕ) : Bytes := addPadding (UInt16.ofNat (i * segmentStep)) 0x00

/-- `addPadding(uint16(i*segmentStep + (segmentStep-1)), 0xff)`: the last key of range `i`. The
`int` sum is converted to `uint16` modulo 2^16, which the wrapping subtraction after the
conversion gives. -/
def endBytes (segmentStep i : ℕ) : Bytes :=
  addPadding (UInt16.ofNat (i * segmentStep + segmentStep) - 1) 0xff

/-- One iteration of the loop of `createSegments`, on the trie's segments, the first of which is
`segment`, and the starts written with `WriteSyncSegment` so far. -/
def createSegmentsStep (segmentStep : ℕ) (acc : List SegmentKeys × List Bytes) (i : ℕ) :
    List SegmentKeys × List Bytes :=
  match acc with
  | (segment :: segments, persisted) =>
    -- `bytes.Compare(segment.pos, endBytes) >= 0`: this range is already synced
    if endBytes segmentStep i ≤ segment.pos then acc
    -- the first segment is already syncing: only its end is set
    else if segment.endKey = none then
      ({ segment with endKey := some (endBytes segmentStep i) } :: segments, persisted)
    else
      (segment :: (segments ++ [newSegment (startBytes segmentStep i) (some (endBytes segmentStep i))]),
        persisted ++ [startBytes segmentStep i])
  | ([], _) => acc

/-- `trieToSync.createSegments(numSegments)`: the trie's segments, and the starts written with
`WriteSyncSegment`, in the order they are written. -/
def createSegments (numSegments : ℕ) (segments : List SegmentKeys) :
    List SegmentKeys × List Bytes :=
  (List.range numSegments).foldl (createSegmentsStep (0x10000 / numSegments)) (segments, [])

/-- The loop of `loadSegments` over the written starts, from the start of the segment before:
each start ends that segment at `addPadding(BigEndian.Uint16(start[:2])-1, 0xff)`, and after the
last start a segment with no end is added. -/
def loadSegmentsFrom (prevSegmentStart : Bytes) : List Bytes → List SegmentKeys
  | [] => [newSegment prevSegmentStart none]
  | segmentStart :: segmentStarts =>
    newSegment prevSegmentStart
        (some (addPadding (UInt16.ofNat (bigEndianUint16 segmentStart) - 1) 0xff)) ::
      loadSegmentsFrom segmentStart segmentStarts

/-- `trieToSync.loadSegments`, given the starts the segments iterator returns, in key order. -/
def loadSegments (segmentStarts : List Bytes) : List SegmentKeys :=
  loadSegmentsFrom [] segmentStarts

/-! ## Segments as intervals of prefixes -/

/-- `boundsFrom lo cuts`: the intervals of 16-bit prefixes of segments that start at `lo` and
then at each of `cuts`: each runs to the prefix before the next start, the last to `0xFFFF`. -/
def boundsFrom (lo : ℕ) : List ℕ → List (ℕ × ℕ)
  | [] => [(lo, 0xFFFF)]
  | c :: cuts => (lo, c - 1) :: boundsFrom c cuts

theorem map_fst_boundsFrom (lo : ℕ) (cuts : List ℕ) :
    (boundsFrom lo cuts).map Prod.fst = lo :: cuts := by
  induction cuts generalizing lo with
  | nil => rfl
  | cons c cuts ih => simp [boundsFrom, ih]

theorem le_fst_of_mem_boundsFrom {lo : ℕ} {cuts : List ℕ} (hcuts : (lo :: cuts).Pairwise (· < ·))
    {b : ℕ × ℕ} (hb : b ∈ boundsFrom lo cuts) : lo ≤ b.1 := by
  have hmem : b.1 ∈ lo :: cuts := map_fst_boundsFrom lo cuts ▸ List.mem_map_of_mem hb
  rcases List.mem_cons.mp hmem with h | h
  · exact h.ge
  · exact (List.rel_of_pairwise_cons hcuts h).le

/-- Consecutive intervals from `lo` to `0xFFFF` hold each prefix from `lo` on exactly once. -/
theorem countP_boundsFrom {x : ℕ} (hx : x < 0x10000) :
    ∀ {lo : ℕ} {cuts : List ℕ}, (lo :: cuts).Pairwise (· < ·) → lo ≤ x →
      (boundsFrom lo cuts).countP (fun b => decide (b.1 ≤ x ∧ x ≤ b.2)) = 1
  | lo, [], _, hlo => by simp [boundsFrom, hlo]; omega
  | lo, c :: cuts, hcuts, hlo => by
    have hlt : lo < c := List.rel_of_pairwise_cons hcuts List.mem_cons_self
    have htail := hcuts.of_cons
    rw [boundsFrom, List.countP_cons]
    by_cases hxc : x < c
    · -- `x` lies in the first interval, and below every later one
      have hrest : (boundsFrom c cuts).countP (fun b => decide (b.1 ≤ x ∧ x ≤ b.2)) = 0 :=
        List.countP_eq_zero.mpr fun b hb => by
          have := le_fst_of_mem_boundsFrom htail hb
          simp only [decide_eq_true_eq, not_and, not_le]
          omega
      rw [hrest]
      simp only [decide_eq_true_eq, hlo, true_and]
      split_ifs <;> omega
    · rw [countP_boundsFrom hx htail (by omega)]
      simp only [decide_eq_true_eq]
      split_ifs <;> omega

/-- Each interval lies below every later one. -/
theorem pairwise_boundsFrom : ∀ {lo : ℕ} {cuts : List ℕ}, (lo :: cuts).Pairwise (· < ·) →
    (boundsFrom lo cuts).Pairwise fun b b' => b.2 < b'.1
  | _, [], _ => List.pairwise_singleton _ _
  | lo, c :: cuts, hcuts => by
    have hlt : lo < c := List.rel_of_pairwise_cons hcuts List.mem_cons_self
    have htail := hcuts.of_cons
    refine List.pairwise_cons.mpr ⟨fun b hb => ?_, pairwise_boundsFrom htail⟩
    have := le_fst_of_mem_boundsFrom htail hb
    dsimp only
    omega

/-- Of the 32-byte keys, a segment holds exactly those whose 16-bit prefix lies from `lo` to
`hi`. -/
def RangeIs (s : SegmentKeys) (lo hi : ℕ) : Prop :=
  ∀ k : Bytes, k.length = 32 →
    s.contains k = decide (lo ≤ bigEndianUint16 k ∧ bigEndianUint16 k ≤ hi)

theorem rangeIs_of_bounds {s : SegmentKeys} {lo hi : ℕ}
    (hstart : ∀ k : Bytes, k.length = 32 → (s.start ≤ k ↔ lo ≤ bigEndianUint16 k))
    (hend : ∀ k : Bytes, k.length = 32 →
      ((s.endKey.all fun e => decide (k ≤ e)) = true ↔ bigEndianUint16 k ≤ hi)) :
    RangeIs s lo hi := by
  intro k hk
  rw [SegmentKeys.contains, Bool.eq_iff_iff, Bool.and_eq_true, decide_eq_true_iff,
    decide_eq_true_iff, hstart k hk, hend k hk]

theorem nil_le_iff (k : Bytes) : ([] : Bytes) ≤ k ↔ 0 ≤ bigEndianUint16 k :=
  ⟨fun _ => Nat.zero_le _, fun _ => List.nil_le k⟩

theorem all_none_iff (k : Bytes) :
    ((none : Option Bytes).all fun e => decide (k ≤ e)) = true ↔ bigEndianUint16 k ≤ 0xFFFF := by
  have := bigEndianUint16_lt k
  simp only [Option.all_none, true_iff]
  omega

theorem all_some_addPadding_iff (x : UInt16) {k : Bytes} (hk : k.length = 32) :
    ((some (addPadding x 255)).all fun e => decide (k ≤ e)) = true ↔
      bigEndianUint16 k ≤ x.toNat := by
  rw [Option.all_some, decide_eq_true_iff, le_addPadding_iff x hk]

section Intervals

variable {segs segs' : List SegmentKeys} {bounds : List (ℕ × ℕ)}

/-- Segments that are, one by one, the intervals `bounds` hold a 32-byte key as many times as
the intervals hold its prefix. -/
theorem countP_contains_eq (h : List.Forall₂ (fun s b => RangeIs s b.1 b.2) segs bounds)
    {k : Bytes} (hk : k.length = 32) :
    segs.countP (·.contains k) =
      bounds.countP fun b => decide (b.1 ≤ bigEndianUint16 k ∧ bigEndianUint16 k ≤ b.2) := by
  induction h with
  | nil => rfl
  | cons hs _ ih => rw [List.countP_cons, List.countP_cons, ih, hs k hk]

theorem exists_rangeIs_of_mem (h : List.Forall₂ (fun s b => RangeIs s b.1 b.2) segs bounds)
    {s : SegmentKeys} (hs : s ∈ segs) : ∃ b ∈ bounds, RangeIs s b.1 b.2 := by
  induction h with
  | nil => simp at hs
  | cons hsb _ ih =>
    rcases List.mem_cons.mp hs with rfl | hs
    · exact ⟨_, List.mem_cons_self, hsb⟩
    · obtain ⟨b, hb, hsb'⟩ := ih hs
      exact ⟨b, List.mem_cons_of_mem _ hb, hsb'⟩

/-- Segments that are, one by one, intervals each below the next hold their keys in order. -/
theorem pairwise_contains_lt (h : List.Forall₂ (fun s b => RangeIs s b.1 b.2) segs bounds)
    (hbounds : bounds.Pairwise fun b b' => b.2 < b'.1) :
    segs.Pairwise fun s s' => ∀ k k' : Bytes, k.length = 32 → k'.length = 32 →
      s.contains k = true → s'.contains k' = true → k < k' := by
  induction h with
  | nil => exact .nil
  | @cons s b segs bounds hs hrest ih =>
    obtain ⟨hhead, htail⟩ := List.pairwise_cons.mp hbounds
    refine List.pairwise_cons.mpr ⟨fun s' hs' k k' hk hk' hin hin' => ?_, ih htail⟩
    -- `s'` is a later segment, whose interval lies above that of `s`
    obtain ⟨b', hb', hrange'⟩ := exists_rangeIs_of_mem hrest hs'
    rw [hs k hk, decide_eq_true_iff] at hin
    rw [hrange' k' hk', decide_eq_true_iff] at hin'
    have := hhead b' hb'
    exact lt_of_bigEndianUint16_lt (by omega) (by omega) (by omega)

theorem forall₂_rangeIs_of_sameKeys (hsame : List.Forall₂ SegmentKeys.SameKeys segs segs')
    (h : List.Forall₂ (fun s b => RangeIs s b.1 b.2) segs' bounds) :
    List.Forall₂ (fun s b => RangeIs s b.1 b.2) segs bounds := by
  induction hsame generalizing bounds with
  | nil => exact h
  | cons hss _ ih =>
    cases h with
    | cons hsb hrest => exact .cons (fun k hk => (hss.2 k hk).trans (hsb k hk)) (ih hrest)

end Intervals

/-! ## Restoring segments -/

/-- The segments `loadSegments` builds from starts padded with zeros, all past the first prefix,
are the intervals those starts cut. -/
theorem loadSegmentsFrom_rangeIs {prev : Bytes} {lo : ℕ}
    (hprev : ∀ k : Bytes, k.length = 32 → (prev ≤ k ↔ lo ≤ bigEndianUint16 k)) :
    ∀ {starts : List Bytes}, (∀ s ∈ starts, ∃ x : UInt16, 0 < x.toNat ∧ s = addPadding x 0) →
      List.Forall₂ (fun s b => RangeIs s b.1 b.2) (loadSegmentsFrom prev starts)
        (boundsFrom lo (starts.map bigEndianUint16))
  | [], _ => .cons (rangeIs_of_bounds hprev fun k _ => all_none_iff k) .nil
  | s :: starts, hstarts => by
    obtain ⟨x, hx, rfl⟩ := hstarts _ List.mem_cons_self
    have hend : (UInt16.ofNat x.toNat - 1).toNat = x.toNat - 1 := by
      rw [UInt16.ofNat_toNat, UInt16.toNat_sub_of_le _ _ (by rw [UInt16.le_iff_toNat_le]; simp; omega)]
      rfl
    refine .cons (rangeIs_of_bounds hprev fun k hk => ?_) ?_
    · dsimp only [newSegment]
      rw [bigEndianUint16_addPadding, all_some_addPadding_iff _ hk, hend]
    · rw [bigEndianUint16_addPadding]
      exact loadSegmentsFrom_rangeIs (fun k hk => addPadding_le_iff x hk)
        fun s hs => hstarts s (List.mem_cons_of_mem _ hs)

/-- Segments that hold, one by one, the keys of the segments `loadSegments` restores from starts
padded with zeros, in increasing order and all past the first prefix, partition the 32-byte keys
in key order, and the starts are sorted. -/
theorem partition_of_sameKeys_loadSegments {segs : List SegmentKeys} {persisted : List Bytes}
    (hsame : List.Forall₂ SegmentKeys.SameKeys segs (loadSegments persisted))
    (hstarts : ∀ s ∈ persisted, ∃ x : UInt16, 0 < x.toNat ∧ s = addPadding x 0)
    (hcuts : (0 :: persisted.map bigEndianUint16).Pairwise (· < ·)) :
    (∀ k : Bytes, k.length = 32 → segs.countP (·.contains k) = 1) ∧
    segs.Pairwise (fun s s' => ∀ k k' : Bytes, k.length = 32 → k'.length = 32 →
      s.contains k = true → s'.contains k' = true → k < k') ∧
    persisted.Pairwise (· < ·) := by
  have hranges := forall₂_rangeIs_of_sameKeys hsame
    (loadSegmentsFrom_rangeIs (fun k _ => nil_le_iff k) hstarts)
  have hlen : ∀ s ∈ persisted, s.length = 32 := fun s hs => by
    obtain ⟨x, -, rfl⟩ := hstarts s hs
    exact length_addPadding x 0
  refine ⟨fun k hk => ?_, pairwise_contains_lt hranges (pairwise_boundsFrom hcuts), ?_⟩
  · rw [countP_contains_eq hranges hk]
    exact countP_boundsFrom (bigEndianUint16_lt k) hcuts (Nat.zero_le _)
  · -- the starts compare as their prefixes, which increase
    have hsorted := List.pairwise_map.mp hcuts.of_cons
    exact hsorted.imp_of_mem fun hs hs' h =>
      lt_of_bigEndianUint16_lt (by rw [hlen _ hs]; omega) (by rw [hlen _ hs']; omega) h

/-! ## Creating segments -/

section Ranges

variable {step : ℕ}

theorem toNat_ofNat_of_lt {m : ℕ} (h : m < 0x10000) : (UInt16.ofNat m).toNat = m := by
  simp only [UInt16.toNat_ofNat']
  omega

theorem bigEndianUint16_startBytes {i : ℕ} (h : i * step < 0x10000) :
    bigEndianUint16 (startBytes step i) = i * step := by
  rw [startBytes, bigEndianUint16_addPadding, toNat_ofNat_of_lt h]

theorem toNat_endPos {i : ℕ} (hstep : 0 < step) (h : i * step + step ≤ 0x10000) :
    (UInt16.ofNat (i * step + step) - 1).toNat = i * step + step - 1 := by
  rcases Nat.lt_or_ge (i * step + step) 0x10000 with hlt | hge
  · have hm := toNat_ofNat_of_lt hlt
    rw [UInt16.toNat_sub_of_le _ _ (by rw [UInt16.le_iff_toNat_le, hm]; simp; omega), hm]
    rfl
  · -- the last range: the `uint16` conversion of `0x10000` wraps to zero
    rw [show i * step + step = 0x10000 by omega]
    rfl

theorem endBytes_le_endBytes {i j : ℕ} (hstep : 0 < step) (hij : i ≤ j)
    (hj : j * step + step ≤ 0x10000) : endBytes step i ≤ endBytes step j := by
  have hmul := Nat.mul_le_mul_right step hij
  refine (le_addPadding_iff _ (length_addPadding _ _)).mpr ?_
  rw [toNat_endPos hstep hj, bigEndianUint16_addPadding, toNat_endPos hstep (by omega)]
  omega

theorem incrOne_endBytes {i : ℕ} (hstep : 0 < step) (h : i * step + step < 0x10000) :
    incrOne (endBytes step i) = startBytes step (i + 1) := by
  have hend := toNat_endPos hstep h.le
  rw [endBytes, incrOne_addPadding (by omega), startBytes, add_one_mul]
  congr 1
  apply UInt16.toNat_inj.mp
  rw [UInt16.toNat_add, hend, toNat_ofNat_of_lt h]
  simp only [UInt16.toNat_one]
  omega

end Ranges

section Step

variable {step : ℕ} {segment : SegmentKeys} {segments : List SegmentKeys} {persisted : List Bytes}

theorem createSegmentsStep_skip {i : ℕ} (h : endBytes step i ≤ segment.pos) :
    createSegmentsStep step (segment :: segments, persisted) i = (segment :: segments, persisted) := by
  rw [createSegmentsStep, if_pos h]

theorem createSegmentsStep_first {start pos : Bytes} {i : ℕ} (h : ¬ endBytes step i ≤ pos) :
    createSegmentsStep step (⟨start, pos, none⟩ :: segments, persisted) i =
      (⟨start, pos, some (endBytes step i)⟩ :: segments, persisted) := by
  rw [createSegmentsStep, if_neg h, if_pos rfl]

theorem createSegmentsStep_add {i : ℕ} (h : ¬ endBytes step i ≤ segment.pos)
    (hend : segment.endKey ≠ none) :
    createSegmentsStep step (segment :: segments, persisted) i =
      (segment :: (segments ++ [newSegment (startBytes step i) (some (endBytes step i))]),
        persisted ++ [startBytes step i]) := by
  rw [createSegmentsStep, if_neg h, if_neg hend]

/-- Ranges that end at or before the position leave the segments as they are. -/
theorem foldl_createSegmentsStep_skip :
    ∀ {l : List ℕ}, (∀ i ∈ l, endBytes step i ≤ segment.pos) →
      l.foldl (createSegmentsStep step) (segment :: segments, persisted) =
        (segment :: segments, persisted)
  | [], _ => rfl
  | i :: l, h => by
    rw [List.foldl_cons, createSegmentsStep_skip (h i List.mem_cons_self)]
    exact foldl_createSegmentsStep_skip fun j hj => h j (List.mem_cons_of_mem _ hj)

/-- Once the first segment has an end, each range after the position becomes a new segment,
whose start is written. -/
theorem foldl_createSegmentsStep_add (hend : segment.endKey ≠ none) :
    ∀ {l : List ℕ} {segments : List SegmentKeys} {persisted : List Bytes},
      (∀ i ∈ l, ¬ endBytes step i ≤ segment.pos) →
      l.foldl (createSegmentsStep step) (segment :: segments, persisted) =
        (segment :: (segments ++ l.map fun i => newSegment (startBytes step i) (some (endBytes step i))),
          persisted ++ l.map (startBytes step))
  | [], _, _, _ => by simp
  | i :: l, segments, persisted, h => by
    rw [List.foldl_cons, createSegmentsStep_add (h i List.mem_cons_self) hend,
      foldl_createSegmentsStep_add hend fun j hj => h j (List.mem_cons_of_mem _ hj)]
    simp

end Step

section Runs

/-- The later ranges, from `a + 1` on, each a new segment. -/
def laterSegments (step a m : ℕ) : List SegmentKeys :=
  (List.range' (a + 1) m).map fun i => newSegment (startBytes step i) (some (endBytes step i))

variable {numSegments : ℕ} {pos : Bytes}

/-- Every range ends at or before the position: the trie keeps its one segment. -/
theorem createSegments_of_skipped
    (hall : ∀ i < numSegments, endBytes (0x10000 / numSegments) i ≤ pos) :
    createSegments numSegments [⟨[], pos, none⟩] = ([⟨[], pos, none⟩], []) :=
  foldl_createSegmentsStep_skip fun i hi => hall i (List.mem_range.mp hi)

/-- The ranges before `i0` end at or before the position, and those from `i0` on do not: range
`i0` ends the first segment, and every later one is a new segment. -/
theorem createSegments_of_first {i0 : ℕ} (hi0 : i0 < numSegments)
    (hskip : ∀ i < i0, endBytes (0x10000 / numSegments) i ≤ pos)
    (hfirst : ¬ endBytes (0x10000 / numSegments) i0 ≤ pos)
    (hlater : ∀ i, i0 < i → i < numSegments → ¬ endBytes (0x10000 / numSegments) i ≤ pos) :
    createSegments numSegments [⟨[], pos, none⟩] =
      (⟨[], pos, some (endBytes (0x10000 / numSegments) i0)⟩ ::
          laterSegments (0x10000 / numSegments) i0 (numSegments - (i0 + 1)),
        (List.range' (i0 + 1) (numSegments - (i0 + 1))).map
          (startBytes (0x10000 / numSegments))) := by
  have hrange : List.range numSegments =
      List.range i0 ++ i0 :: List.range' (i0 + 1) (numSegments - (i0 + 1)) := by
    have hn : numSegments = i0 + (numSegments - (i0 + 1) + 1) := by omega
    conv_lhs => rw [hn]
    rw [List.range_eq_range', List.range_eq_range', ← List.range'_append, List.range'_succ]
    simp
  rw [createSegments, hrange, List.foldl_append,
    foldl_createSegmentsStep_skip fun i hi => hskip i (List.mem_range.mp hi), List.foldl_cons,
    createSegmentsStep_first hfirst, foldl_createSegmentsStep_add (by simp) fun i hi => ?_]
  · simp [laterSegments]
  · have := List.mem_range'_1.mp hi
    exact hlater i (by omega) (by omega)

end Runs

section Later

variable {step : ℕ}

theorem mul_step_lt_of_mem {a m i : ℕ} (hstep : 0 < step) (hm : (a + 1 + m) * step = 0x10000)
    (hi : i ∈ List.range' (a + 1) m) : 0 < i * step ∧ i * step < 0x10000 := by
  have hi' := List.mem_range'_1.mp hi
  refine ⟨Nat.mul_pos (by omega) hstep, ?_⟩
  rw [← hm]
  exact Nat.mul_lt_mul_of_pos_right (by omega) hstep

/-- After a segment that ends at range `a`, the later ranges follow one another: each end,
incremented, is the next start. -/
theorem isChain_laterSegments (hstep : 0 < step) :
    ∀ (m : ℕ) {a : ℕ} {x : SegmentKeys}, (a + 1 + m) * step = 0x10000 →
      x.endKey = some (endBytes step a) →
      (x :: laterSegments step a m).IsChain fun s s' => s.endKey.map incrOne = some s'.start
  | 0, _, _, _, _ => List.isChain_singleton _
  | m + 1, a, x, hm, hx => by
    have hlt : (a + 1) * step < 0x10000 := by
      rw [← hm]
      exact Nat.mul_lt_mul_of_pos_right (by omega) hstep
    rw [laterSegments, List.range'_succ, List.map_cons, List.isChain_cons_cons]
    refine ⟨?_, isChain_laterSegments hstep m (by rw [← hm]; ring_nf) rfl⟩
    rw [hx, Option.map_some, incrOne_endBytes hstep (by rwa [add_one_mul] at hlt)]
    rfl

/-- After a segment that ends at range `a`, the later ranges hold the same keys as the segments
`loadSegments` restores from their starts. -/
theorem forall₂_sameKeys_loadSegmentsFrom (hstep : 0 < step) :
    ∀ (m : ℕ) {a : ℕ} {x : SegmentKeys}, (a + 1 + m) * step = 0x10000 →
      x.endKey = some (endBytes step a) →
      List.Forall₂ SegmentKeys.SameKeys (x :: laterSegments step a m)
        (loadSegmentsFrom x.start ((List.range' (a + 1) m).map (startBytes step)))
  | 0, a, x, hm, hx => by
    -- the last range ends at `0xFFFF`, which bounds no 32-byte key, as no end does
    rw [add_zero, add_one_mul] at hm
    refine .cons ⟨rfl, fun k hk => ?_⟩ .nil
    have hle : k ≤ endBytes step a := by
      refine (le_addPadding_iff _ hk).mpr ?_
      rw [toNat_endPos hstep hm.le]
      have := bigEndianUint16_lt k
      omega
    simp only [SegmentKeys.contains, newSegment, hx, Option.all_some, Option.all_none,
      decide_eq_true hle, Bool.and_true]
    rfl
  | m + 1, a, x, hm, hx => by
    have hlt : (a + 1) * step < 0x10000 := by
      rw [← hm]
      exact Nat.mul_lt_mul_of_pos_right (by omega) hstep
    rw [laterSegments, List.range'_succ, List.map_cons, List.map_cons, loadSegmentsFrom]
    refine .cons (SegmentKeys.sameKeys_of_endKey_eq rfl ?_)
      (forall₂_sameKeys_loadSegmentsFrom hstep m (by rw [← hm]; ring_nf) rfl)
    -- the restored end is the start of the next range, less one
    rw [hx, newSegment, bigEndianUint16_startBytes hlt, endBytes, add_one_mul]

theorem startBytes_of_mem {a m i : ℕ} (hstep : 0 < step) (hm : (a + 1 + m) * step = 0x10000)
    (hi : i ∈ List.range' (a + 1) m) :
    ∃ x : UInt16, 0 < x.toNat ∧ startBytes step i = addPadding x 0 := by
  obtain ⟨hpos, hlt⟩ := mul_step_lt_of_mem hstep hm hi
  exact ⟨_, by rwa [toNat_ofNat_of_lt hlt], rfl⟩

/-- The prefixes of the later starts increase from above zero. -/
theorem pairwise_cuts_later {a m : ℕ} (hstep : 0 < step) (hm : (a + 1 + m) * step = 0x10000) :
    (0 :: ((List.range' (a + 1) m).map (startBytes step)).map bigEndianUint16).Pairwise (· < ·) := by
  have hcuts : ((List.range' (a + 1) m).map (startBytes step)).map bigEndianUint16 =
      (List.range' (a + 1) m).map (· * step) := by
    rw [List.map_map]
    exact List.map_congr_left fun i hi =>
      bigEndianUint16_startBytes (mul_step_lt_of_mem hstep hm hi).2
  rw [hcuts, List.pairwise_cons]
  refine ⟨fun c hc => ?_, List.pairwise_map.mpr ((List.pairwise_lt_range' 1).imp fun h =>
    Nat.mul_lt_mul_of_pos_right h hstep)⟩
  obtain ⟨i, hi, rfl⟩ := List.mem_map.mp hc
  exact (mul_step_lt_of_mem hstep hm hi).1

end Later

/-- `createSegments` on a trie syncing as one segment from the first key, with `numSegments`
dividing `0x10000`, whatever the segment's position: the segments start at the first key, each
end followed by `IncrOne` is the next start, each 32-byte key lies in exactly one segment, the
segments hold their keys in order, the written starts are in key order (the order in which the
segments iterator returns them), and from them `loadSegments` restores segments with the same
starts that hold the same keys. -/
theorem createSegments_partitions_and_restores {numSegments : ℕ} (hpos : 0 < numSegments)
    (hdvd : numSegments ∣ 0x10000) (pos : Bytes) :
    let created := createSegments numSegments [⟨[], pos, none⟩]
    created.1.head?.map SegmentKeys.start = some [] ∧
    created.1.IsChain (fun s s' => s.endKey.map incrOne = some s'.start) ∧
    (∀ k : Bytes, k.length = 32 → created.1.countP (·.contains k) = 1) ∧
    created.1.Pairwise (fun s s' => ∀ k k' : Bytes, k.length = 32 → k'.length = 32 →
      s.contains k = true → s'.contains k' = true → k < k') ∧
    created.2.Pairwise (· < ·) ∧
    List.Forall₂ SegmentKeys.SameKeys created.1 (loadSegments created.2) := by
  intro created
  set step := 0x10000 / numSegments with hstep_def
  have hstep : 0 < step := Nat.div_pos (Nat.le_of_dvd (by norm_num) hdvd) hpos
  have hmul : numSegments * step = 0x10000 := Nat.mul_div_cancel' hdvd
  by_cases hall : ∀ i < numSegments, endBytes step i ≤ pos
  · -- every range ends at or before the position: the trie keeps its one segment
    rw [show created = ([⟨[], pos, none⟩], []) from createSegments_of_skipped hall]
    have hsame : List.Forall₂ SegmentKeys.SameKeys [⟨[], pos, none⟩] (loadSegments []) :=
      .cons (SegmentKeys.sameKeys_of_endKey_eq rfl rfl) .nil
    obtain ⟨hcount, horder, hsorted⟩ :=
      partition_of_sameKeys_loadSegments hsame (by simp) (by simp)
    exact ⟨rfl, List.isChain_singleton _, hcount, horder, hsorted, hsame⟩
  · -- the first range `i0` that ends after the position ends the first segment
    have hex : ∃ i, i < numSegments ∧ ¬ endBytes step i ≤ pos := by
      by_contra hno
      exact hall fun i hi => by_contra fun h => hno ⟨i, hi, h⟩
    classical
    obtain ⟨hi0, hfirst⟩ := Nat.find_spec hex
    set i0 := Nat.find hex with hi0_def
    have hskip : ∀ i < i0, endBytes step i ≤ pos := fun i hi =>
      by_contra fun h => Nat.find_min hex hi ⟨by omega, h⟩
    have hlater : ∀ i, i0 < i → i < numSegments → ¬ endBytes step i ≤ pos := by
      intro i hi hin hle
      have hbound : i * step + step ≤ 0x10000 := by
        rw [← add_one_mul, ← hmul]
        exact Nat.mul_le_mul_right _ hin
      exact hfirst (List.le_trans (endBytes_le_endBytes hstep hi.le hbound) hle)
    have hm : (i0 + 1 + (numSegments - (i0 + 1))) * step = 0x10000 := by
      rw [show i0 + 1 + (numSegments - (i0 + 1)) = numSegments by omega, hmul]
    have hend : (⟨[], pos, some (endBytes step i0)⟩ : SegmentKeys).endKey =
        some (endBytes step i0) := rfl
    rw [show created = _ from createSegments_of_first hi0 hskip hfirst hlater]
    have hsame := forall₂_sameKeys_loadSegmentsFrom hstep _ hm hend
    obtain ⟨hcount, horder, hsorted⟩ := partition_of_sameKeys_loadSegments hsame
      (fun s hs => by
        obtain ⟨i, hi, rfl⟩ := List.mem_map.mp hs
        exact startBytes_of_mem hstep hm hi)
      (pairwise_cuts_later hstep hm)
    exact ⟨rfl, isChain_laterSegments hstep _ hm hend, hcount, horder, hsorted, hsame⟩

theorem createSegments_partitions_and_restores_two :
    0 < 2 ∧ 2 ∣ 0x10000 ∧ (createSegments 2 [⟨[], [], none⟩]).2 = [addPadding 0x8000 0] ∧
      (createSegments 2 [⟨[], [], none⟩]).1.countP (·.contains (addPadding 0x8000 0)) = 1 := by
  obtain ⟨-, -, hcount, -⟩ :=
    createSegments_partitions_and_restores (by norm_num : 0 < 2) (by norm_num) []
  exact ⟨by norm_num, by norm_num, by decide, hcount _ rfl⟩

end Jeth
