import Mathlib

/-!
# The FIFO cache of accepted headers and logs

`BoundedBuffer` of `core/bounded_buffer.go`, and `BufferFIFOCache` of `core/fifo_cache.go`
built on it, which the blockchain fills with its accepted headers by number and its accepted
logs by hash.

The buffer is a ring of `size` slots. Each insert writes the slot after the last one, and once
the ring has wrapped, hands the value it overwrites to a callback first. `Holds` says what the
ring holds after a sequence of inserts: each of the last `size` inserts sits in the slot of its
position modulo `size`. From it, a run of inserts hands the callback exactly the inserts that
have left the window, oldest first (`insertAll_callback`).

The cache pairs a ring of keys with a map, and its callback deletes the overwritten key from the
map. A key put twice within the window has two slots, and the eviction of the older slot deletes
the newer value. `Kept` is the entry the source keeps for a key, and `Get_putAll_iff` proves
that `Get` returns exactly that.
-/

namespace Jeth

/-! ## The bounded buffer -/

/-- `BoundedBuffer[K]`, without its callback, which `Insert` takes as an argument. `lastPos` is
`none` where the source has -1. Every caller passes a positive size. -/
structure BoundedBuffer (K : Type*) where
  size : ℕ
  size_pos : 0 < size
  lastPos : Option (Fin size)
  buffer : List K
  length_buffer : buffer.length = size
  cycled : Bool

/-- `NewBoundedBuffer(size, callback)`: `size` slots holding the zero value of `K`. -/
def NewBoundedBuffer {K : Type*} [Inhabited K] (size : ℕ) (h : 0 < size) : BoundedBuffer K :=
  ⟨size, h, none, List.replicate size default, List.length_replicate, false⟩

namespace BoundedBuffer

variable {K σ : Type*}

/-- The value in a slot. -/
def slot (b : BoundedBuffer K) (i : Fin b.size) : K :=
  b.buffer.get ⟨i, by rw [b.length_buffer]; exact i.2⟩

/-- `b.lastPos + 1`. -/
def afterLast (b : BoundedBuffer K) : ℕ :=
  match b.lastPos with
  | none => 0
  | some p => p.1 + 1

theorem afterLast_of_none {b : BoundedBuffer K} (hp : b.lastPos = none) : b.afterLast = 0 := by
  unfold afterLast
  rw [hp]

theorem afterLast_of_some {b : BoundedBuffer K} {p : Fin b.size} (hp : b.lastPos = some p) :
    b.afterLast = p.1 + 1 := by
  unfold afterLast
  rw [hp]

theorem afterLast_le (b : BoundedBuffer K) : b.afterLast ≤ b.size := by
  unfold afterLast
  split
  · exact Nat.zero_le _
  · next p _ => exact p.2

/-- The slot `Insert` writes: `lastPos + 1`, or 0 past the last slot. -/
def nextPos (b : BoundedBuffer K) : Fin b.size :=
  if h : b.afterLast = b.size then ⟨0, b.size_pos⟩
  else ⟨b.afterLast, lt_of_le_of_ne b.afterLast_le h⟩

theorem nextPos_val_eq (b : BoundedBuffer K) :
    (b.nextPos : ℕ) = if b.afterLast = b.size then 0 else b.afterLast := by
  unfold nextPos
  split <;> rfl

/-- The buffer with `h` written to slot `i`, which becomes the last position. -/
def write (b : BoundedBuffer K) (i : Fin b.size) (h : K) : BoundedBuffer K :=
  { b with
    buffer := b.buffer.set i h
    length_buffer := by rw [List.length_set, b.length_buffer]
    lastPos := some i }

/-- `Insert(h)`, with the callback acting on a state `σ`. Reaching the end of the ring sets
`cycled` before the callback runs, so a callback that fails leaves it set and the slot as it
was. -/
def Insert {ε : Type*} (b : BoundedBuffer K) (callback : σ → K → Except ε σ) (s : σ) (h : K) :
    Except ε σ × BoundedBuffer K :=
  let nextPos := b.nextPos
  let b' := { b with cycled := b.cycled || decide (b.afterLast = b.size) }
  if b'.cycled then
    match callback s (b.slot nextPos) with
    | .error err => (.error err, b')
    | .ok s => (.ok s, b'.write nextPos h)
  else (.ok s, b'.write nextPos h)

/-- `Last()`: the value inserted last, and whether there was one. -/
def Last [Inhabited K] (b : BoundedBuffer K) : K × Bool :=
  match b.lastPos with
  | none => (default, false)
  | some p => (b.slot p, true)

/-- `Insert(h)` with a callback that always returns nil. -/
def insertOk (b : BoundedBuffer K) (callback : σ → K → σ) (s : σ) (h : K) :
    σ × BoundedBuffer K :=
  match b.Insert (fun s k => (.ok (callback s k) : Except Empty σ)) s h with
  | (.ok s, b) => (s, b)
  | (.error err, _) => err.elim

/-- A run of inserts with a callback that always returns nil. -/
def insertAll (callback : σ → K → σ) (sb : σ × BoundedBuffer K) (xs : List K) :
    σ × BoundedBuffer K :=
  xs.foldl (fun sb x => sb.2.insertOk callback sb.1 x) sb

theorem insertOk_eq (b : BoundedBuffer K) (callback : σ → K → σ) (s : σ) (h : K) :
    b.insertOk callback s h =
      (if b.cycled || decide (b.afterLast = b.size) then callback s (b.slot b.nextPos) else s,
        { b with cycled := b.cycled || decide (b.afterLast = b.size) }.write b.nextPos h) := by
  unfold insertOk Insert
  dsimp only
  split_ifs <;> rfl

/-! ## What the ring holds -/

/-- The inserts of `xs` that the insert after them overwrites: the one `size` places before
the end, once there are `size` of them. -/
def evicted (size : ℕ) (xs : List K) : List K :=
  if size ≤ xs.length then xs[xs.length - size]?.toList else []

/-- The inserts that have left the window after one more insert are those that had left it
before, and the one this insert overwrites. -/
theorem take_append_singleton_sub {size : ℕ} (hsize : 0 < size) (xs : List K) (x : K) :
    (xs ++ [x]).take ((xs ++ [x]).length - size) =
      xs.take (xs.length - size) ++ evicted size xs := by
  rw [List.length_append, List.length_singleton]
  unfold evicted
  split
  · next hle =>
    have hsucc : xs.length + 1 - size = (xs.length - size) + 1 := by omega
    rw [hsucc, List.take_append_of_le_length (by omega), List.take_add_one]
  · rw [show xs.length + 1 - size = 0 by omega, show xs.length - size = 0 by omega]
    rfl

/-- What the ring holds after the inserts `xs`: the last position is that of the last insert,
the ring has cycled once more than `size` values were inserted, and each of the last `size`
inserts sits in the slot of its position modulo `size`. -/
structure Holds (b : BoundedBuffer K) (xs : List K) : Prop where
  afterLast_eq : b.afterLast = if xs = [] then 0 else (xs.length - 1) % b.size + 1
  cycled_eq : b.cycled = decide (b.size < xs.length)
  slot_eq : ∀ i (hi : i < xs.length), xs.length ≤ i + b.size → b.buffer[i % b.size]? = some xs[i]

theorem holds_new [Inhabited K] (size : ℕ) (h : 0 < size) :
    Holds (NewBoundedBuffer (K := K) size h) [] where
  afterLast_eq := rfl
  cycled_eq := by simp [NewBoundedBuffer]
  slot_eq i hi := absurd hi (Nat.not_lt_zero i)

/-- One past the slot of position `a` is the slot of position `a + 1`, or the end. -/
theorem mod_add_one_eq (a m : ℕ) (hm : 0 < m) :
    (a + 1) % m = if a % m + 1 = m then 0 else a % m + 1 := by
  have hlt : a % m < m := Nat.mod_lt a hm
  rw [Nat.add_mod_eq_ite]
  rcases Nat.lt_or_ge 1 m with h1 | h1
  · rw [Nat.mod_eq_of_lt h1]
    split_ifs <;> omega
  · have hm1 : m = 1 := by omega
    subst hm1
    simp [Nat.mod_one]

/-- The insert after `xs` writes the slot of position `xs.length`. -/
theorem Holds.nextPos_val {b : BoundedBuffer K} {xs : List K} (h : Holds b xs) :
    (b.nextPos : ℕ) = xs.length % b.size := by
  have hpos := b.size_pos
  have hafter := h.afterLast_eq
  rw [nextPos_val_eq]
  by_cases hxs : xs = []
  · subst hxs
    rw [if_pos rfl] at hafter
    rw [hafter, if_neg (Nat.ne_of_lt hpos)]
    rfl
  · rw [if_neg hxs] at hafter
    have hlen : xs.length = (xs.length - 1) + 1 := by
      have := List.length_pos_iff.mpr hxs
      omega
    rw [hafter, hlen, mod_add_one_eq _ _ hpos, ← hlen]

/-- The ring wraps at the insert after `xs` exactly when `xs` fills it a whole number of
times. -/
theorem Holds.cycled_next {b : BoundedBuffer K} {xs : List K} (h : Holds b xs) :
    (b.cycled || decide (b.afterLast = b.size)) = decide (b.size ≤ xs.length) := by
  have hpos := b.size_pos
  rw [h.cycled_eq, h.afterLast_eq]
  rcases Nat.lt_trichotomy b.size xs.length with hlt | heq | hgt
  · simp [hlt, Nat.le_of_lt hlt]
  · have hxs : xs ≠ [] := by
      rw [← List.length_pos_iff]
      omega
    rw [if_neg hxs, ← heq, Nat.mod_eq_of_lt (by omega)]
    simp [Nat.sub_add_cancel hpos]
  · have hne : (if xs = [] then 0 else (xs.length - 1) % b.size + 1) ≠ b.size := by
      split
      · omega
      · next hxs =>
        have hlen := List.length_pos_iff.mpr hxs
        rw [Nat.mod_eq_of_lt (by omega)]
        omega
    simp [Nat.not_lt_of_gt hgt, hne, Nat.not_le_of_gt hgt]

/-- Two positions less than `m` apart sit in different slots. -/
theorem mod_ne_of_lt_of_lt_add {i n m : ℕ} (hin : i < n) (hnm : n < i + m) : i % m ≠ n % m := by
  intro heq
  have hdvd : (n - i) % m = 0 := Nat.sub_mod_eq_zero_of_mod_eq heq.symm
  rw [Nat.mod_eq_of_lt (by omega)] at hdvd
  omega

/-- The insert after `xs` overwrites the value inserted `size` places before it. -/
theorem Holds.slot_nextPos {b : BoundedBuffer K} {xs : List K} (h : Holds b xs)
    (hle : b.size ≤ xs.length) : [b.slot b.nextPos] = evicted b.size xs := by
  have hpos := b.size_pos
  have hi : xs.length - b.size < xs.length := by omega
  have hslot := h.slot_eq (xs.length - b.size) hi (by omega)
  rw [← Nat.mod_eq_sub_mod hle, ← h.nextPos_val, List.getElem?_eq_getElem] at hslot
  unfold evicted slot
  rw [if_pos hle, List.getElem?_eq_getElem hi, Option.toList_some]
  simpa using hslot

/-- One insert after `xs`: the ring holds `xs ++ [x]`, and the callback has run on what the
insert overwrote. -/
theorem Holds.insertOk {b : BoundedBuffer K} {xs : List K} (h : Holds b xs)
    (callback : σ → K → σ) (s : σ) (x : K) :
    Holds (b.insertOk callback s x).2 (xs ++ [x]) ∧
      (b.insertOk callback s x).1 = (evicted b.size xs).foldl callback s := by
  have hpos := b.size_pos
  have hnext := h.nextPos_val
  rw [insertOk_eq, h.cycled_next]
  simp only [decide_eq_true_eq]
  refine ⟨⟨?_, ?_, ?_⟩, ?_⟩
  · -- the new last position is the slot of position `xs.length`
    simp only [write, afterLast, List.append_ne_nil_of_right_ne_nil xs (List.cons_ne_nil x []),
      if_false, List.length_append, List.length_singleton, Nat.add_sub_cancel, hnext]
  · simp only [write, List.length_append, List.length_singleton, Nat.lt_succ_iff]
  · intro i hi hwin
    simp only [write, List.length_append, List.length_singleton] at hi hwin ⊢
    rcases Nat.lt_or_ge i xs.length with hlt | hge
    · -- an older insert: its slot is not the one written
      rw [List.getElem?_set_ne (by rw [hnext]; exact (mod_ne_of_lt_of_lt_add hlt (by omega)).symm),
        h.slot_eq i hlt (by omega), List.getElem_append_left hlt]
    · have hix : i = xs.length := by omega
      subst hix
      rw [← hnext, List.getElem?_set_self (by rw [b.length_buffer]; exact b.nextPos.2)]
      simp
  · split
    · next hle => rw [← h.slot_nextPos hle]; rfl
    · next hlt => simp [evicted, hlt]

theorem insertOk_size (b : BoundedBuffer K) (callback : σ → K → σ) (s : σ) (x : K) :
    (b.insertOk callback s x).2.size = b.size := by
  rw [insertOk_eq]
  rfl

theorem insertAll_append_singleton (callback : σ → K → σ) (sb : σ × BoundedBuffer K)
    (xs : List K) (x : K) :
    insertAll callback sb (xs ++ [x]) =
      (insertAll callback sb xs).2.insertOk callback (insertAll callback sb xs).1 x := by
  unfold insertAll
  rw [List.foldl_append]
  rfl

/-- A run of inserts from an empty ring. -/
theorem holds_insertAll [Inhabited K] (size : ℕ) (hsize : 0 < size) (callback : σ → K → σ)
    (s : σ) (xs : List K) :
    Holds (insertAll callback (s, NewBoundedBuffer size hsize) xs).2 xs ∧
      (insertAll callback (s, NewBoundedBuffer size hsize) xs).2.size = size ∧
      (insertAll callback (s, NewBoundedBuffer size hsize) xs).1 =
        (xs.take (xs.length - size)).foldl callback s := by
  induction xs using List.reverseRecOn with
  | nil => exact ⟨holds_new size hsize, rfl, by simp [insertAll]⟩
  | append_singleton xs x ih =>
    obtain ⟨hholds, hsize', hstate⟩ := ih
    rw [insertAll_append_singleton]
    generalize insertAll callback (s, NewBoundedBuffer size hsize) xs = r at hholds hsize' hstate ⊢
    obtain ⟨hholds', hstate'⟩ := hholds.insertOk callback r.1 x
    refine ⟨hholds', by rw [insertOk_size, hsize'], ?_⟩
    rw [hstate', take_append_singleton_sub hsize, List.foldl_append, hstate, hsize']

/-- `Last` returns the value inserted last. -/
theorem Holds.Last_eq [Inhabited K] {b : BoundedBuffer K} {xs : List K} (h : Holds b xs) :
    b.Last = (xs.getLast?.getD default, decide (xs ≠ [])) := by
  have hafter := h.afterLast_eq
  unfold Last
  split
  · next hnone =>
    rw [afterLast_of_none hnone] at hafter
    have hxs : xs = [] := by
      by_contra hxs
      rw [if_neg hxs] at hafter
      omega
    simp [hxs]
  · next p hp =>
    rw [afterLast_of_some hp] at hafter
    have hxs : xs ≠ [] := by
      intro hxs
      rw [if_pos hxs] at hafter
      omega
    rw [if_neg hxs] at hafter
    have hlen : 0 < xs.length := List.length_pos_iff.mpr hxs
    have hslot := h.slot_eq (xs.length - 1) (by omega) (by have := b.size_pos; omega)
    rw [show (xs.length - 1) % b.size = p by omega] at hslot
    rw [List.getLast?_eq_getElem?, List.getElem?_eq_getElem (by omega)]
    simp only [slot, Option.getD_some, hxs, ne_eq, not_false_eq_true, decide_true, Prod.mk.injEq,
      and_true]
    rw [List.getElem?_eq_getElem (by rw [b.length_buffer]; exact p.2)] at hslot
    simpa using hslot

/-- After `n` inserts into a `BoundedBuffer(size)` whose callback always returns nil, the
callback has run exactly on the first `n - size` inserted values, in the order they were
inserted, and `Last` returns the `n`-th. -/
theorem insertAll_callback [Inhabited K] (size : ℕ) (hsize : 0 < size) (callback : σ → K → σ)
    (s : σ) (xs : List K) :
    (insertAll callback (s, NewBoundedBuffer size hsize) xs).1 =
        (xs.take (xs.length - size)).foldl callback s ∧
      (insertAll callback (s, NewBoundedBuffer size hsize) xs).2.Last =
        (xs.getLast?.getD default, decide (xs ≠ [])) := by
  obtain ⟨hholds, -, hstate⟩ := holds_insertAll size hsize callback s xs
  exact ⟨hstate, hholds.Last_eq⟩

/-- The values a run of inserts has overwritten are exactly those `evicted` names. -/
theorem mem_evicted {size : ℕ} {xs : List K} {k : K} :
    k ∈ evicted size xs ↔ size ≤ xs.length ∧ xs[xs.length - size]? = some k := by
  unfold evicted
  split
  · next hle => simp [hle, eq_comm]
  · next hlt => simp [hlt]

end BoundedBuffer

/-! ## The FIFO cache -/

/-- `BufferFIFOCache[K, V]`, without its lock: the ring of keys and the map. -/
structure BufferFIFOCache (K V : Type*) where
  buffer : BoundedBuffer K
  m : AList (fun _ : K => V)

namespace BufferFIFOCache

variable {K V : Type*} [DecidableEq K]

/-- `remove(key)`, the ring's callback: delete the key from the map. It never fails. -/
def remove (m : AList (fun _ : K => V)) (key : K) : Except Empty (AList (fun _ : K => V)) :=
  .ok (m.erase key)

/-- `Put(key, val)`: insert the key in the ring, whose callback deletes the key it overwrites
from the map, then set the key's entry. -/
def Put (f : BufferFIFOCache K V) (key : K) (val : V) : BufferFIFOCache K V :=
  match f.buffer.Insert remove f.m key with
  | (.ok m, buffer) => ⟨buffer, m.insert key val⟩
  | (.error err, _) => err.elim

/-- `Get(key)`. -/
def Get (f : BufferFIFOCache K V) (key : K) : Option V := f.m.lookup key

/-- A run of `Put`s. -/
def putAll (f : BufferFIFOCache K V) (ps : List (K × V)) : BufferFIFOCache K V :=
  ps.foldl (fun f p => f.Put p.1 p.2) f

theorem Put_eq (f : BufferFIFOCache K V) (key : K) (val : V) :
    f.Put key val =
      ⟨(f.buffer.insertOk (fun m k => m.erase k) f.m key).2,
        (f.buffer.insertOk (fun m k => m.erase k) f.m key).1.insert key val⟩ := by
  unfold Put BoundedBuffer.insertOk
  split
  · next m buffer heq =>
    have heq' : f.buffer.Insert (fun s k => (.ok (s.erase k) : Except Empty _)) f.m key =
        (.ok m, buffer) := heq
    simp only [heq']
  · next err _ _ => exact err.elim

theorem lookup_foldl_erase (l : List K) (m : AList (fun _ : K => V)) (k : K) :
    (l.foldl (fun m k => m.erase k) m).lookup k = if k ∈ l then none else m.lookup k := by
  induction l generalizing m with
  | nil => simp
  | cons a l ih =>
    rw [List.foldl_cons, ih]
    by_cases hka : k = a
    · subst hka
      simp [AList.lookup_erase]
    · simp [hka, AList.lookup_erase_ne hka]

end BufferFIFOCache

/-- `FIFOCache[K, V]`, with its two implementations. -/
inductive FIFOCache (K V : Type*)
  | buffer (c : BufferFIFOCache K V)
  | noOp

/-- `NewFIFOCache(limit)`: a limit of 0 or less gives the cache that keeps nothing. -/
def NewFIFOCache {K V : Type*} [Inhabited K] (limit : ℤ) : FIFOCache K V :=
  if h : limit ≤ 0 then .noOp
  else .buffer ⟨NewBoundedBuffer limit.toNat (by omega), ∅⟩

namespace FIFOCache

variable {K V : Type*} [DecidableEq K]

/-- `Put(key, val)`. -/
def Put : FIFOCache K V → K → V → FIFOCache K V
  | .buffer c, key, val => .buffer (c.Put key val)
  | .noOp, _, _ => .noOp

/-- `Get(key)`: the no-op cache has nothing. -/
def Get : FIFOCache K V → K → Option V
  | .buffer c, key => c.Get key
  | .noOp, _ => none

/-- A run of `Put`s. -/
def putAll (c : FIFOCache K V) (ps : List (K × V)) : FIFOCache K V :=
  ps.foldl (fun c p => c.Put p.1 p.2) c

theorem putAll_buffer (f : BufferFIFOCache K V) (ps : List (K × V)) :
    (FIFOCache.buffer f).putAll ps = .buffer (f.putAll ps) := by
  induction ps generalizing f with
  | nil => rfl
  | cons p ps ih => exact ih (f.Put p.1 p.2)

end FIFOCache

/-! ## What the cache keeps -/

section Kept

variable {K V : Type*}

/-- The entry the source keeps for `k` after the puts `ps` into a cache of `limit` slots: the
put of `k` at `p` is the last one, and no later put `j + limit` overwrote the slot of a put `j`
of `k`. The put at `j + limit` evicts the key of the put at `j`, whichever put of that key is
the current one. -/
def Kept (limit : ℕ) (ps : List (K × V)) (k : K) (v : V) : Prop :=
  ∃ p, ps[p]? = some (k, v) ∧ (∀ q, p < q → (ps[q]?).map Prod.fst ≠ some k) ∧
    ∀ j, p < j + limit → j + limit < ps.length → (ps[j]?).map Prod.fst ≠ some k

theorem getElem?_append_singleton (ps : List (K × V)) (e : K × V) (i : ℕ) :
    (ps ++ [e])[i]? = if i < ps.length then ps[i]? else if i = ps.length then some e else none := by
  split
  · next hi => exact List.getElem?_append_left hi
  · next hi =>
    rw [List.getElem?_append_right (by omega)]
    split
    · next hi' => subst hi'; simp
    · next hi' => exact List.getElem?_eq_none (by simp; omega)

/-- Every entry kept was put among the last `limit` puts. -/
theorem Kept.mem_drop {limit : ℕ} (hlimit : 0 < limit) {ps : List (K × V)} {k : K} {v : V}
    (h : Kept limit ps k v) : (k, v) ∈ ps.drop (ps.length - limit) := by
  obtain ⟨p, hp, -, hj⟩ := h
  have hpn : p < ps.length := (List.getElem?_eq_some_iff.mp hp).1
  -- a put of `k` more than `limit` puts back has had its slot overwritten
  have hwin : ps.length ≤ p + limit := by
    by_contra hlt
    exact hj p (by omega) (by omega) (by simp [hp])
  rw [List.mem_iff_getElem?]
  refine ⟨p - (ps.length - limit), ?_⟩
  rw [List.getElem?_drop, show ps.length - limit + (p - (ps.length - limit)) = p by omega, hp]

variable [DecidableEq K]

/-- What one more put does to the entry kept for a key: the key put keeps the new value, and
any other key keeps its entry unless the put overwrote a slot of it. -/
theorem Kept.of_append_singleton {limit : ℕ} (hlimit : 0 < limit) {ps : List (K × V)}
    {k' k : K} {v' v : V} (h : Kept limit (ps ++ [(k', v')]) k v) :
    if k = k' then v = v'
    else Kept limit ps k v ∧ k ∉ BoundedBuffer.evicted limit (ps.map Prod.fst) := by
  obtain ⟨p, hp, hq, hj⟩ := h
  have hplt : p < ps.length + 1 := by
    have := (List.getElem?_eq_some_iff.mp hp).1
    simpa using this
  split
  · next hk =>
    subst hk
    -- the last put of `k` is the new one
    have hpn : p = ps.length := by
      by_contra hne
      apply hq ps.length (by omega)
      simp
    subst hpn
    simp at hp
    exact hp.symm
  · next hk =>
    have hpn : p < ps.length := by
      by_contra hge
      have hpe : p = ps.length := by omega
      subst hpe
      simp at hp
      exact hk hp.1.symm
    refine ⟨⟨p, ?_, fun q hpq => ?_, fun j hpj hjn => ?_⟩, ?_⟩
    · rwa [getElem?_append_singleton, if_pos hpn] at hp
    · rcases Nat.lt_or_ge q ps.length with hqn | hqn
      · have := hq q hpq
        rwa [getElem?_append_singleton, if_pos hqn] at this
      · rw [List.getElem?_eq_none hqn]
        simp
    · have := hj j hpj (by simp; omega)
      rwa [getElem?_append_singleton, if_pos (by omega)] at this
    · -- the put overwrote the slot of the put `ps.length - limit`, which was not of `k`
      rw [BoundedBuffer.mem_evicted, List.length_map, List.getElem?_map]
      rintro ⟨hle, hget⟩
      apply hj (ps.length - limit) (by omega) (by simp; omega)
      rwa [getElem?_append_singleton, if_pos (by omega)]

theorem Kept.append_singleton {limit : ℕ} (hlimit : 0 < limit) {ps : List (K × V)}
    {k' k : K} {v' v : V}
    (h : if k = k' then v = v' else Kept limit ps k v ∧ k ∉ BoundedBuffer.evicted limit (ps.map Prod.fst)) :
    Kept limit (ps ++ [(k', v')]) k v := by
  split at h
  · next hk =>
    subst hk h
    refine ⟨ps.length, by simp, fun q hq => ?_, fun j hj hjn => ?_⟩
    · rw [List.getElem?_eq_none (by simp; omega)]
      simp
    · simp at hjn
      omega
  · next hk =>
    obtain ⟨⟨p, hp, hq, hj⟩, hev⟩ := h
    have hpn : p < ps.length := (List.getElem?_eq_some_iff.mp hp).1
    refine ⟨p, ?_, fun q hpq => ?_, fun j hpj hjn => ?_⟩
    · rwa [getElem?_append_singleton, if_pos hpn]
    · rw [getElem?_append_singleton]
      split
      · exact hq q hpq
      · split
        · simpa using Ne.symm hk
        · simp
    · rw [List.length_append, List.length_singleton] at hjn
      rw [getElem?_append_singleton, if_pos (by omega)]
      rcases Nat.lt_or_ge (j + limit) ps.length with hjl | hjl
      · exact hj j hpj hjl
      · -- the new put overwrote the slot of the put `j`, which was not of `k`
        have hj' : j = ps.length - limit := by omega
        subst hj'
        intro hget
        apply hev
        rw [BoundedBuffer.mem_evicted, List.length_map, List.getElem?_map]
        exact ⟨by omega, hget⟩

end Kept

/-! ## Runs of puts -/

section Runs

variable {K V σ : Type*} [DecidableEq K]

theorem BufferFIFOCache.putAll_append_singleton (f : BufferFIFOCache K V) (ps : List (K × V))
    (p : K × V) : f.putAll (ps ++ [p]) = (f.putAll ps).Put p.1 p.2 := by
  unfold putAll
  rw [List.foldl_append]
  rfl

/-- One put, read through the ring's invariant: the new key has the new value, and every other
key keeps its entry unless its slot was overwritten. -/
theorem BufferFIFOCache.Get_Put {f : BufferFIFOCache K V} {xs : List K}
    (h : f.buffer.Holds xs) (key k : K) (val : V) :
    (f.Put key val).Get k =
      if k = key then some val
      else if k ∈ BoundedBuffer.evicted f.buffer.size xs then none else f.Get k := by
  rw [Put_eq]
  unfold Get
  dsimp only
  rw [(h.insertOk (fun m k => m.erase k) f.m key).2]
  split
  · next hk => subst hk; exact AList.lookup_insert _
  · next hk => rw [AList.lookup_insert_ne hk, lookup_foldl_erase]

/-- A run of puts into an empty cache of `limit` slots: the ring holds the keys put, and `Get`
returns exactly the entry `Kept`. -/
theorem putAll_holds [Inhabited K] (limit : ℕ) (hlimit : 0 < limit) (ps : List (K × V)) :
    ((BufferFIFOCache.mk (NewBoundedBuffer limit hlimit) ∅).putAll ps).buffer.Holds
        (ps.map Prod.fst) ∧
      ((BufferFIFOCache.mk (NewBoundedBuffer limit hlimit) ∅).putAll ps).buffer.size = limit ∧
      ∀ k v, ((BufferFIFOCache.mk (NewBoundedBuffer limit hlimit) ∅).putAll ps).Get k = some v ↔
        Kept limit ps k v := by
  induction ps using List.reverseRecOn with
  | nil =>
    refine ⟨BoundedBuffer.holds_new limit hlimit, rfl, fun k v => ?_⟩
    simp [BufferFIFOCache.putAll, BufferFIFOCache.Get, Kept]
  | append_singleton ps e ih =>
    obtain ⟨k', v'⟩ := e
    obtain ⟨hholds, hsize, hget⟩ := ih
    rw [BufferFIFOCache.putAll_append_singleton]
    generalize (BufferFIFOCache.mk (NewBoundedBuffer limit hlimit) ∅).putAll ps = f
      at hholds hsize hget ⊢
    refine ⟨?_, ?_, fun k v => ?_⟩
    · rw [BufferFIFOCache.Put_eq, List.map_append]
      exact (hholds.insertOk _ f.m k').1
    · rw [BufferFIFOCache.Put_eq, BoundedBuffer.insertOk_size, hsize]
    · rw [BufferFIFOCache.Get_Put hholds, hsize]
      constructor
      · intro hlk
        apply Kept.append_singleton hlimit
        split at hlk
        · next hk => rw [if_pos hk]; exact (Option.some.inj hlk).symm
        · next hk =>
          rw [if_neg hk]
          split at hlk
          · cases hlk
          · next hev => exact ⟨(hget k v).mp hlk, hev⟩
      · intro hkept
        have hstep := Kept.of_append_singleton hlimit hkept
        split at hstep
        · next hk => rw [if_pos hk, hstep]
        · next hk =>
          rw [if_neg hk, if_neg hstep.2]
          exact (hget k v).mpr hstep.1

/-- A cache whose entries are those `Kept` holds at most `limit` of them. -/
theorem BufferFIFOCache.length_entries_le {limit : ℕ} (hlimit : 0 < limit) {ps : List (K × V)}
    (f : BufferFIFOCache K V) (hget : ∀ k v, f.Get k = some v ↔ Kept limit ps k v) :
    f.m.entries.length ≤ limit := by
  have hsub : f.m.keys ⊆ (ps.drop (ps.length - limit)).map Prod.fst := by
    intro k hk
    rw [← AList.mem_keys] at hk
    obtain ⟨v, hv⟩ := Option.isSome_iff_exists.mp (AList.lookup_isSome.mpr hk)
    exact List.mem_map.mpr ⟨(k, v), ((hget k v).mp hv).mem_drop hlimit, rfl⟩
  have hlen := (List.subperm_of_subset f.m.keys_nodup hsub).length_le
  simp only [AList.keys, List.keys, List.length_map, List.length_drop] at hlen
  omega

/-- The FIFO cache after any sequence of puts into a cache with a positive limit: `Get`
returns exactly the entry `Kept`, so a value it returns is that of the last put of its key, and
the map holds at most `limit` entries. A `BoundedBuffer(size)` whose callback always returns
nil has, after the inserts `xs`, run the callback on exactly the first `len(xs) - size` of them,
in order, and `Last` returns the last. -/
theorem FIFOCache_Get_putAll_kept [Inhabited K] (limit : ℤ) (hlimit : 0 < limit) (ps : List (K × V))
    (size : ℕ) (hsize : 0 < size) (callback : σ → K → σ) (s : σ) (xs : List K) :
    (∀ k v, ((NewFIFOCache limit).putAll ps).Get k = some v ↔ Kept limit.toNat ps k v) ∧
      (∀ k v, ((NewFIFOCache limit).putAll ps).Get k = some v →
        ∃ p : ℕ, ps[p]? = some (k, v) ∧ ∀ q : ℕ, p < q → (ps[q]?).map Prod.fst ≠ some k) ∧
      (∃ f, (NewFIFOCache limit).putAll ps = .buffer f ∧ f.m.entries.length ≤ limit.toNat) ∧
      (BoundedBuffer.insertAll callback (s, NewBoundedBuffer size hsize) xs).1 =
        (xs.take (xs.length - size)).foldl callback s ∧
      (BoundedBuffer.insertAll callback (s, NewBoundedBuffer size hsize) xs).2.Last =
        (xs.getLast?.getD default, decide (xs ≠ [])) := by
  have hpos : 0 < limit.toNat := by omega
  have hnew : (NewFIFOCache limit : FIFOCache K V) =
      .buffer ⟨NewBoundedBuffer limit.toNat hpos, ∅⟩ := by
    unfold NewFIFOCache
    rw [dif_neg (by omega)]
  rw [hnew, FIFOCache.putAll_buffer]
  obtain ⟨-, -, hget⟩ := putAll_holds limit.toNat hpos ps
  refine ⟨hget, fun k v hkv => ?_, ⟨_, rfl, BufferFIFOCache.length_entries_le hpos _ hget⟩,
    BoundedBuffer.insertAll_callback size hsize callback s xs⟩
  obtain ⟨p, hp, hq, -⟩ := (hget k v).mp hkv
  exact ⟨p, hp, hq⟩

/-- Three puts into a cache of two slots, the key 0 put twice in a row. -/
def samplePuts : List (ℕ × ℕ) := [(0, 1), (0, 2), (1, 3)]

theorem FIFOCache_Get_putAll_kept_sample :
    ((NewFIFOCache 2 : FIFOCache ℕ ℕ).putAll samplePuts).Get 1 = some 3 ∧
      Kept 2 samplePuts 1 3 := by
  have hget : ((NewFIFOCache 2 : FIFOCache ℕ ℕ).putAll samplePuts).Get 1 = some 3 := by decide
  have hspec := FIFOCache_Get_putAll_kept (2 : ℤ) (by decide) samplePuts 2 (by decide)
    (fun log k => log ++ [k]) ([] : List ℕ) [5, 6, 7]
  exact ⟨hget, (hspec.1 1 3).mp hget⟩

/-- The last put of key 0 is among the last two, yet `Get(0)` misses: the third put overwrote
the slot of the first put of 0 and deleted the entry of the second. -/
theorem FIFOCache_Get_putAll_drops_repeated_key :
    (0, 2) ∈ samplePuts.drop 1 ∧
      ((NewFIFOCache 2 : FIFOCache ℕ ℕ).putAll samplePuts).Get 0 = none := by
  decide

end Runs

end Jeth
