import Mathlib

/-!
# A least-recently-used cache

The `cache.LRU` of the node library: a linked hash map of at most `Size` entries, where `Put`
and a successful `Get` make their key the most recently used one, and a full cache drops its
least recently used entry to make room. The map is an `AList`, most recently used first, so
its keys carry their uniqueness with them. A `Size` of zero or less is taken as one, and
every operation first shrinks the map to the size.
-/

namespace Jeth

/-- `cache.LRU[K, V]`. -/
structure LRU (K : Type*) (V : Type*) where
  /-- `Size`, the most entries the cache keeps. -/
  size : ℕ
  /-- The linked hash map, most recently used entry first. -/
  elements : AList (fun _ : K => V)

namespace LRU

variable {K V : Type*} [DecidableEq K]

/-- An empty cache of the given size. -/
def empty (size : ℕ) : LRU K V := ⟨size, ∅⟩

/-- The `n` most recently used entries of a map. -/
def newest (n : ℕ) (s : AList (fun _ : K => V)) : AList (fun _ : K => V) :=
  ⟨s.entries.take n, s.nodupKeys.sublist (List.take_sublist n _)⟩

/-- A map without its least recently used entry. -/
def withoutOldest (s : AList (fun _ : K => V)) : AList (fun _ : K => V) :=
  ⟨s.entries.dropLast, s.nodupKeys.sublist (List.dropLast_sublist _)⟩

/-- `resize`: a size of zero becomes one, and the map drops its oldest entries down to it. -/
def resize (c : LRU K V) : LRU K V :=
  let size := max c.size 1
  ⟨size, newest size c.elements⟩

/-- `Put(key, value)`: a full cache first drops its oldest entry, even when `key` is already
present; then `key` becomes the most recent entry. -/
def put (c : LRU K V) (key : K) (value : V) : LRU K V :=
  let c := c.resize
  let elements :=
    if c.elements.entries.length = c.size then withoutOldest c.elements else c.elements
  ⟨c.size, elements.insert key value⟩

/-- `Get(key)`: a hit makes `key` the most recent entry. -/
def get (c : LRU K V) (key : K) : Option V × LRU K V :=
  let c := c.resize
  match c.elements.lookup key with
  | none => (none, c)
  | some value => (some value, ⟨c.size, c.elements.insert key value⟩)

/-- `Evict(key)`. -/
def evict (c : LRU K V) (key : K) : LRU K V :=
  let c := c.resize
  ⟨c.size, c.elements.erase key⟩

end LRU

end Jeth
