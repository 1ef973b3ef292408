import Mathlib

/-!
# Maps of slices and bit sets

Two idioms of Go code over maps, written as folds over association lists, and what a lookup
sees after them:

* grouping a list by key, `m[k] = append(m[k], v)` for each element that passes a test
  (`lookup_foldl_appendAt`): a key reads the elements with that key, in list order;
* walking a map and writing a value computed from each entry into another,
  `for k, v := range m { r[k] = f(k, v) }` (`lookup_foldl_insert`): the order of the walk does
  not matter, since a map has each key once.

`BitSet` is the interface of a set of indexes kept as bits, with the byte encoding it is stored
under and the laws the callers rely on. `failedIndexes` is the usual loop that marks the
positions of a list whose element fails a check (`Contains_failedIndexes`).
-/

namespace Jeth.Collections

section Maps

variable {κ ν μ : Type*} [DecidableEq κ]

/-- `m[k] = append(m[k], v)`: a missing key reads as the empty slice. -/
def appendAt (m : AList fun _ : κ => List ν) (k : κ) (v : ν) : AList fun _ : κ => List ν :=
  m.insert k ((m.lookup k).getD [] ++ [v])

@[simp] theorem lookup_appendAt_self (m : AList fun _ : κ => List ν) (k : κ) (v : ν) :
    (appendAt m k v).lookup k = some ((m.lookup k).getD [] ++ [v]) :=
  AList.lookup_insert m

theorem lookup_appendAt_ne {m : AList fun _ : κ => List ν} {k a : κ} (v : ν) (h : a ≠ k) :
    (appendAt m k v).lookup a = m.lookup a :=
  AList.lookup_insert_ne h

/-- Appending the elements of `l` that pass `keep` under their keys: the key `a` reads the
ones with key `a`, in the order of `l`, after what it held; a key no element has keeps its
value. -/
theorem lookup_foldl_appendAt {ι : Type*} (key : ι → κ) (val : ι → ν) (keep : ι → Bool)
    (a : κ) : ∀ (l : List ι) (m : AList fun _ : κ => List ν),
    (l.foldl (fun m x => if keep x then appendAt m (key x) (val x) else m) m).lookup a =
      if l.filter (fun x => keep x && key x = a) = [] then m.lookup a
      else some ((m.lookup a).getD [] ++ (l.filter fun x => keep x && key x = a).map val)
  | [], m => by simp
  | x :: xs, m => by
    rw [List.foldl_cons, lookup_foldl_appendAt key val keep a xs]
    by_cases hx : keep x && key x = a
    · -- `x` is appended under `a` first, the later elements after it
      have hkeep : keep x = true := by simp_all
      have hkey : key x = a := by simp_all
      rw [List.filter_cons, if_pos hx, hkeep, if_pos rfl, hkey, lookup_appendAt_self]
      split_ifs <;> simp_all
    · have hm : (if keep x then appendAt m (key x) (val x) else m).lookup a = m.lookup a := by
        split_ifs with hkeep
        · exact lookup_appendAt_ne _ fun h => hx (by simp [hkeep, h])
        · rfl
      rw [List.filter_cons, if_neg hx, hm]

/-- The fold of `for k, v := range m { r[k] = f(k, v) }` over a list of entries with distinct
keys. -/
theorem dlookup_foldl_insert (f : κ → ν → μ) (a : κ) :
    ∀ (l : List (Sigma fun _ : κ => ν)), l.NodupKeys → ∀ r : AList fun _ : κ => μ,
      (l.foldl (fun r s => r.insert s.1 (f s.1 s.2)) r).lookup a =
        ((l.dlookup a).map (f a)).or (r.lookup a)
  | [], _, r => by simp
  | ⟨k, v⟩ :: l, hl, r => by
    rw [List.nodupKeys_cons] at hl
    rw [List.foldl_cons, dlookup_foldl_insert f a l hl.2]
    by_cases ha : a = k
    · -- the key `k` is not among the later entries
      subst ha
      have hnone : l.dlookup a = none := List.dlookup_eq_none.mpr hl.1
      simp [hnone, AList.lookup_insert, List.dlookup_cons_eq]
    · simp [List.dlookup_cons_ne l ⟨k, v⟩ ha, AList.lookup_insert_ne ha]

/-- `for k, v := range m { r[k] = f(k, v) }`: every key of `m` reads its own entry's value, the
other keys read what `r` held. -/
theorem lookup_foldl_insert (f : κ → ν → μ) (m : AList fun _ : κ => ν)
    (r : AList fun _ : κ => μ) (a : κ) :
    (m.foldl (fun r k v => r.insert k (f k v)) r).lookup a =
      ((m.lookup a).map (f a)).or (r.lookup a) :=
  dlookup_foldl_insert f a m.entries m.nodupKeys r

end Maps

/-! ## Bit sets -/

/-- A set of indexes kept as bits, with its byte encoding: `NewBits` is empty, `Add` sets a
bit, and decoding the bytes of a set gives back its bits. -/
structure BitSet (B : Type*) where
  NewBits : B
  Add : B → ℕ → B
  Contains : B → ℕ → Bool
  Bytes : B → List UInt8
  BitsFromBytes : List UInt8 → B
  Contains_NewBits : ∀ j, Contains NewBits j = false
  Contains_Add : ∀ b i j, Contains (Add b i) j = (j == i || Contains b j)
  Contains_BitsFromBytes_Bytes : ∀ b j, Contains (BitsFromBytes (Bytes b)) j = Contains b j

namespace BitSet

variable {B α : Type*} (bits : BitSet B)

/-- `for i, x := range l { if !ok(x) { bitset.Add(i) } }`, from `bitset`, with the indexes
counted from `n`. -/
def failedIndexesFrom (ok : α → Bool) (l : List α) (n : ℕ) (bitset : B) : B :=
  (l.zipIdx n).foldl (fun bitset p => if ok p.1 then bitset else bits.Add bitset p.2) bitset

/-- The positions of `l` whose element fails `ok`. -/
def failedIndexes (ok : α → Bool) (l : List α) : B :=
  bits.failedIndexesFrom ok l 0 bits.NewBits

theorem Contains_failedIndexesFrom (ok : α → Bool) (j : ℕ) :
    ∀ (l : List α) (n : ℕ) (bitset : B),
      bits.Contains (bits.failedIndexesFrom ok l n bitset) j =
        (bits.Contains bitset j || (decide (n ≤ j) && l[j - n]?.any fun x => !ok x))
  | [], n, bitset => by simp [failedIndexesFrom]
  | x :: xs, n, bitset => by
    have hstep : bits.failedIndexesFrom ok (x :: xs) n bitset =
        bits.failedIndexesFrom ok xs (n + 1)
          (if ok x then bitset else bits.Add bitset n) := rfl
    rw [hstep, Contains_failedIndexesFrom ok j xs (n + 1)]
    -- the position `j` is either the head's, `n`, or one of the tail's, from `n + 1` on
    rcases Nat.lt_trichotomy j n with hj | rfl | hj
    · have h₁ : ¬ n + 1 ≤ j := by omega
      have h₂ : ¬ n ≤ j := by omega
      have h₃ : (j == n) = false := beq_false_of_ne (Nat.ne_of_lt hj)
      split_ifs <;> simp [bits.Contains_Add, h₁, h₂, h₃]
    · split_ifs with hx <;> simp [bits.Contains_Add, hx]
    · have hsub : j - n = (j - (n + 1)) + 1 := by omega
      have h₁ : n + 1 ≤ j := hj
      have h₂ : n ≤ j := Nat.le_of_lt hj
      have h₃ : (j == n) = false := beq_false_of_ne (Nat.ne_of_gt hj)
      split_ifs <;> simp [bits.Contains_Add, hsub, h₁, h₂, h₃]

/-- The index `j` is marked exactly when `l` has an element there and it fails `ok`. -/
theorem Contains_failedIndexes (ok : α → Bool) (l : List α) (j : ℕ) :
    bits.Contains (bits.failedIndexes ok l) j = l[j]?.any fun x => !ok x := by
  simp [failedIndexes, Contains_failedIndexesFrom, bits.Contains_NewBits]

end BitSet

/-! ## Slices written in place -/

section Set

variable {α : Type*} {l : List α} {i : ℕ} {a b : α}

/-- After `l[i] = b`, where `l[i]` was `a`: an element that satisfied `P` is still there, or it
was `a`. -/
theorem exists_mem_set_or (hi : l[i]? = some a) {P : α → Prop} (h : ∃ c ∈ l, P c) :
    (∃ c ∈ l.set i b, P c) ∨ P a := by
  obtain ⟨c, hc, hP⟩ := h
  obtain ⟨j, hj, rfl⟩ := List.getElem_of_mem hc
  by_cases hji : i = j
  · -- the element written over
    subst hji
    exact .inr (Option.some.inj ((List.getElem?_eq_getElem hj).symm.trans hi) ▸ hP)
  · have hj' : j < (l.set i b).length := by simpa using hj
    exact .inl ⟨l[j], List.getElem_set_ne hji hj' ▸ List.getElem_mem hj', hP⟩

end Set

end Jeth.Collections
