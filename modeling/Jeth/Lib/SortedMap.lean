import Mathlib

/-!
# Key-sorted association lists

A finite map kept as a list of key/value pairs in increasing key order, the way a trie holds
its leaves and its iterators return them.  `SortedMap.insert` is the trie's `Update`: it puts a
pair in key order and overwrites the value of a key already present.  Sorted lists with
distinct keys represent a key/value set in exactly one way, so a function of the list is a
function of the set.

The lemmas cover what the loops of this development rely on: inserting keys in increasing
order, above every key already present, appends them; and along a sorted list a monotone
measure of the keys (a height prefix) cuts the list into the entries below a bound and those
above it.
-/

namespace Jeth

namespace SortedMap

variable {κ ν : Type} [LT κ] [DecidableRel (α := κ) (· < ·)] [DecidableEq κ]

/-- Keys strictly increasing: the form in which a trie holds its leaves. -/
def Sorted (l : List (κ × ν)) : Prop := l.Pairwise fun a b => a.1 < b.1

instance (l : List (κ × ν)) : Decidable (Sorted l) :=
  inferInstanceAs (Decidable (l.Pairwise _))

/-- Insert `(k, v)` in key order, overwriting the value at `k`. -/
def insert (k : κ) (v : ν) : List (κ × ν) → List (κ × ν)
  | [] => [(k, v)]
  | (k', v') :: rest =>
    if k < k' then (k, v) :: (k', v') :: rest
    else if k = k' then (k, v) :: rest
    else (k', v') :: insert k v rest

/-- Inserting a key above every key present appends it. -/
lemma insert_of_lt_all [Std.Asymm (α := κ) (· < ·)] {k : κ} {v : ν} :
    ∀ {l : List (κ × ν)}, (∀ p ∈ l, p.1 < k) → insert k v l = l ++ [(k, v)]
  | [], _ => rfl
  | (k', v') :: rest, hall => by
    have hlt : k' < k := hall (k', v') List.mem_cons_self
    have hnlt : ¬ k < k' := Std.Asymm.asymm k' k hlt
    have hne : k ≠ k' := fun h => hnlt (h ▸ hlt)
    rw [insert, if_neg hnlt, if_neg hne,
      insert_of_lt_all fun p hp => hall p (List.mem_cons_of_mem _ hp)]
    rfl

/-! ## Measures monotone in the key

A trie whose keys start with a big-endian height is ordered by height first: a monotone measure
of the keys.  Along a sorted list such a measure does not decrease, so the entries of measure
below a bound form a prefix and those above it a suffix. -/

section Monotone

variable {κ ν : Type} [LinearOrder κ] {f : κ → ℕ} (hf : Monotone f)
include hf

/-- Along a sorted list the measure of the keys does not decrease. -/
lemma le_of_mem_cons {x y : κ × ν} {l : List (κ × ν)} (hl : Sorted (x :: l))
    (hy : y ∈ x :: l) : f x.1 ≤ f y.1 := by
  rcases List.mem_cons.1 hy with rfl | hy
  · exact le_rfl
  · exact hf (List.rel_of_pairwise_cons hl hy).le

/-- Dropping the entries of measure below `a` leaves those of measure at least `a`. -/
lemma dropWhile_lt_eq_filter (a : ℕ) :
    ∀ {l : List (κ × ν)}, Sorted l →
      l.dropWhile (fun p => f p.1 < a) = l.filter fun p => a ≤ f p.1
  | [], _ => rfl
  | x :: l, hl => by
    by_cases hx : f x.1 < a
    · rw [List.dropWhile_cons_of_pos (by simpa using hx),
        List.filter_cons_of_neg (by simpa using hx),
        dropWhile_lt_eq_filter a (List.Pairwise.of_cons hl)]
    · -- every entry is at least `x`, so none is dropped and all are kept
      rw [List.dropWhile_cons_of_neg (by simpa using hx), eq_comm, List.filter_eq_self]
      intro y hy
      have := le_of_mem_cons hf hl hy
      simp only [decide_eq_true_eq]
      omega

/-- Taking the entries of measure at most `b` keeps all of them. -/
lemma takeWhile_le_eq_filter (b : ℕ) :
    ∀ {l : List (κ × ν)}, Sorted l →
      l.takeWhile (fun p => f p.1 ≤ b) = l.filter fun p => f p.1 ≤ b
  | [], _ => rfl
  | x :: l, hl => by
    by_cases hx : f x.1 ≤ b
    · rw [List.takeWhile_cons_of_pos (by simpa using hx),
        List.filter_cons_of_pos (by simpa using hx),
        takeWhile_le_eq_filter b (List.Pairwise.of_cons hl)]
    · -- every later entry is above `b` as well
      rw [List.takeWhile_cons_of_neg (by simpa using hx), eq_comm, List.filter_eq_nil_iff]
      intro y hy
      have := le_of_mem_cons hf hl hy
      simp only [decide_eq_true_eq]
      omega

end Monotone

/-! ## Predicates closed downwards

A range of keys from some key on, or up to some key, is closed under going down or up.  Along a
sorted list such a predicate cuts the list into a prefix and a suffix, and the entries in two
ranges one below the other are those of the first range followed by those of the second. -/

section Ranges

variable {κ ν : Type} [Preorder κ]

/-- `takeWhile` of a predicate that holds below every key where it holds keeps all the entries
where it holds. -/
lemma takeWhile_eq_filter_of_lt {p : κ → Bool} (hp : ∀ k k', k < k' → p k' → p k) :
    ∀ {l : List (κ × ν)}, Sorted l → l.takeWhile (fun e => p e.1) = l.filter fun e => p e.1
  | [], _ => rfl
  | x :: l, hl => by
    by_cases hx : p x.1
    · rw [List.takeWhile_cons_of_pos (by simpa using hx),
        List.filter_cons_of_pos (by simpa using hx),
        takeWhile_eq_filter_of_lt hp (List.Pairwise.of_cons hl)]
    · -- no later key satisfies `p`, since `x`'s key would then satisfy it
      rw [List.takeWhile_cons_of_neg (by simpa using hx),
        List.filter_cons_of_neg (by simpa using hx), eq_comm, List.filter_eq_nil_iff]
      exact fun y hy hpy => hx (hp _ _ (List.rel_of_pairwise_cons hl hy) hpy)

/-- `dropWhile` of a predicate that holds below every key where it holds drops exactly the
entries where it holds. -/
lemma dropWhile_eq_filter_of_lt {p : κ → Bool} (hp : ∀ k k', k < k' → p k' → p k) :
    ∀ {l : List (κ × ν)}, Sorted l → l.dropWhile (fun e => p e.1) = l.filter fun e => !p e.1
  | [], _ => rfl
  | x :: l, hl => by
    by_cases hx : p x.1
    · rw [List.dropWhile_cons_of_pos (by simpa using hx),
        List.filter_cons_of_neg (by simpa using hx),
        dropWhile_eq_filter_of_lt hp (List.Pairwise.of_cons hl)]
    · -- every later key fails `p` as well, so nothing is dropped
      have hkeep : l.filter (fun e => !p e.1) = l := by
        rw [List.filter_eq_self]
        intro y hy
        simpa using fun hpy => hx (hp _ _ (List.rel_of_pairwise_cons hl hy) hpy)
      rw [List.dropWhile_cons_of_neg (by simpa using hx),
        List.filter_cons_of_pos (by simpa using hx), hkeep]

/-- The entries of a sorted list in two ranges, the first below the second, are those of the
first range followed by those of the second. -/
lemma filter_or_eq_append {p q : κ → Bool} (hpq : ∀ k k', p k → q k' → k < k') :
    ∀ {l : List (κ × ν)}, Sorted l →
      l.filter (fun e => p e.1 || q e.1) = l.filter (fun e => p e.1) ++ l.filter fun e => q e.1
  | [], _ => rfl
  | x :: l, hl => by
    have ih := filter_or_eq_append hpq (List.Pairwise.of_cons hl)
    by_cases hx : p x.1
    · have hqx : q x.1 = false := by
        by_contra hq
        exact lt_irrefl _ (hpq _ _ hx (by simpa using hq))
      simp [hx, hqx, ih]
    · by_cases hqx : q x.1
      · -- `x` is in the second range, so no later entry is in the first
        have hnil : l.filter (fun e => p e.1) = [] := by
          rw [List.filter_eq_nil_iff]
          exact fun y hy hpy => lt_asymm (List.rel_of_pairwise_cons hl hy) (hpq _ _ hpy hqx)
        simp [hx, hqx, ih, hnil]
      · simp [hx, hqx, ih]

end Ranges

end SortedMap

end Jeth
