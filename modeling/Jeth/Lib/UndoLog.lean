import Mathlib

/-!
# Undo logs

A store that can be rolled back keeps a log of undo records beside its contents. Each change
appends the records that take it back. A rollback to a mark applies the records after the mark,
the last one first, and cuts the log at the mark. `revertAll` applies a list of records in that
order.

A rollback is right "up to" a relation `R` between states: one that no read of the store can
tell apart. This is what a cache needs, which reloads an entry after it is dropped, or a record
that writes back an old value instead of deleting the key. `Undoable s es t` says that `t` was
reached from `s` by changes that appended the records `es`, and that reverting them returns to
`s` up to `R`. It also says that every partial rollback of `es` lands in a state satisfying `P`,
the invariant the changes themselves rely on. Such logs are closed under a change with its own
records (`Undoable.append`) and under a rollback to any mark inside the log (`Undoable.take`).
A whole run of changes and rollbacks therefore ends in an undoable state, whatever its nesting.
-/

namespace Jeth.UndoLog

variable {σ ε : Type*} (undo : ε → σ → σ)

/-- Apply the undo records `es` to `s`, the last one first. -/
def revertAll (es : List ε) (s : σ) : σ :=
  es.foldr undo s

@[simp] theorem revertAll_nil (s : σ) : revertAll undo [] s = s := rfl

@[simp] theorem revertAll_cons (e : ε) (es : List ε) (s : σ) :
    revertAll undo (e :: es) s = undo e (revertAll undo es s) := rfl

theorem revertAll_append (es₁ es₂ : List ε) (s : σ) :
    revertAll undo (es₁ ++ es₂) s = revertAll undo es₁ (revertAll undo es₂ s) :=
  List.foldr_append

theorem revertAll_singleton (e : ε) (s : σ) : revertAll undo [e] s = undo e s := rfl

theorem revertAll_take_drop (es : List ε) (k : ℕ) (s : σ) :
    revertAll undo (es.take k) (revertAll undo (es.drop k) s) = revertAll undo es s := by
  rw [← revertAll_append, List.take_append_drop]

/-- Rolling back to the mark `k` and then further to the mark `j` is rolling back to the lower
of the two. -/
theorem revertAll_drop_take (es : List ε) (j k : ℕ) (s : σ) :
    revertAll undo ((es.take k).drop j) (revertAll undo (es.drop k) s) =
      revertAll undo (es.drop (min j k)) s := by
  rw [← revertAll_append]
  congr 1
  rcases Nat.le_total j k with hjk | hkj
  · -- the records between the two marks, then those after the later one
    have hdrop : es.drop k = (es.drop j).drop (k - j) := by
      rw [List.drop_drop, Nat.add_sub_cancel' hjk]
    rw [Nat.min_eq_left hjk, List.drop_take, hdrop, List.take_append_drop]
  · rw [Nat.min_eq_right hkj, List.drop_eq_nil_of_le (by rw [List.length_take]; omega),
      List.nil_append]

section Undoable

variable (R : σ → σ → Prop) (P : σ → Prop)

/-- `t` was reached from `s` by changes whose undo records are `es`: reverting all of them
returns to `s` up to `R`, and reverting any suffix of them gives a state satisfying `P`. -/
structure Undoable (s : σ) (es : List ε) (t : σ) : Prop where
  revert_all : R (revertAll undo es t) s
  revert_drop : ∀ k, P (revertAll undo (es.drop k) t)

variable {undo R P}

/-- `P` holds at the end of an undoable run: it is the rollback of no record. -/
theorem Undoable.inv {s t : σ} {es : List ε} (h : Undoable undo R P s es t) : P t := by
  simpa [List.drop_length] using h.revert_drop es.length

section Laws

variable (hR : Equivalence R)
  (hcongr : ∀ e {t t'}, R t t' → R (undo e t) (undo e t'))
  (hP : ∀ {t t'}, R t t' → P t → P t')

include hcongr in
/-- A fixed list of records maps `R`-related states to `R`-related states. -/
theorem revertAll_congr (es : List ε) {t t' : σ} (h : R t t') :
    R (revertAll undo es t) (revertAll undo es t') := by
  induction es with
  | nil => exact h
  | cons e es ih => exact hcongr e ih

include hR in
theorem Undoable.nil {s : σ} (hs : P s) : Undoable undo R P s [] s :=
  ⟨hR.refl s, fun _ => by simpa using hs⟩

include hR hcongr hP

/-- A change from `t` to `t'` that appends the records `es'` and is undone by them keeps the run
undoable. -/
theorem Undoable.append {s t t' : σ} {es es' : List ε} (h : Undoable undo R P s es t)
    (hstep : R (revertAll undo es' t') t) (hstepP : ∀ k, P (revertAll undo (es'.drop k) t')) :
    Undoable undo R P s (es ++ es') t' := by
  constructor
  · rw [revertAll_append]
    exact hR.trans (revertAll_congr hcongr es hstep) h.revert_all
  · intro k
    rcases Nat.le_total k es.length with hk | hk
    · -- the rollback stops inside the earlier records: `es'` is undone in full first
      rw [List.drop_append_of_le_length hk, revertAll_append]
      exact hP (hR.symm (revertAll_congr hcongr _ hstep)) (h.revert_drop k)
    · rw [List.drop_append, List.drop_eq_nil_of_le hk, List.nil_append]
      exact hstepP _

/-- A change with a single record. -/
theorem Undoable.snoc {s t t' : σ} {es : List ε} {e : ε} (h : Undoable undo R P s es t)
    (hstep : R (undo e t') t) (hstepP : P t') : Undoable undo R P s (es ++ [e]) t' := by
  refine h.append hR hcongr hP hstep fun k => ?_
  rcases k with _ | k
  · exact hP (hR.symm hstep) h.inv
  · simpa using hstepP

/-- A change that appends no record and is invisible to `R`. -/
theorem Undoable.of_equiv {s t t' : σ} {es : List ε} (h : Undoable undo R P s es t)
    (hstep : R t' t) : Undoable undo R P s es t' := by
  have hstep' : R (revertAll undo [] t') t := hstep
  simpa using h.append hR hcongr hP hstep' fun _ => by simpa using hP (hR.symm hstep) h.inv

omit hR hcongr hP in
/-- Rolling back to the mark `k` of the log keeps the run undoable with the records before it. -/
theorem Undoable.take {s t : σ} {es : List ε} (h : Undoable undo R P s es t) (k : ℕ) :
    Undoable undo R P s (es.take k) (revertAll undo (es.drop k) t) := by
  constructor
  · rw [revertAll_take_drop]
    exact h.revert_all
  · intro j
    rw [revertAll_drop_take]
    exact h.revert_drop _

end Laws

end Undoable

end Jeth.UndoLog
