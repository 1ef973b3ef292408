import Mathlib

/-!
# Goroutines over reader/writer locks

Goroutines that take and release locks with the semantics of Go's `sync.RWMutex`. Each
goroutine runs a straight-line program of lock operations (what it does between them neither
blocks nor touches a lock), and a step lets one goroutine perform its next operation when the
lock allows it. A machine is stuck when no goroutine can move, and deadlocked when it is stuck
with a goroutine that has not finished: that goroutine's call never returns.

`sync.RWMutex` prefers writers. `Lock` first takes the writer mutex and announces the writer,
then waits until the active readers have left; an `RLock` that comes after the announcement
waits until the writer has released the lock. So `Lock` is two operations here, `announce` and
`acquire`, and a goroutine that takes a read lock it already holds waits for a writer that
itself waits for that goroutine.
-/

namespace Jeth.RWMutex

/-- The state of one lock. -/
structure LockState where
  /-- The goroutines holding the read lock. -/
  readers : ℕ
  /-- A writer has announced itself: it holds the writer mutex, and waits or holds the lock. -/
  writerAnnounced : Bool
  /-- The writer holds the lock. -/
  writerHolds : Bool
  deriving DecidableEq, Repr

/-- A lock nobody holds. -/
def LockState.free : LockState := ⟨0, false, false⟩

/-- An operation on the lock named `l`. -/
inductive Op (L : Type*)
  | rlock (l : L)
  | runlock (l : L)
  /-- The first half of `Lock`. -/
  | announce (l : L)
  /-- The second half of `Lock`. -/
  | acquire (l : L)
  | unlock (l : L)
  deriving DecidableEq, Repr

variable {L : Type*}

/-- `Lock()`. -/
def lock (l : L) : List (Op L) := [.announce l, .acquire l]

variable [DecidableEq L]

namespace Op

/-- Whether the locks let the operation go ahead now. Releasing never waits. -/
def enabled (locks : L → LockState) : Op L → Bool
  | rlock l => !(locks l).writerAnnounced
  | runlock _ => true
  | announce l => !(locks l).writerAnnounced
  | acquire l => (locks l).readers = 0
  | unlock _ => true

/-- The locks after the operation. -/
def exec (locks : L → LockState) : Op L → L → LockState
  | rlock l => Function.update locks l { locks l with readers := (locks l).readers + 1 }
  | runlock l => Function.update locks l { locks l with readers := (locks l).readers - 1 }
  | announce l => Function.update locks l { locks l with writerAnnounced := true }
  | acquire l => Function.update locks l { locks l with writerHolds := true }
  | unlock l =>
    Function.update locks l { locks l with writerAnnounced := false, writerHolds := false }

end Op

/-- Whether a goroutine running `ops` takes a lock, to read or to write, while it holds that
lock already; `held` lists the locks it holds, once per hold. -/
def takesHeldLock : List (Op L) → List L → Bool
  | [], _ => false
  | .rlock l :: ops, held => l ∈ held || takesHeldLock ops (l :: held)
  | .announce l :: ops, held => l ∈ held || takesHeldLock ops (l :: held)
  | .acquire _ :: ops, held => takesHeldLock ops held
  | .runlock l :: ops, held => takesHeldLock ops (held.erase l)
  | .unlock l :: ops, held => takesHeldLock ops (held.erase l)

/-- The locks, and the operations each goroutine has still to perform. -/
structure Machine (L : Type*) where
  locks : L → LockState
  goroutines : List (List (Op L))

namespace Machine

/-- Goroutines that start with the given programs, all locks free. -/
def init (programs : List (List (Op L))) : Machine L := ⟨fun _ => LockState.free, programs⟩

/-- Goroutine `g` performs its next operation, if it has one and the locks allow it. -/
def step (s : Machine L) (g : ℕ) : Option (Machine L) :=
  match s.goroutines[g]? with
  | some (op :: rest) =>
    if op.enabled s.locks then some ⟨op.exec s.locks, s.goroutines.set g rest⟩ else none
  | _ => none

/-- The machine after the goroutines of a schedule have moved in turn, if each could. -/
def run (s : Machine L) : List ℕ → Option (Machine L)
  | [] => some s
  | g :: gs => (s.step g).bind fun s' => s'.run gs

/-- No goroutine can move. -/
def Stuck (s : Machine L) : Prop := ∀ g < s.goroutines.length, (s.step g).isNone = true

/-- No goroutine can move, and one has not finished. -/
def Deadlocked (s : Machine L) : Prop := (∃ p ∈ s.goroutines, p ≠ []) ∧ s.Stuck

instance (s : Machine L) : Decidable s.Stuck := inferInstanceAs (Decidable (∀ g < _, _))

instance (s : Machine L) : Decidable s.Deadlocked := inferInstanceAs (Decidable (_ ∧ _))

theorem run_cons_of_step {s s' : Machine L} {g : ℕ} (h : s.step g = some s') (gs : List ℕ) :
    s.run (g :: gs) = s'.run gs := by
  simp [run, h]

/-- A goroutine whose next operation is a read lock cannot move while a writer is announced. -/
theorem step_rlock_of_writerAnnounced {s : Machine L} {g : ℕ} {l : L} {rest : List (Op L)}
    (hg : s.goroutines[g]? = some (.rlock l :: rest)) (hw : (s.locks l).writerAnnounced = true) :
    s.step g = none := by
  simp [step, hg, Op.enabled, hw]

/-- A writer cannot take the lock while a reader holds it. -/
theorem step_acquire_of_readers {s : Machine L} {g : ℕ} {l : L} {rest : List (Op L)}
    (hg : s.goroutines[g]? = some (.acquire l :: rest)) (hr : 0 < (s.locks l).readers) :
    s.step g = none := by
  simp [step, hg, Op.enabled, Nat.pos_iff_ne_zero.mp hr]

/-- A goroutine that holds a read lock and is about to take it again, and a writer about to
lock it: once the writer has announced itself, neither can move. -/
theorem deadlocked_of_rlock_again (locks : L → LockState) (l : L) (rest rest' : List (Op L))
    (hreaders : 0 < (locks l).readers) (hfree : (locks l).writerAnnounced = false) :
    ∃ s, (⟨locks, [.rlock l :: rest, .announce l :: .acquire l :: rest']⟩ : Machine L).step 1 =
      some s ∧ s.Deadlocked := by
  refine ⟨⟨(Op.announce l).exec locks, [.rlock l :: rest, .acquire l :: rest']⟩,
    by simp [step, Op.enabled, hfree], ?_, ?_⟩
  · exact ⟨_, List.mem_cons_self, List.cons_ne_nil _ _⟩
  · -- the reader waits for the announced writer, the writer for the reader
    intro g hg
    have hg' : g = 0 ∨ g = 1 := by simp at hg; omega
    rw [Option.isNone_iff_eq_none]
    rcases hg' with rfl | rfl
    · exact step_rlock_of_writerAnnounced rfl (by simp [Op.exec])
    · exact step_acquire_of_readers rfl (by simpa [Op.exec] using hreaders)

end Machine

end Jeth.RWMutex
