import Jeth.Lib.RWMutex

/-!
# The locks of the atomic mempool

Which locks each exported method of `Mempool` takes, and in which order: the mempool's own
`lock`, a `sync.RWMutex`, and for `Add` also `ctx.Lock`, the snow context's lock, taken first.
Everything a method does between these operations runs without blocking (the discarded-tx
cache has a mutex of its own, taken and released within each of its calls), so a call is the
list of its lock operations, with the deferred releases last in the reverse order of the
`defer`s.

`Has` holds the read lock while it calls `has`, and `has` calls `GetTx`, which takes the read
lock again. With a writer announced in between, the second `RLock` waits for the writer and
the writer for the first `RLock`: the two calls never return.
-/

namespace Jeth

open RWMutex

/-- The locks the mempool's methods take. -/
inductive MempoolLock
  /-- `m.ctx.Lock`. -/
  | ctxLock
  /-- `m.lock`. -/
  | lock
  deriving DecidableEq, Repr

/-- The exported methods of `Mempool`. -/
inductive MempoolMethod
  | add
  | addTx
  | addLocalTx
  | forceAddTx
  | has
  | getTx
  | getPendingTx
  | len
  | iterate
  | getFilter
  | nextTx
  | issueCurrentTxs
  | cancelCurrentTx
  | cancelCurrentTxs
  | discardCurrentTx
  | discardCurrentTxs
  | removeTx
  deriving DecidableEq, Repr

/-- `m.lock.RLock(); defer m.lock.RUnlock()` around a body. -/
def readLocked (body : List (Op MempoolLock)) : List (Op MempoolLock) :=
  .rlock .lock :: body ++ [.runlock .lock]

/-- `m.lock.Lock(); defer m.lock.Unlock()` around a body. -/
def writeLocked (body : List (Op MempoolLock)) : List (Op MempoolLock) :=
  lock .lock ++ body ++ [.unlock .lock]

/-- The lock operations of `GetTx`. -/
def getTxLockOps : List (Op MempoolLock) := readLocked []

/-- The lock operations of a call of each exported method. -/
def MempoolMethod.lockOps : MempoolMethod → List (Op MempoolLock)
  -- `ctx.Lock.RLock()`, then the mempool's lock; the defers release them in reverse
  | .add => .rlock .ctxLock :: writeLocked [] ++ [.runlock .ctxLock]
  -- `Has` calls `has` under the read lock, and `has` calls `GetTx`
  | .has => readLocked getTxLockOps
  | .getTx => getTxLockOps
  | .getPendingTx => readLocked []
  | .len => readLocked []
  | .iterate => readLocked []
  | .getFilter => readLocked []
  | .addTx => writeLocked []
  | .addLocalTx => writeLocked []
  | .forceAddTx => writeLocked []
  | .nextTx => writeLocked []
  | .issueCurrentTxs => writeLocked []
  | .cancelCurrentTx => writeLocked []
  | .cancelCurrentTxs => writeLocked []
  | .discardCurrentTx => writeLocked []
  | .discardCurrentTxs => writeLocked []
  | .removeTx => writeLocked []

/-- `Has` is the one exported method that takes `m.lock` while it holds it; a goroutine calling
`Has` and one calling `AddTx` can reach a state where neither can move. -/
theorem has_deadlocks_with_addTx :
    (∀ meth : MempoolMethod, takesHeldLock meth.lockOps [] = true ↔ meth = .has) ∧
      ∃ schedule s, (Machine.init [MempoolMethod.has.lockOps, MempoolMethod.addTx.lockOps]).run
        schedule = some s ∧ s.Deadlocked := by
  refine ⟨fun meth => by cases meth <;> decide, ?_⟩
  -- `Has` takes the read lock first; `AddTx` then announces itself
  obtain ⟨s, hstep, hdead⟩ := Machine.deadlocked_of_rlock_again
    (Op.exec (fun _ => LockState.free) (.rlock MempoolLock.lock)) MempoolLock.lock
    [.runlock .lock, .runlock .lock] [.unlock .lock] (by simp [Op.exec, LockState.free])
    (by simp [Op.exec, LockState.free])
  have hfirst : (Machine.init [MempoolMethod.has.lockOps, MempoolMethod.addTx.lockOps]).step 0 =
      some ⟨Op.exec (fun _ => LockState.free) (.rlock MempoolLock.lock),
        [[.rlock .lock, .runlock .lock, .runlock .lock], [.announce .lock, .acquire .lock,
          .unlock .lock]]⟩ := rfl
  refine ⟨[0, 1], s, ?_, hdead⟩
  rw [Machine.run_cons_of_step hfirst, Machine.run_cons_of_step hstep]
  rfl

end Jeth
