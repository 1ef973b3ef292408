import Mathlib

/-!
# Fan-in over an unbuffered channel

A common Go pattern: one goroutine per task computes a message and sends it on a shared
unbuffered channel. A collector runs a counted loop that receives one message per iteration,
folds it into its state, and may leave the loop early. On an unbuffered channel a send
completes only when a receive takes its value, so the send and the receive are one step here,
`deliver`. A worker is `working` until its message is computed, then blocked at the send until
it is delivered, then `exited`. The exited worker keeps its message, so that a state records
what the collector received.

The results:
- `Received` says what every reachable state is. There is a log of the delivered messages, in
  order and at most one per worker. The log names exactly the exited workers, and the
  collector's state is the fold of its loop body over the log (`received_reachable`).
- Once the collector has left its loop, nothing receives again. The exited workers stay exactly
  the ones that had exited (`exited_run_of_done`), and a worker blocked at its send stays
  blocked (`step_deliver_of_done`): a collector that leaves early leaks every worker it has not
  heard from.
-/

namespace Jeth.FanIn

/-- A worker goroutine. -/
inductive Worker (M : Type*)
  /-- Computing its message. -/
  | working
  /-- Blocked on the send of `m`. -/
  | sending (m : M)
  /-- Returned after `m` was received. -/
  | exited (m : M)
  deriving DecidableEq

/-- Whether the worker has returned. -/
def Worker.isExited {M : Type*} : Worker M → Bool
  | .exited _ => true
  | _ => false

theorem Worker.isExited_iff {M : Type*} {x : Worker M} : x.isExited = true ↔ ∃ m, x = .exited m := by
  cases x <;> simp [Worker.isExited]

/-- The collector. -/
inductive Collector (C : Type*)
  /-- In its receive loop, at iteration `i`, with state `c`. -/
  | receiving (i : ℕ) (c : C)
  /-- Out of its loop with state `c`; `broke` when it left by `break`. -/
  | done (c : C) (broke : Bool)
  deriving DecidableEq

/-- The goroutines of a fan-in. -/
structure Sys (W M C : Type*) where
  workers : W → Worker M
  collector : Collector C

/-- One step of one goroutine. -/
inductive Event (W M : Type*)
  /-- Worker `w` has computed `m`. -/
  | compute (w : W) (m : M)
  /-- The collector receives the message worker `w` is sending. -/
  | deliver (w : W)
  /-- The loop condition fails and the collector leaves its loop. -/
  | leave

variable {W M C : Type*}

/-- The collector after one iteration of its loop body, which returned `c` and whether to
break. -/
def next (i : ℕ) : C × Bool → Collector C
  | (c, true) => .done c true
  | (c, false) => .receiving (i + 1) c

section Step

variable [DecidableEq W] (n : ℕ) (allowed : W → M → Bool) (body : C → M → C × Bool)

/-- The fan-in with `n` loop iterations, the messages `allowed` each worker, and the loop
`body`, after one event, if the event can happen. -/
def step (s : Sys W M C) : Event W M → Option (Sys W M C)
  | .compute w m =>
    match s.workers w with
    | .working =>
      if allowed w m then some { s with workers := Function.update s.workers w (.sending m) }
      else none
    | _ => none
  | .deliver w =>
    match s.workers w, s.collector with
    | .sending m, .receiving i c =>
      if i < n then some ⟨Function.update s.workers w (.exited m), next i (body c m)⟩ else none
    | _, _ => none
  | .leave =>
    match s.collector with
    | .receiving i c => if i < n then none else some { s with collector := .done c false }
    | .done _ _ => none

/-- The fan-in after the events of a schedule, in turn, if each could happen. -/
def run (s : Sys W M C) : List (Event W M) → Option (Sys W M C)
  | [] => some s
  | e :: es => (step n allowed body s e).bind fun s' => run s' es

/-- Every worker working, the collector at its first iteration with state `c₀`. -/
def init (c₀ : C) : Sys W M C := ⟨fun _ => .working, .receiving 0 c₀⟩

theorem run_cons_of_step {s s' : Sys W M C} {e : Event W M} (h : step n allowed body s e = some s')
    (es : List (Event W M)) : run n allowed body s (e :: es) = run n allowed body s' es := by
  simp [run, h]

/-- What one event can do. -/
theorem step_cases {s s' : Sys W M C} {e : Event W M} (h : step n allowed body s e = some s') :
    (∃ w m, s.workers w = .working ∧ allowed w m = true ∧
      s' = { s with workers := Function.update s.workers w (.sending m) }) ∨
    (∃ w m i c, s.workers w = .sending m ∧ s.collector = .receiving i c ∧ i < n ∧
      s' = ⟨Function.update s.workers w (.exited m), next i (body c m)⟩) ∨
    (∃ i c, s.collector = .receiving i c ∧ n ≤ i ∧ s' = { s with collector := .done c false }) := by
  cases e with
  | compute w m =>
    simp only [step] at h
    split at h <;> [skip; cases h]
    split_ifs at h with hm
    cases h
    exact .inl ⟨w, m, ‹_›, hm, rfl⟩
  | deliver w =>
    simp only [step] at h
    split at h <;> [skip; cases h]
    split_ifs at h with hi
    cases h
    exact .inr (.inl ⟨w, _, _, _, ‹_›, ‹_›, hi, rfl⟩)
  | leave =>
    simp only [step] at h
    split at h <;> [skip; cases h]
    split_ifs at h with hi
    cases h
    exact .inr (.inr ⟨_, _, ‹_›, Nat.le_of_not_lt hi, rfl⟩)

/-- Nothing is received once the collector has left its loop. -/
theorem step_deliver_of_done {s : Sys W M C} {c : C} {broke : Bool}
    (hc : s.collector = .done c broke) (w : W) : step n allowed body s (.deliver w) = none := by
  simp only [step, hc]
  split <;> simp_all

/-- Once the collector has left its loop, a step changes only a working worker, into a sending
one. -/
theorem step_of_done {s s' : Sys W M C} {e : Event W M} {c : C} {broke : Bool}
    (hc : s.collector = .done c broke) (h : step n allowed body s e = some s') :
    s'.collector = s.collector ∧
      ∀ w, s'.workers w = s.workers w ∨ (s.workers w = .working ∧ ∃ m, s'.workers w = .sending m) := by
  rcases step_cases n allowed body h with ⟨w, m, hw, -, rfl⟩ | ⟨w, m, i, c', -, hr, -, -⟩ |
    ⟨i, c', hr, -, -⟩
  · refine ⟨rfl, fun w' => ?_⟩
    by_cases hw' : w' = w
    · subst hw'
      exact .inr ⟨hw, m, by simp⟩
    · exact .inl (by simp [hw'])
  · rw [hc] at hr
    cases hr
  · rw [hc] at hr
    cases hr

/-- Once the collector has left its loop, the exited workers stay exactly those that had
exited, over every run. -/
theorem exited_run_of_done {s s' : Sys W M C} {c : C} {broke : Bool}
    (hc : s.collector = .done c broke) {es : List (Event W M)}
    (h : run n allowed body s es = some s') :
    s'.collector = s.collector ∧ ∀ w m, s'.workers w = .exited m ↔ s.workers w = .exited m := by
  induction es generalizing s with
  | nil =>
    cases h
    exact ⟨rfl, fun _ _ => Iff.rfl⟩
  | cons e es ih =>
    simp only [run] at h
    obtain ⟨s₁, h₁, h⟩ := Option.bind_eq_some_iff.mp h
    obtain ⟨hc₁, hw₁⟩ := step_of_done n allowed body hc h₁
    obtain ⟨hc', hw'⟩ := ih (hc₁.trans hc) h
    refine ⟨hc'.trans hc₁, fun w m => (hw' w m).trans ?_⟩
    -- a worker that moved was working and is now sending: exited in neither state
    rcases hw₁ w with heq | ⟨hwork, m', hsend⟩
    · rw [heq]
    · rw [hwork, hsend]
      simp

end Step

/-! ## What a reachable state is -/

/-- The loop body folded over the messages `ms`, from `c`, its break flags ignored. -/
def collect (body : C → M → C × Bool) (c : C) (ms : List M) : C :=
  ms.foldl (fun c m => (body c m).1) c

@[simp] theorem collect_nil (body : C → M → C × Bool) (c : C) : collect body c [] = c := rfl

theorem collect_cons (body : C → M → C × Bool) (c : C) (m : M) (ms : List M) :
    collect body c (m :: ms) = collect body (body c m).1 ms := rfl

theorem collect_append_singleton (body : C → M → C × Bool) (c : C) (ms : List M) (m : M) :
    collect body c (ms ++ [m]) = (body (collect body c ms) m).1 := by
  simp [collect, List.foldl_append]

section Received

variable (n : ℕ) (allowed : W → M → Bool) (body : C → M → C × Bool) (c₀ : C)

/-- The collector, from `c₀`, has received the messages of `L` in order. -/
def Agrees (L : List (W × M)) : Collector C → Prop
  | .receiving i c => i = L.length ∧ L.length ≤ n ∧ c = collect body c₀ (L.map Prod.snd)
  | .done c true => c = collect body c₀ (L.map Prod.snd) ∧
      ∃ L' p, L = L' ++ [p] ∧ L'.length < n ∧ (body (collect body c₀ (L'.map Prod.snd)) p.2).2 = true
  | .done c false => c = collect body c₀ (L.map Prod.snd) ∧ L.length = n

/-- `L` is the log of the messages received in `s`: in order, at most one per worker, exactly
the messages of the exited workers, and folded into the collector's state. Every message sent
or received is allowed. -/
structure Received (s : Sys W M C) (L : List (W × M)) : Prop where
  nodup : (L.map Prod.fst).Nodup
  exited_iff : ∀ w m, s.workers w = .exited m ↔ (w, m) ∈ L
  allowed_sending : ∀ w m, s.workers w = .sending m → allowed w m = true
  allowed_log : ∀ p ∈ L, allowed p.1 p.2 = true
  agrees : Agrees n body c₀ L s.collector

theorem received_init : Received n allowed body c₀ (init c₀ : Sys W M C) [] where
  nodup := List.nodup_nil
  exited_iff _ _ := by simp [init]
  allowed_sending _ _ h := by cases h
  allowed_log _ h := by cases h
  agrees := ⟨rfl, Nat.zero_le n, rfl⟩

/-- A worker's own message is the only one the log has for it. -/
theorem Received.not_mem_of_not_exited {s : Sys W M C} {L : List (W × M)}
    (hL : Received n allowed body c₀ s L) {w : W} (hw : ∀ m, s.workers w ≠ .exited m) :
    w ∉ L.map Prod.fst := by
  intro hmem
  obtain ⟨⟨w', m⟩, hp, rfl⟩ := List.mem_map.mp hmem
  exact hw m ((hL.exited_iff w' m).mpr hp)

/-- The next state of the collector agrees with the log that has one more message. -/
theorem agrees_next {L : List (W × M)} {i : ℕ} {c : C} (p : W × M)
    (hL : Agrees n body c₀ L (.receiving i c)) (hi : i < n) :
    Agrees n body c₀ (L ++ [p]) (next i (body c p.2)) := by
  obtain ⟨rfl, -, rfl⟩ := hL
  have hcollect : collect body c₀ ((L ++ [p]).map Prod.snd) =
      (body (collect body c₀ (L.map Prod.snd)) p.2).1 := by
    rw [List.map_append, List.map_singleton, collect_append_singleton]
  cases hbody : body (collect body c₀ (L.map Prod.snd)) p.2 with
  | mk c' broke =>
    rw [hbody] at hcollect
    cases broke with
    | false => exact ⟨by simp, by simp; omega, hcollect.symm⟩
    | true => exact ⟨hcollect.symm, L, p, rfl, hi, by rw [hbody]⟩

variable [DecidableEq W]

/-- One event keeps a log of what was received: the same log, or, when a message is delivered,
the log with that message at its end. -/
theorem Received.step {s s' : Sys W M C} {e : Event W M} {L : List (W × M)}
    (hL : Received n allowed body c₀ s L) (h : step n allowed body s e = some s') :
    ∃ L', Received n allowed body c₀ s' L' := by
  rcases step_cases n allowed body h with ⟨w, m, hw, hm, rfl⟩ | ⟨w, m, i, c, hw, hc, hi, rfl⟩ |
    ⟨i, c, hc, hi, rfl⟩
  · -- a worker computes: it was not exited and is not now
    refine ⟨L, hL.nodup, fun w' m' => ?_, fun w' m' h' => ?_, hL.allowed_log, hL.agrees⟩
    · by_cases hw' : w' = w
      · subst hw'
        simp only [Function.update_self, reduceCtorEq, false_iff]
        intro hmem
        rw [(hL.exited_iff w' m').mpr hmem] at hw
        cases hw
      · simpa [hw'] using hL.exited_iff w' m'
    · by_cases hw' : w' = w
      · subst hw'
        simp only [Function.update_self, Worker.sending.injEq] at h'
        subst h'
        exact hm
      · exact hL.allowed_sending w' m' (by simpa [hw'] using h')
  · -- a message is delivered: it goes at the end of the log
    have hnot : w ∉ L.map Prod.fst :=
      hL.not_mem_of_not_exited n allowed body c₀ (fun m' h' => by rw [hw] at h'; cases h')
    have hagrees : Agrees n body c₀ L (.receiving i c) := by
      have := hL.agrees
      rwa [hc] at this
    refine ⟨L ++ [(w, m)], ?_, fun w' m' => ?_, fun w' m' h' => ?_, ?_,
      agrees_next n body c₀ (w, m) hagrees hi⟩
    · simpa [List.nodup_append] using
        ⟨hL.nodup, fun a x hx hax => hnot (hax ▸ List.mem_map.mpr ⟨(a, x), hx, rfl⟩)⟩
    · by_cases hw' : w' = w
      · subst hw'
        simp only [Function.update_self, Worker.exited.injEq, List.mem_append, List.mem_singleton,
          Prod.mk.injEq, true_and]
        constructor
        · exact fun h => .inr h.symm
        · rintro (hmem | rfl)
          · exact absurd (List.mem_map.mpr ⟨(w', m'), hmem, rfl⟩) hnot
          · rfl
      · simpa [hw'] using hL.exited_iff w' m'
    · by_cases hw' : w' = w
      · subst hw'
        simp at h'
      · exact hL.allowed_sending w' m' (by simpa [hw'] using h')
    · intro p hp
      rcases List.mem_append.mp hp with hp | hp
      · exact hL.allowed_log p hp
      · rw [List.mem_singleton.mp hp]
        exact hL.allowed_sending w m hw
  · -- the loop condition fails: every iteration has received a message
    have hagrees : Agrees n body c₀ L (.receiving i c) := by
      have := hL.agrees
      rwa [hc] at this
    obtain ⟨rfl, hlen, rfl⟩ := hagrees
    exact ⟨L, hL.nodup, hL.exited_iff, hL.allowed_sending, hL.allowed_log, rfl, by omega⟩

/-- A log of what was received is kept over every run. -/
theorem Received.run {s₀ s : Sys W M C} {L₀ : List (W × M)}
    (hL : Received n allowed body c₀ s₀ L₀) {es : List (Event W M)}
    (h : run n allowed body s₀ es = some s) : ∃ L, Received n allowed body c₀ s L := by
  induction es generalizing s₀ L₀ with
  | nil =>
    cases h
    exact ⟨L₀, hL⟩
  | cons e es ih =>
    simp only [FanIn.run] at h
    obtain ⟨s₁, h₁, h⟩ := Option.bind_eq_some_iff.mp h
    obtain ⟨L₁, hL₁⟩ := hL.step n allowed body c₀ h₁
    exact ih hL₁ h

/-- Every state a run reaches from `init c₀` has a log of what was received. -/
theorem received_reachable {es : List (Event W M)} {s : Sys W M C}
    (h : run n allowed body (init c₀) es = some s) : ∃ L, Received n allowed body c₀ s L :=
  (received_init n allowed body c₀).run n allowed body c₀ h

/-- The log is as long as the number of exited workers. -/
theorem Received.card_exited [Fintype W] {s : Sys W M C} {L : List (W × M)}
    (hL : Received n allowed body c₀ s L) :
    (Finset.univ.filter fun w => (s.workers w).isExited).card = L.length := by
  have hset : (Finset.univ.filter fun w => (s.workers w).isExited) = (L.map Prod.fst).toFinset := by
    ext w
    simp only [Finset.mem_filter, Finset.mem_univ, true_and, Worker.isExited_iff,
      List.mem_toFinset, List.mem_map, Prod.exists, exists_and_right, exists_eq_right]
    exact exists_congr fun m => hL.exited_iff w m
  rw [hset, List.toFinset_card_of_nodup hL.nodup, List.length_map]

end Received

end Jeth.FanIn
