import Jeth.Lib.FanIn
import Mathlib

/-!
# Warp signature aggregation

`Aggregator.AggregateSignatures` starts one goroutine per validator. Each goroutine fetches the
validator's signature of the message, checks it with `bls.Verify`, and sends on an unbuffered
channel either the signature with the validator's index and weight, or nil. The caller's loop
receives once per validator, adds each signature's weight, and breaks out as soon as
`avalancheWarp.VerifyWeight` accepts the weight gathered. It then cancels the fetches and
returns the aggregate of the signatures received.

This is the fan-in of `Jeth.FanIn`, with one worker per validator and the receive loop as its
collector. `GetSignature` is not modelled beyond what the loop sees: a goroutine may send nil at
any time (a failed or cancelled fetch), or any signature that verifies. `bls.Verify`,
`VerifyWeight` and `bls.AggregateSignatures` are parameters.

`AggregateSignatures_sound_but_leaks` is what every run gives once the function has returned.
A result is sound: its signers are exactly the validators whose verified signature was
received, its weight is their total weight, `VerifyWeight` accepts that weight, and its
signature is the aggregate of their signatures in the order received. But nothing receives
after the loop, so every goroutine that had not been received from stays blocked on its send
and never returns.
-/

namespace Jeth.Aggregator

open FanIn

/-- `avalancheWarp.Validator`: the fields the aggregator reads. -/
structure Validator (PK : Type) where
  PublicKey : PK
  Weight : ℕ

/-- `signatureFetchResult`. -/
structure signatureFetchResult (Sig : Type) where
  sig : Sig
  index : ℕ
  weight : ℕ
  deriving DecidableEq

/-- `warp.WarpQuorumDenominator`. -/
def WarpQuorumDenominator : ℕ := 100

/-- The variables of the receive loop: `signatures`, `signersBitset` and `signaturesWeight`. -/
structure LoopState (Sig : Type) where
  signatures : List Sig
  signersBitset : Finset ℕ
  signaturesWeight : ℕ

/-- The loop variables before the first iteration. -/
def LoopState.empty {Sig : Type} : LoopState Sig := ⟨[], ∅, 0⟩

variable {PK Sig : Type}

/-- One iteration of the receive loop: a nil result is skipped; a signature is appended, its
index set in the bitset and its weight added in `uint64`, and the loop breaks when
`VerifyWeight(signaturesWeight, totalWeight, quorumNum, WarpQuorumDenominator)` returns nil. -/
def receiveResult (VerifyWeight : ℕ → ℕ → ℕ → ℕ → Bool) (totalWeight quorumNum : ℕ)
    (st : LoopState Sig) : Option (signatureFetchResult Sig) → LoopState Sig × Bool
  | none => (st, false)
  | some r =>
    let st' : LoopState Sig := ⟨st.signatures ++ [r.sig], insert r.index st.signersBitset,
      (st.signaturesWeight + r.weight) % 2 ^ 64⟩
    (st', VerifyWeight st'.signaturesWeight totalWeight quorumNum WarpQuorumDenominator)

/-- What the goroutine of validator `i` can send: nil, after `GetSignature` failed or the
signature did not verify, or a signature that `bls.Verify` accepts for the validator's key,
with the validator's index and weight. -/
def fetchResult (Verify : PK → Sig → Bool) (validators : List (Validator PK))
    (i : Fin validators.length) : Option (signatureFetchResult Sig) → Bool
  | none => true
  | some r =>
    decide (r.index = i) && decide (r.weight = validators[i].Weight) &&
      Verify validators[i].PublicKey r.sig

/-- The errors of `AggregateSignatures`. -/
inductive AggregateError
  /-- `avalancheWarp.ErrInsufficientWeight`. -/
  | ErrInsufficientWeight
  /-- `failed to aggregate BLS signatures: %w`. -/
  | failedToAggregate (err : String)

/-- `AggregateSignatureResult`, with the parts of its message that the aggregator builds: the
signers bitset and the aggregate signature. -/
structure AggregateSignatureResult (Sig : Type) where
  SignatureWeight : ℕ
  TotalWeight : ℕ
  Signers : Finset ℕ
  Signature : Sig

/-- What `AggregateSignatures` returns once its receive loop is over, with `aggregate` for
`bls.AggregateSignatures`; nothing while the loop runs. -/
def returned (aggregate : List Sig → Except String Sig) (totalWeight : ℕ) :
    Collector (LoopState Sig) → Option (Except AggregateError (AggregateSignatureResult Sig))
  | .receiving _ _ => none
  | .done st signaturesPassedThreshold =>
    if !signaturesPassedThreshold then some (.error .ErrInsufficientWeight)
    else
      some <| match aggregate st.signatures with
        | .error err => .error (.failedToAggregate err)
        | .ok aggregateSignature =>
          .ok ⟨st.signaturesWeight, totalWeight, st.signersBitset, aggregateSignature⟩

/-- The goroutines of `AggregateSignatures` after the events `es`, from the start. -/
def aggregateRun (Verify : PK → Sig → Bool) (VerifyWeight : ℕ → ℕ → ℕ → ℕ → Bool)
    (validators : List (Validator PK)) (totalWeight quorumNum : ℕ)
    (es : List (Event (Fin validators.length) (Option (signatureFetchResult Sig)))) :
    Option (Sys (Fin validators.length) (Option (signatureFetchResult Sig)) (LoopState Sig)) :=
  run validators.length (fetchResult Verify validators)
    (receiveResult VerifyWeight totalWeight quorumNum) (init LoopState.empty) es

/-! ## The loop over what it received -/

/-- The signatures among the results received, with the goroutine that sent each. -/
def verified {ι : Type} (L : List (ι × Option (signatureFetchResult Sig))) :
    List (ι × signatureFetchResult Sig) :=
  L.filterMap fun p => p.2.map fun r => (p.1, r)

@[simp] theorem verified_nil {ι : Type} : verified ([] : List (ι × Option (signatureFetchResult Sig))) = [] :=
  rfl

theorem verified_cons {ι : Type} (p : ι × Option (signatureFetchResult Sig))
    (L : List (ι × Option (signatureFetchResult Sig))) :
    verified (p :: L) = (p.2.map fun r => (p.1, r)).toList ++ verified L := by
  rcases p with ⟨i, _ | r⟩ <;> rfl

theorem mem_verified {ι : Type} {L : List (ι × Option (signatureFetchResult Sig))} {i : ι}
    {r : signatureFetchResult Sig} : (i, r) ∈ verified L ↔ (i, some r) ∈ L := by
  simp [verified]

theorem map_fst_verified_sublist {ι : Type} (L : List (ι × Option (signatureFetchResult Sig))) :
    ((verified L).map Prod.fst).Sublist (L.map Prod.fst) := by
  induction L with
  | nil => simp
  | cons p L ih =>
    rcases p with ⟨i, _ | r⟩
    · exact ih.cons i
    · exact ih.cons_cons i

section Loop

variable (VerifyWeight : ℕ → ℕ → ℕ → ℕ → Bool) (totalWeight quorumNum : ℕ)

/-- The loop variables after the results `ms`: the signatures among them appended in order,
their indices set, and their weights added modulo `2^64`. -/
theorem collect_receiveResult (st : LoopState Sig) (hst : st.signaturesWeight < 2 ^ 64)
    (ms : List (Option (signatureFetchResult Sig))) :
    collect (receiveResult VerifyWeight totalWeight quorumNum) st ms =
      ⟨st.signatures ++ ms.filterMap (Option.map signatureFetchResult.sig),
        st.signersBitset ∪ (ms.filterMap (Option.map signatureFetchResult.index)).toFinset,
        (st.signaturesWeight + (ms.filterMap (Option.map signatureFetchResult.weight)).sum) %
          2 ^ 64⟩ := by
  induction ms generalizing st with
  | nil =>
    simp only [collect_nil, List.filterMap_nil, List.append_nil, List.toFinset_nil,
      Finset.union_empty, List.sum_nil, Nat.add_zero, Nat.mod_eq_of_lt hst]
  | cons m ms ih =>
    rw [collect_cons]
    cases m with
    | none =>
      simp only [receiveResult, List.filterMap_cons, Option.map_none]
      exact ih st hst
    | some r =>
      rw [ih _ (Nat.mod_lt _ (Nat.two_pow_pos 64))]
      simp only [receiveResult, List.filterMap_cons, Option.map_some, List.append_assoc,
        List.singleton_append, List.toFinset_cons, Finset.insert_union, Finset.union_insert,
        List.sum_cons, Nat.mod_add_mod, Nat.add_assoc]

theorem filterMap_map_snd {ι α : Type} (f : signatureFetchResult Sig → α)
    (L : List (ι × Option (signatureFetchResult Sig))) :
    (L.map Prod.snd).filterMap (Option.map f) = (verified L).map fun p => f p.2 := by
  induction L with
  | nil => rfl
  | cons p L ih =>
    rcases p with ⟨i, _ | r⟩
    · simpa [verified_cons] using ih
    · simpa [verified_cons] using ih

/-- The loop variables after the results of a log, from the start: the signatures of the log
in order, their indices, and their weights added modulo `2^64`. -/
theorem collect_log {ι : Type} (L : List (ι × Option (signatureFetchResult Sig))) :
    collect (receiveResult VerifyWeight totalWeight quorumNum) LoopState.empty (L.map Prod.snd) =
      ⟨(verified L).map fun p => p.2.sig, ((verified L).map fun p => p.2.index).toFinset,
        ((verified L).map fun p => p.2.weight).sum % 2 ^ 64⟩ := by
  rw [collect_receiveResult VerifyWeight totalWeight quorumNum _ (Nat.two_pow_pos 64),
    filterMap_map_snd, filterMap_map_snd, filterMap_map_snd]
  simp [LoopState.empty]

/-- The loop breaks only after `VerifyWeight` has accepted the weight gathered. -/
theorem VerifyWeight_of_receiveResult {st : LoopState Sig} {m : Option (signatureFetchResult Sig)}
    (h : (receiveResult VerifyWeight totalWeight quorumNum st m).2 = true) :
    VerifyWeight (receiveResult VerifyWeight totalWeight quorumNum st m).1.signaturesWeight
      totalWeight quorumNum WarpQuorumDenominator = true := by
  cases m with
  | none => cases h
  | some r => exact h

end Loop

theorem fetchResult_some {Verify : PK → Sig → Bool} {validators : List (Validator PK)}
    {i : Fin validators.length} {r : signatureFetchResult Sig}
    (h : fetchResult Verify validators i (some r) = true) :
    r.index = i ∧ r.weight = validators[i].Weight ∧ Verify validators[i].PublicKey r.sig = true := by
  simpa [fetchResult, and_assoc] using h

/-- Distinct validators weigh at most all of them. -/
theorem sum_weight_le {validators : List (Validator PK)} {l : List (Fin validators.length)}
    (hl : l.Nodup) :
    (l.map fun i => validators[i].Weight).sum ≤ (validators.map Validator.Weight).sum := by
  rw [← List.sum_toFinset _ hl]
  calc ∑ i ∈ l.toFinset, validators[i].Weight
      ≤ ∑ i : Fin validators.length, validators[i].Weight :=
        Finset.sum_le_sum_of_subset (Finset.subset_univ _)
    _ = (validators.map Validator.Weight).sum := Fin.sum_univ_fun_getElem validators _

/-- `AggregateSignatures` returns only once its loop is over. -/
theorem returned_eq_some {aggregate : List Sig → Except String Sig} {totalWeight : ℕ}
    {col : Collector (LoopState Sig)} {r : Except AggregateError (AggregateSignatureResult Sig)}
    (h : returned aggregate totalWeight col = some r) : ∃ st passed, col = .done st passed := by
  cases col with
  | receiving i c => cases h
  | done st passed => exact ⟨st, passed, rfl⟩

/-- A result comes from a loop that broke out, with the aggregate of its signatures. -/
theorem returned_eq_some_ok {aggregate : List Sig → Except String Sig} {totalWeight : ℕ}
    {st : LoopState Sig} {passed : Bool} {res : AggregateSignatureResult Sig}
    (h : returned aggregate totalWeight (.done st passed) = some (.ok res)) :
    passed = true ∧ aggregate st.signatures = .ok res.Signature ∧
      res.SignatureWeight = st.signaturesWeight ∧ res.Signers = st.signersBitset := by
  cases passed with
  | false => simp [returned] at h
  | true =>
    simp only [returned, Bool.not_true, Bool.false_eq_true, if_false, Option.some.injEq] at h
    cases hagg : aggregate st.signatures with
    | error err => rw [hagg] at h; cases h
    | ok agg =>
      rw [hagg] at h
      cases h
      exact ⟨rfl, rfl, rfl, rfl⟩

/-! ## What a return means -/

section Run

variable (Verify : PK → Sig → Bool) (VerifyWeight : ℕ → ℕ → ℕ → ℕ → Bool)
  (aggregate : List Sig → Except String Sig) (validators : List (Validator PK))
  (totalWeight quorumNum : ℕ)

/-- A result of `AggregateSignatures` is the aggregate over the verified signatures received,
in the order received: `L` lists them with their validators. -/
theorem AggregateSignatures_result
    (hweight : (validators.map Validator.Weight).sum ≤ totalWeight) (htotal : totalWeight < 2 ^ 64)
    {es : List (Event (Fin validators.length) (Option (signatureFetchResult Sig)))}
    {s : Sys (Fin validators.length) (Option (signatureFetchResult Sig)) (LoopState Sig)}
    (hrun : aggregateRun Verify VerifyWeight validators totalWeight quorumNum es = some s)
    {res : AggregateSignatureResult Sig}
    (hret : returned aggregate totalWeight s.collector = some (.ok res)) :
    ∃ L : List (Fin validators.length × signatureFetchResult Sig),
      (L.map Prod.fst).Nodup ∧
      (∀ i x, s.workers i = .exited (some x) ↔ (i, x) ∈ L) ∧
      (∀ p ∈ L, p.2.index = p.1 ∧ p.2.weight = validators[p.1].Weight ∧
        Verify validators[p.1].PublicKey p.2.sig = true) ∧
      res.Signers = (L.map fun p => (p.1 : ℕ)).toFinset ∧
      res.SignatureWeight = (L.map fun p => validators[p.1].Weight).sum ∧
      VerifyWeight res.SignatureWeight totalWeight quorumNum WarpQuorumDenominator = true ∧
      aggregate (L.map fun p => p.2.sig) = .ok res.Signature := by
  obtain ⟨L, hL⟩ := received_reachable _ _ _ _ hrun
  obtain ⟨st, passed, hc⟩ := returned_eq_some hret
  rw [hc] at hret
  obtain ⟨rfl, hagg, hweight', hsigners⟩ := returned_eq_some_ok hret
  have hagrees := hL.agrees
  rw [hc] at hagrees
  obtain ⟨hst, L', p, rfl, -, hbreak⟩ := hagrees
  -- the loop broke at the last result of the log, whose fold is the loop state returned
  have hlast : (receiveResult VerifyWeight totalWeight quorumNum
      (collect (receiveResult VerifyWeight totalWeight quorumNum) LoopState.empty
        (L'.map Prod.snd)) p.2).1 = st := by
    rw [hst, List.map_append, List.map_singleton, collect_append_singleton]
  have hverify := VerifyWeight_of_receiveResult VerifyWeight totalWeight quorumNum hbreak
  rw [hlast] at hverify
  rw [collect_log] at hst
  set Lv := verified (L' ++ [p])
  have hallowed : ∀ q ∈ Lv, q.2.index = q.1 ∧ q.2.weight = validators[q.1].Weight ∧
      Verify validators[q.1].PublicKey q.2.sig = true :=
    fun q hq => fetchResult_some (hL.allowed_log (q.1, some q.2) (mem_verified.mp hq))
  have hnodup : (Lv.map Prod.fst).Nodup := (map_fst_verified_sublist _).nodup hL.nodup
  -- the weights gathered are those of distinct validators, so they do not wrap
  have hsum : (Lv.map fun q => q.2.weight) = Lv.map fun q => validators[q.1].Weight :=
    List.map_congr_left fun q hq => (hallowed q hq).2.1
  have hlt : (Lv.map fun q => validators[q.1].Weight).sum < 2 ^ 64 := by
    have hle := sum_weight_le hnodup
    rw [List.map_map] at hle
    exact lt_of_le_of_lt (hle.trans hweight) htotal
  have hweight_eq : st.signaturesWeight = (Lv.map fun q => validators[q.1].Weight).sum := by
    rw [hst, hsum, Nat.mod_eq_of_lt hlt]
  refine ⟨Lv, hnodup, fun i x => (hL.exited_iff i (some x)).trans mem_verified.symm, hallowed,
    ?_, hweight'.trans hweight_eq, ?_, ?_⟩
  · rw [hsigners, hst]
    exact congrArg List.toFinset (List.map_congr_left fun q hq => (hallowed q hq).1)
  · rw [hweight']
    exact hverify
  · rw [← hagg, hst]

/-- Once `AggregateSignatures` has returned, no goroutine that has not returned ever does. -/
theorem AggregateSignatures_strands
    {s : Sys (Fin validators.length) (Option (signatureFetchResult Sig)) (LoopState Sig)}
    {r : Except AggregateError (AggregateSignatureResult Sig)}
    (hret : returned aggregate totalWeight s.collector = some r)
    (i : Fin validators.length) (hi : (s.workers i).isExited = false)
    (es' : List (Event (Fin validators.length) (Option (signatureFetchResult Sig))))
    {s' : Sys (Fin validators.length) (Option (signatureFetchResult Sig)) (LoopState Sig)}
    (h : run validators.length (fetchResult Verify validators)
      (receiveResult VerifyWeight totalWeight quorumNum) s es' = some s') :
    (s'.workers i).isExited = false := by
  obtain ⟨st, passed, hc⟩ := returned_eq_some hret
  obtain ⟨-, hexited⟩ := exited_run_of_done _ _ _ hc h
  rw [Bool.eq_false_iff] at hi ⊢
  intro hexit
  obtain ⟨m, hm⟩ := Worker.isExited_iff.mp hexit
  exact hi (Worker.isExited_iff.mpr ⟨m, (hexited i m).mp hm⟩)

/-- What `AggregateSignatures` has done once it returns, over every run and every order in which
its goroutines finish. A result is sound: the signatures received and verified, listed by `L`
in the order received, give its signers, its weight and its aggregate signature, and
`VerifyWeight` accepts its weight. But every goroutine that has not returned by then never
returns: it is blocked on its send, and nothing receives again. -/
theorem AggregateSignatures_sound_but_leaks
    (hweight : (validators.map Validator.Weight).sum ≤ totalWeight) (htotal : totalWeight < 2 ^ 64)
    {es : List (Event (Fin validators.length) (Option (signatureFetchResult Sig)))}
    {s : Sys (Fin validators.length) (Option (signatureFetchResult Sig)) (LoopState Sig)}
    (hrun : aggregateRun Verify VerifyWeight validators totalWeight quorumNum es = some s)
    {r : Except AggregateError (AggregateSignatureResult Sig)}
    (hret : returned aggregate totalWeight s.collector = some r) :
    (∀ res, r = .ok res → ∃ L : List (Fin validators.length × signatureFetchResult Sig),
      (L.map Prod.fst).Nodup ∧
      (∀ i x, s.workers i = .exited (some x) ↔ (i, x) ∈ L) ∧
      (∀ p ∈ L, p.2.index = p.1 ∧ p.2.weight = validators[p.1].Weight ∧
        Verify validators[p.1].PublicKey p.2.sig = true) ∧
      res.Signers = (L.map fun p => (p.1 : ℕ)).toFinset ∧
      res.SignatureWeight = (L.map fun p => validators[p.1].Weight).sum ∧
      VerifyWeight res.SignatureWeight totalWeight quorumNum WarpQuorumDenominator = true ∧
      aggregate (L.map fun p => p.2.sig) = .ok res.Signature) ∧
    (∀ i, (s.workers i).isExited = false →
      ∀ (es' : List (Event (Fin validators.length) (Option (signatureFetchResult Sig)))) s',
        run validators.length (fetchResult Verify validators)
          (receiveResult VerifyWeight totalWeight quorumNum) s es' = some s' →
        (s'.workers i).isExited = false) := by
  refine ⟨fun res hres => ?_, fun i hi es' s' h => ?_⟩
  · subst hres
    exact AggregateSignatures_result Verify VerifyWeight aggregate validators totalWeight quorumNum
      hweight htotal hrun hret
  · exact AggregateSignatures_strands Verify VerifyWeight aggregate validators totalWeight quorumNum
      hret i hi es' h

end Run

/-! ## Two validators -/

/-- The weight check of `avalancheWarp.VerifyWeight`:
`quorumNum * totalWeight ≤ quorumDen * sigWeight`. -/
def weightCheck (sigWeight totalWeight quorumNum quorumDen : ℕ) : Bool :=
  decide (quorumNum * totalWeight ≤ quorumDen * sigWeight)

/-- Validators of weights 3 and 1. -/
def sampleValidators : List (Validator Unit) := [⟨(), 3⟩, ⟨(), 1⟩]

/-- Signatures are numbers, aggregated by their sum. -/
def sampleAggregate (sigs : List ℕ) : Except String ℕ := .ok sigs.sum

/-- The first validator's goroutine sends its signature `5` and the loop receives it. -/
def sampleEvents : List (Event (Fin sampleValidators.length) (Option (signatureFetchResult ℕ))) :=
  [.compute ⟨0, by decide⟩ (some ⟨5, 0, 3⟩), .deliver ⟨0, by decide⟩]

/-- At the default quorum of 67 out of a total weight of 4, the first validator's weight of 3
passes, so `AggregateSignatures` returns after one signature, and the second validator's
goroutine never returns. -/
theorem AggregateSignatures_sound_but_leaks_sample :
    ∃ s r, aggregateRun (fun _ _ => true) weightCheck sampleValidators 4 67 sampleEvents = some s ∧
      returned sampleAggregate 4 s.collector = some r ∧
      r = .ok ⟨3, 4, {0}, 5⟩ ∧ (s.workers ⟨1, by decide⟩).isExited = false ∧
      ((∀ res, r = .ok res → ∃ L : List (Fin sampleValidators.length × signatureFetchResult ℕ),
        (L.map Prod.fst).Nodup ∧
        (∀ i x, s.workers i = .exited (some x) ↔ (i, x) ∈ L) ∧
        (∀ p ∈ L, p.2.index = p.1 ∧ p.2.weight = sampleValidators[p.1].Weight ∧
          (fun _ _ => true : Unit → ℕ → Bool) sampleValidators[p.1].PublicKey p.2.sig = true) ∧
        res.Signers = (L.map fun p => (p.1 : ℕ)).toFinset ∧
        res.SignatureWeight = (L.map fun p => sampleValidators[p.1].Weight).sum ∧
        weightCheck res.SignatureWeight 4 67 WarpQuorumDenominator = true ∧
        sampleAggregate (L.map fun p => p.2.sig) = .ok res.Signature) ∧
      (∀ i, (s.workers i).isExited = false →
        ∀ (es' : List (Event (Fin sampleValidators.length) (Option (signatureFetchResult ℕ)))) s',
          run sampleValidators.length (fetchResult (fun _ _ => true) sampleValidators)
            (receiveResult weightCheck 4 67) s es' = some s' →
          (s'.workers i).isExited = false)) :=
  ⟨_, _, rfl, rfl, rfl, rfl,
    AggregateSignatures_sound_but_leaks (fun _ _ => true) weightCheck sampleAggregate
      sampleValidators 4 67 (by decide) (by decide)
      (rfl : aggregateRun (fun _ _ => true) weightCheck sampleValidators 4 67 sampleEvents = _) rfl⟩

end Jeth.Aggregator
