import Mathlib
import Jeth.Lib.Collections
import Jeth.Lib.FlowChecker
import Jeth.Evm.StateObject

/-!
# Precompile predicates

A transaction carries predicates for precompiles in its access list: each access tuple whose
address has a predicater in the rules is one predicate, the bytes of its storage keys. Block
verification checks them all (`CheckPredicates`, called by `verifyPredicates` for every
transaction) and requires the header's extra data to hold the results, per transaction hash and
predicate address, as the bits of the predicates that failed. Execution reads the results back
through the block context (`NewEVMBlockContext`).

The model follows `core/predicate_check.go`, `predicate/predicate_slots.go`,
`predicate/predicate_bytes.go`, `predicate/predicate_results.go`, `Block.verifyPredicates` and
`core/evm.go`. Go maps are association lists. What the code takes from libraries outside the
repository is a parameter with the laws it relies on: the bit set of `set.Bits`
(`Collections.BitSet`), the codec of the results (`ResultsCodec`), the verification of each
predicate (`Predicater`) and the intrinsic gas.

The main facts are the lookups after each step: the predicates of an address are its tuples in
access-list order (`lookup_PreparePredicateStorageSlots`), the results of an address are the
failures among them (`lookup_CheckPredicates`), and a verified block's context gives every
transaction its own results (`GetPredicateResults_of_verifyPredicates`).
-/

namespace Jeth.Predicate

open Jeth.State (Hash)
open Jeth.Collections

/-- `types.AccessTuple`. -/
structure AccessTuple (A : Type) where
  Address : A
  StorageKeys : List Hash
deriving DecidableEq

/-- `types.Transaction`, the parts the predicate checks read. -/
structure Transaction (A : Type) where
  Hash : Hash
  Gas : ℕ
  AccessList : List (AccessTuple A)
deriving DecidableEq

/-- `precompileconfig.PredicateContext`. -/
structure PredicateContext (S P : Type) where
  SnowCtx : S
  ProposerVMBlockCtx : Option P

/-- `precompileconfig.Predicater`, the method `CheckPredicates` calls. -/
structure Predicater (S P : Type) where
  VerifyPredicate : PredicateContext S P → List UInt8 → Except String Unit

/-- `params.Rules`, the fields the predicate checks read. -/
structure Rules (A S P : Type) where
  IsApricotPhase2 : Bool
  IsDurango : Bool
  Predicaters : AList fun _ : A => Predicater S P

variable {Address S P : Type} [DecidableEq Address]

/-- `Rules.PredicatersExist`. -/
def Rules.PredicatersExist (r : Rules Address S P) : Bool :=
  r.Predicaters.entries.length > 0

/-- `Rules.PredicaterExists`. -/
def Rules.PredicaterExists (r : Rules Address S P) (addr : Address) : Bool :=
  (r.Predicaters.lookup addr).isSome

/-! ## Predicate bytes -/

/-- `utils.HashSliceToBytes`: the hashes one after the other (each is 32 bytes). -/
def HashSliceToBytes (hashes : List Hash) : List UInt8 :=
  hashes.flatten

/-- `predicate.EndByte`. -/
def EndByte : UInt8 := 0xff

def ErrInvalidAllZeroBytes : String := "predicate specified invalid all zero bytes"
def ErrInvalidPadding : String := "predicate specified invalid padding"
def ErrInvalidEndDelimiter : String := "invalid end delimiter"

/-- `common.RightPadBytes`: zeroes after `slice` up to the length `l`. -/
def RightPadBytes (slice : List UInt8) (l : ℕ) : List UInt8 :=
  if l ≤ slice.length then slice else slice ++ List.replicate (l - slice.length) 0

/-- `common.TrimRightZeroes`. -/
def TrimRightZeroes (s : List UInt8) : List UInt8 :=
  (s.reverse.dropWhile (· = 0)).reverse

/-- `PackPredicate`: the message, the end byte, and zeroes up to a multiple of 32 bytes. -/
def PackPredicate (predicateBytes : List UInt8) : List UInt8 :=
  let predicateBytes := predicateBytes ++ [EndByte]
  RightPadBytes predicateBytes ((predicateBytes.length + 31) / 32 * 32)

/-- `UnpackPredicate`; the errors carry the sentinel Go wraps. -/
def UnpackPredicate (paddedPredicate : List UInt8) : Except String (List UInt8) :=
  let trimmedPredicateBytes := TrimRightZeroes paddedPredicate
  if trimmedPredicateBytes.length = 0 then .error ErrInvalidAllZeroBytes
  else if (trimmedPredicateBytes.length + 31) / 32 * 32 ≠ paddedPredicate.length then
    .error ErrInvalidPadding
  else if trimmedPredicateBytes.getLast? ≠ some EndByte then .error ErrInvalidEndDelimiter
  else .ok trimmedPredicateBytes.dropLast

theorem TrimRightZeroes_append_replicate {s : List UInt8} (hs : s.getLast? ≠ some 0) (k : ℕ) :
    TrimRightZeroes (s ++ List.replicate k 0) = s := by
  have hhead : ∀ x ∈ s.reverse.head?, ¬ (x = 0) := by
    intro x hx h
    subst h
    exact hs (by simpa [List.head?_reverse] using hx)
  have hdrop : s.reverse.dropWhile (fun b => decide (b = 0)) = s.reverse := by
    cases hr : s.reverse with
    | nil => rfl
    | cons x xs =>
      rw [hr] at hhead
      simp [hhead x rfl]
  simp only [TrimRightZeroes, List.reverse_append, List.reverse_replicate]
  rw [List.dropWhile_append_of_pos (by simp), hdrop, List.reverse_reverse]

/-- Unpacking a packed predicate gives back the message. -/
theorem UnpackPredicate_PackPredicate (predicateBytes : List UInt8) :
    UnpackPredicate (PackPredicate predicateBytes) = .ok predicateBytes := by
  set n := predicateBytes.length + 1
  have hlen : (predicateBytes ++ [EndByte]).length = n := by simp [n]
  have hn : n ≤ (n + 31) / 32 * 32 := by omega
  -- the padding is `(n + 31) / 32 * 32 - n` zeroes after the end byte
  have hpack : PackPredicate predicateBytes =
      predicateBytes ++ [EndByte] ++ List.replicate ((n + 31) / 32 * 32 - n) 0 := by
    show RightPadBytes (predicateBytes ++ [EndByte])
      (((predicateBytes ++ [EndByte]).length + 31) / 32 * 32) = _
    unfold RightPadBytes
    rw [hlen]
    split_ifs with h
    · have : (n + 31) / 32 * 32 - n = 0 := by omega
      rw [this, List.replicate_zero, List.append_nil]
    · rfl
  have htrim : TrimRightZeroes (PackPredicate predicateBytes) = predicateBytes ++ [EndByte] := by
    rw [hpack]
    exact TrimRightZeroes_append_replicate (by simp [EndByte]) _
  have hpadded : (PackPredicate predicateBytes).length = (n + 31) / 32 * 32 := by
    rw [hpack, List.length_append, hlen, List.length_replicate]
    omega
  unfold UnpackPredicate
  simp only [htrim, hlen, hpadded]
  simp [n]

/-! ## Predicates in storage keys

`NewPredicateTx` stores a packed predicate in an access tuple's storage keys with
`utils.BytesToHashSlice`, and the predicate is read back with `utils.HashSliceToBytes`. A packed
predicate fills whole words, so the round trip gives it back unchanged, and `UnpackPredicate`
accepts exactly the packed predicates. -/

/-- `utils.BytesToHashSlice`: the bytes in 32-byte words, the last one padded with zeroes. -/
def BytesToHashSlice (b : List UInt8) : List Hash :=
  (List.range ((b.length + 31) / 32)).map fun i => RightPadBytes ((b.drop (i * 32)).take 32) 32

/-- Padding a slice no longer than the target appends the missing zeroes. -/
theorem RightPadBytes_of_le {slice : List UInt8} {l : ℕ} (h : slice.length ≤ l) :
    RightPadBytes slice l = slice ++ List.replicate (l - slice.length) 0 := by
  unfold RightPadBytes
  split_ifs with hl
  · have hzero : l - slice.length = 0 := by omega
    rw [hzero, List.replicate_zero, List.append_nil]
  · rfl

/-- A non-empty byte string is its first word followed by the words of the rest. -/
theorem BytesToHashSlice_of_ne_nil {b : List UInt8} (hb : b ≠ []) :
    BytesToHashSlice b = RightPadBytes (b.take 32) 32 :: BytesToHashSlice (b.drop 32) := by
  have hpos : 0 < b.length := List.length_pos_iff.mpr hb
  have hn : (b.length + 31) / 32 = ((b.drop 32).length + 31) / 32 + 1 := by
    rw [List.length_drop]
    omega
  rw [BytesToHashSlice, hn, List.range_succ_eq_map, List.map_cons, List.map_map,
    BytesToHashSlice]
  congr 1
  apply List.map_congr_left
  intro i _
  simp only [Function.comp, List.drop_drop]
  congr 3
  omega

/-- Words and back pad a byte string with zeroes to a multiple of 32 bytes. -/
theorem HashSliceToBytes_BytesToHashSlice (b : List UInt8) :
    HashSliceToBytes (BytesToHashSlice b) = RightPadBytes b ((b.length + 31) / 32 * 32) := by
  -- one word at a time: induction on the length
  induction hn : b.length using Nat.strong_induction_on generalizing b with
  | _ n ih =>
    by_cases hb : b = []
    · subst hb
      simp only [List.length_nil] at hn
      subst hn
      simp [BytesToHashSlice, HashSliceToBytes, RightPadBytes]
    have hpos : 0 < b.length := List.length_pos_iff.mpr hb
    have hrest := ih _ (by rw [List.length_drop]; omega) (b.drop 32) rfl
    simp only [HashSliceToBytes] at hrest ⊢
    rw [BytesToHashSlice_of_ne_nil hb, List.flatten_cons, hrest,
      RightPadBytes_of_le (by simp), RightPadBytes_of_le (by rw [List.length_drop]; omega),
      RightPadBytes_of_le (by omega)]
    by_cases hshort : b.length ≤ 32
    · -- a single word: nothing is left after it
      rw [List.take_of_length_le hshort, List.drop_eq_nil_of_le hshort]
      have hword : (n + 31) / 32 * 32 = 32 := by omega
      simp [hword, hn]
    · -- a full first word, then the padded rest
      have htake : (b.take 32).length = 32 := by rw [List.length_take]; omega
      rw [htake, List.length_drop, Nat.sub_self, List.replicate_zero, List.append_nil,
        ← List.append_assoc, List.take_append_drop]
      congr 2
      omega

/-- A byte string is its trimmed form followed by the zeroes trimmed off. -/
theorem TrimRightZeroes_append_replicate_self (p : List UInt8) :
    TrimRightZeroes p ++ List.replicate (p.length - (TrimRightZeroes p).length) 0 = p := by
  have htrim : TrimRightZeroes p = p.rdropWhile (fun b => decide (b = 0)) := rfl
  -- what is trimmed off is `rtakeWhile`, all zeroes
  have hzeros : p.rtakeWhile (fun b => decide (b = 0)) =
      List.replicate (p.length - (TrimRightZeroes p).length) 0 := by
    have hlen := congrArg List.length
      (List.rdropWhile_append_rtakeWhile (p := fun b => decide (b = 0)) (l := p))
    rw [List.length_append] at hlen
    rw [List.eq_replicate_iff]
    exact ⟨by rw [htrim]; omega, fun x hx => by simpa using List.mem_rtakeWhile_imp hx⟩
  rw [← hzeros, htrim, List.rdropWhile_append_rtakeWhile]

/-- A packed predicate: the bytes, the end byte, and the zeroes up to a whole word. -/
theorem PackPredicate_eq (predicateBytes : List UInt8) :
    PackPredicate predicateBytes = predicateBytes ++ [EndByte] ++
      List.replicate ((predicateBytes.length + 1 + 31) / 32 * 32 - (predicateBytes.length + 1)) 0 := by
  unfold PackPredicate
  rw [RightPadBytes_of_le (by simp; omega)]
  simp

/-- `UnpackPredicate` accepts exactly the packed predicates, and gives back what was packed. -/
theorem UnpackPredicate_eq_ok_iff (paddedPredicate predicateBytes : List UInt8) :
    UnpackPredicate paddedPredicate = .ok predicateBytes ↔
      PackPredicate predicateBytes = paddedPredicate := by
  constructor
  · intro h
    simp only [UnpackPredicate] at h
    split_ifs at h with hzero hpad hend
    cases h
    set trimmed := TrimRightZeroes paddedPredicate
    have hne : trimmed ≠ [] := fun h => hzero (by simp [h])
    have hlast : trimmed.getLast hne = EndByte := by
      simpa [List.getLast?_eq_some_getLast hne] using hend
    -- the trimmed bytes are the message and the end byte
    have htrimmed : trimmed.dropLast ++ [EndByte] = trimmed := by
      rw [← hlast]
      exact List.dropLast_append_getLast hne
    have hlen : trimmed.dropLast.length + 1 = trimmed.length := by
      rw [← htrimmed, List.length_append, List.length_singleton, htrimmed]
    have hpadded : (trimmed.length + 31) / 32 * 32 = paddedPredicate.length := not_not.mp hpad
    rw [PackPredicate_eq, htrimmed, hlen, hpadded]
    exact TrimRightZeroes_append_replicate_self paddedPredicate
  · rintro rfl
    exact UnpackPredicate_PackPredicate predicateBytes

/-- A packed predicate fills whole words: the message and the end byte, rounded up. -/
theorem length_PackPredicate (predicateBytes : List UInt8) :
    (PackPredicate predicateBytes).length = (predicateBytes.length + 1 + 31) / 32 * 32 := by
  rw [PackPredicate_eq]
  simp only [List.length_append, List.length_singleton, List.length_replicate]
  omega

theorem PackPredicate_round_trip :
    (∀ predicateBytes, UnpackPredicate
        (HashSliceToBytes (BytesToHashSlice (PackPredicate predicateBytes))) = .ok predicateBytes) ∧
      (∀ paddedPredicate predicateBytes, UnpackPredicate paddedPredicate = .ok predicateBytes ↔
        PackPredicate predicateBytes = paddedPredicate) ∧
      (∀ predicateBytes, ∃ k < 32,
        PackPredicate predicateBytes = predicateBytes ++ [EndByte] ++ List.replicate k 0 ∧
          0 < (PackPredicate predicateBytes).length ∧ (PackPredicate predicateBytes).length % 32 = 0) := by
  refine ⟨fun predicateBytes => ?_, UnpackPredicate_eq_ok_iff, fun predicateBytes => ?_⟩
  · -- the packed bytes are whole words, so the words give them back unchanged
    have hwords : ((PackPredicate predicateBytes).length + 31) / 32 * 32 =
        (PackPredicate predicateBytes).length := by
      rw [length_PackPredicate]
      omega
    rw [HashSliceToBytes_BytesToHashSlice, hwords, RightPadBytes_of_le le_rfl, Nat.sub_self,
      List.replicate_zero, List.append_nil]
    exact UnpackPredicate_PackPredicate predicateBytes
  · refine ⟨_, by omega, PackPredicate_eq predicateBytes, ?_, ?_⟩ <;>
      rw [length_PackPredicate] <;> omega

/-! ## The predicates of a transaction -/

/-- `PreparePredicateStorageSlots`: the predicates of each predicater address, one for each
access tuple with that address, in access-list order. -/
def PreparePredicateStorageSlots (rules : Rules Address S P) (list : List (AccessTuple Address)) :
    AList fun _ : Address => List (List UInt8) :=
  list.foldl (fun predicateStorageSlots el =>
    if rules.PredicaterExists el.Address then
      appendAt predicateStorageSlots el.Address (HashSliceToBytes el.StorageKeys)
    else predicateStorageSlots) ∅

/-- The predicates the access tuples give the address `a`. -/
def predicatesOf (list : List (AccessTuple Address)) (a : Address) : List (List UInt8) :=
  (list.filter fun el => el.Address = a).map fun el => HashSliceToBytes el.StorageKeys

theorem lookup_PreparePredicateStorageSlots (rules : Rules Address S P)
    (list : List (AccessTuple Address)) (a : Address) :
    (PreparePredicateStorageSlots rules list).lookup a =
      if rules.PredicaterExists a ∧ predicatesOf list a ≠ [] then some (predicatesOf list a)
      else none := by
  unfold PreparePredicateStorageSlots
  rw [lookup_foldl_appendAt AccessTuple.Address (fun el => HashSliceToBytes el.StorageKeys)
    (fun el => rules.PredicaterExists el.Address) a list ∅]
  by_cases ha : rules.PredicaterExists a
  · -- the tuples kept under `a` are all of `a`'s
    have hfilter : (list.filter fun el => rules.PredicaterExists el.Address && el.Address = a) =
        list.filter fun el => el.Address = a :=
      List.filter_congr fun el _ => by by_cases h : el.Address = a <;> simp [h, ha]
    rw [hfilter, AList.lookup_empty]
    by_cases hnil : (list.filter fun el => el.Address = a) = []
    · simp [predicatesOf, hnil]
    · simp [predicatesOf, hnil, ha]
  · have hfilter : (list.filter fun el => rules.PredicaterExists el.Address && el.Address = a) =
        [] :=
      List.filter_eq_nil_iff.mpr fun el _ => by by_cases h : el.Address = a <;> simp_all
    simp [hfilter, ha, AList.lookup_empty]

/-! ## Checking the predicates -/

section Check

variable {B : Type} (bits : BitSet B) (IntrinsicGas : Transaction Address → Except String ℕ)

def ErrIntrinsicGas : String := "intrinsic gas too low"
def ErrMissingPredicateContext : String := "missing predicate context"

/-- The bits of the predicates of `address` that `VerifyPredicate` refuses.
`PreparePredicateStorageSlots` keeps only addresses with a predicater, so the lookup finds one;
Go would call a nil predicater otherwise. -/
def predicateFailures (rules : Rules Address S P) (predicateContext : PredicateContext S P)
    (address : Address) (predicates : List (List UInt8)) : B :=
  match rules.Predicaters.lookup address with
  | some predicaterContract =>
    bits.failedIndexes (fun predicate =>
      (predicaterContract.VerifyPredicate predicateContext predicate).isOk) predicates
  | none => bits.NewBits

/-- `CheckPredicates`: the result bytes of each predicate address of `tx`. -/
def CheckPredicates (rules : Rules Address S P) (predicateContext : Option (PredicateContext S P))
    (tx : Transaction Address) : Except String (AList fun _ : Address => List UInt8) :=
  match IntrinsicGas tx with
  | .error err => .error err
  | .ok intrinsicGas =>
    if tx.Gas < intrinsicGas then .error ErrIntrinsicGas
    -- no precompile has predicates to verify
    else if !rules.PredicatersExist then .ok ∅
    else
      let predicateArguments := PreparePredicateStorageSlots rules tx.AccessList
      if predicateArguments.entries.length = 0 then .ok ∅
      else
        match predicateContext with
        | some ctx =>
          if ctx.ProposerVMBlockCtx.isSome then
            .ok (predicateArguments.foldl (fun predicateResults address predicates =>
              predicateResults.insert address
                (bits.Bytes (predicateFailures bits rules ctx address predicates))) ∅)
          else .error ErrMissingPredicateContext
        | none => .error ErrMissingPredicateContext

theorem PredicaterExists_of_not_PredicatersExist {rules : Rules Address S P}
    (h : rules.PredicatersExist = false) (a : Address) : rules.PredicaterExists a = false := by
  have hnil : rules.Predicaters.entries = [] := by
    simpa [Rules.PredicatersExist] using h
  simp [Rules.PredicaterExists, AList.lookup, hnil]

/-- The results of a checked transaction: each address with predicates gets the bytes of the
bits of its predicates that failed. -/
theorem lookup_CheckPredicates {rules : Rules Address S P} {ctx : PredicateContext S P}
    {tx : Transaction Address} {R : AList fun _ : Address => List UInt8}
    (h : CheckPredicates bits IntrinsicGas rules (some ctx) tx = .ok R) (a : Address) :
    R.lookup a = ((PreparePredicateStorageSlots rules tx.AccessList).lookup a).map
      fun predicates => bits.Bytes (predicateFailures bits rules ctx a predicates) := by
  unfold CheckPredicates at h
  cases hig : IntrinsicGas tx with
  | error err => simp [hig] at h
  | ok intrinsicGas =>
    have hgas : ¬ tx.Gas < intrinsicGas := fun hgas => by simp [hig, hgas] at h
    by_cases hexist : rules.PredicatersExist = true
    · by_cases hempty : (PreparePredicateStorageSlots rules tx.AccessList).entries.length = 0
      · -- no tuple has a predicater
        simp only [hig, hgas, hexist, hempty, Bool.not_true, Bool.false_eq_true, if_false,
          if_true, Except.ok.injEq] at h
        subst h
        have hnil : (PreparePredicateStorageSlots rules tx.AccessList).entries = [] :=
          List.length_eq_zero_iff.mp hempty
        simp [AList.lookup, hnil]
      · by_cases hctx : ctx.ProposerVMBlockCtx.isSome = true
        · simp only [hig, hgas, hexist, hempty, hctx, Bool.not_true, Bool.false_eq_true,
            if_false, if_true, Except.ok.injEq] at h
          subst h
          rw [lookup_foldl_insert, AList.lookup_empty, Option.or_none]
        · simp [hig, hgas, hexist, hempty, hctx] at h
    · -- without predicaters no address keeps a tuple
      simp only [hig, hgas, hexist, Bool.not_false, if_false, if_true, Except.ok.injEq] at h
      subst h
      have hnone := lookup_PreparePredicateStorageSlots rules tx.AccessList a
      simp only [Bool.not_eq_true] at hexist
      simp [hnone, PredicaterExists_of_not_PredicatersExist hexist, AList.lookup_empty]

end Check

/-! ## The results in the block -/

/-- `predicate.Results`: the result bytes of each predicate address, per transaction hash (the
field `Results`). -/
structure Results (A : Type) where
  results : AList fun _ : Hash => AList fun _ : A => List UInt8

/-- `NewResults`. -/
def NewResults : Results Address := ⟨∅⟩

/-- `Results.GetResults`: nothing for a transaction or an address without results. -/
def Results.GetResults (r : Results Address) (txHash : Hash) (address : Address) : List UInt8 :=
  match r.results.lookup txHash with
  | none => []
  | some txResults => (txResults.lookup address).getD []

/-- `Results.SetTxResults`: no entry for a transaction without results. -/
def Results.SetTxResults (r : Results Address) (txHash : Hash)
    (txResults : AList fun _ : Address => List UInt8) : Results Address :=
  if txResults.entries.length = 0 then ⟨r.results.erase txHash⟩
  else ⟨r.results.insert txHash txResults⟩

theorem GetResults_SetTxResults_self (r : Results Address) (txHash : Hash)
    (txResults : AList fun _ : Address => List UInt8) (address : Address) :
    (r.SetTxResults txHash txResults).GetResults txHash address =
      (txResults.lookup address).getD [] := by
  unfold Results.SetTxResults Results.GetResults
  split_ifs with h
  · have hnil : txResults.entries = [] := List.length_eq_zero_iff.mp h
    rw [AList.lookup_erase]
    simp [AList.lookup, hnil]
  · simp [AList.lookup_insert]

theorem GetResults_SetTxResults_ne (r : Results Address) {txHash txHash' : Hash}
    (txResults : AList fun _ : Address => List UInt8) (address : Address)
    (h : txHash' ≠ txHash) :
    (r.SetTxResults txHash txResults).GetResults txHash' address = r.GetResults txHash' address := by
  unfold Results.SetTxResults Results.GetResults
  split_ifs
  · rw [AList.lookup_erase_ne h]
  · rw [AList.lookup_insert_ne h]

/-- The codec of `predicate.Results`: parsing the bytes of a marshalled value gives it back. -/
structure ResultsCodec (A : Type) where
  Bytes : Results A → Except String (List UInt8)
  ParseResults : List UInt8 → Except String (Results A)
  ParseResults_Bytes : ∀ r b, Bytes r = .ok b → ParseResults b = .ok r

/-- `params.DynamicFeeExtraDataSize`. -/
def DynamicFeeExtraDataSize : ℕ := 80

/-- `GetPredicateResultBytes`: the extra data after the dynamic fee window, if any. -/
def GetPredicateResultBytes (extraData : List UInt8) : Option (List UInt8) :=
  if extraData.length ≤ DynamicFeeExtraDataSize then none
  else some (extraData.drop DynamicFeeExtraDataSize)

/-- The parts of a block `verifyPredicates` and `NewEVMBlockContext` read. -/
structure Block (A : Type) where
  Transactions : List (Transaction A)
  Extra : List UInt8

/-- `vm.BlockContext`, its predicate results. -/
structure BlockContext (A : Type) where
  PredicateResults : Option (Results A)

/-- `BlockContext.GetPredicateResults`. -/
def BlockContext.GetPredicateResults (b : BlockContext Address) (txHash : Hash)
    (address : Address) : List UInt8 :=
  match b.PredicateResults with
  | none => []
  | some predicateResults => predicateResults.GetResults txHash address

section Block

variable {B : Type} (bits : BitSet B) (codec : ResultsCodec Address)
  (IntrinsicGas : Transaction Address → Except String ℕ)

def errInvalidHeaderPredicateResults : String := "invalid header predicate results"

/-- The loop of `verifyPredicates`: the results of each transaction under its hash. -/
def predicateResultsOf (rules : Rules Address S P)
    (predicateContext : Option (PredicateContext S P)) (txs : List (Transaction Address)) :
    Except String (Results Address) :=
  txs.foldlM (fun predicateResults tx =>
    (CheckPredicates bits IntrinsicGas rules predicateContext tx).map
      (predicateResults.SetTxResults tx.Hash)) NewResults

/-- `Block.verifyPredicates`, with the rules of the block's number and time. -/
def verifyPredicates (rules : Rules Address S P)
    (predicateContext : Option (PredicateContext S P)) (b : Block Address) : Except String Unit :=
  if !rules.IsDurango && rules.PredicatersExist then
    .error "cannot enable predicates before Durango activation"
  else if !rules.IsDurango then .ok ()
  else
    match predicateResultsOf bits IntrinsicGas rules predicateContext b.Transactions with
    | .error err => .error err
    | .ok predicateResults =>
      match codec.Bytes predicateResults with
      | .error err => .error ("failed to marshal predicate results: " ++ err)
      | .ok predicateResultsBytes =>
        match GetPredicateResultBytes b.Extra with
        | none => .error "failed to find predicate results in extra data"
        | some headerPredicateResultsBytes =>
          if headerPredicateResultsBytes = predicateResultsBytes then .ok ()
          else .error errInvalidHeaderPredicateResults

/-- `NewEVMBlockContext`: the results parsed from the header's extra data, none if they do not
parse. -/
def NewEVMBlockContext (header : Block Address) : BlockContext Address :=
  match GetPredicateResultBytes header.Extra with
  | none => ⟨none⟩
  | some predicateBytes =>
    match codec.ParseResults predicateBytes with
    | .error _ => ⟨none⟩
    | .ok predicateResults => ⟨some predicateResults⟩

variable {rules : Rules Address S P} {predicateContext : Option (PredicateContext S P)}

/-- A transaction hash that no transaction of the loop has keeps its results. -/
theorem GetResults_foldlM_of_not_mem : ∀ (txs : List (Transaction Address)) (r R : Results Address),
    txs.foldlM (fun predicateResults tx =>
      (CheckPredicates bits IntrinsicGas rules predicateContext tx).map
        (predicateResults.SetTxResults tx.Hash)) r = .ok R →
    ∀ txHash, (∀ tx ∈ txs, tx.Hash ≠ txHash) → ∀ a, R.GetResults txHash a = r.GetResults txHash a
  | [], r, R, h, _, _, _ => by
    cases h
    rfl
  | tx :: txs, r, R, h, txHash, hne, a => by
    rw [List.foldlM_cons] at h
    obtain ⟨r₁, hr₁, h⟩ := Jeth.except_bind_eq_ok.mp h
    obtain ⟨Rtx, -, rfl⟩ : ∃ Rtx, CheckPredicates bits IntrinsicGas rules predicateContext tx =
        .ok Rtx ∧ r.SetTxResults tx.Hash Rtx = r₁ := by
      cases hc : CheckPredicates bits IntrinsicGas rules predicateContext tx <;>
        simp_all [Except.map]
    rw [GetResults_foldlM_of_not_mem txs _ R h txHash fun tx' h' => hne tx' (by simp [h']),
      GetResults_SetTxResults_ne _ _ _ (hne tx (by simp)).symm]

/-- Each transaction of the loop has its own results under its hash, where no other
transaction has the same hash. -/
theorem GetResults_foldlM : ∀ (txs : List (Transaction Address)) (r R : Results Address),
    txs.foldlM (fun predicateResults tx =>
      (CheckPredicates bits IntrinsicGas rules predicateContext tx).map
        (predicateResults.SetTxResults tx.Hash)) r = .ok R →
    ∀ tx ∈ txs, (∀ tx' ∈ txs, tx'.Hash = tx.Hash → tx' = tx) →
      ∃ Rtx, CheckPredicates bits IntrinsicGas rules predicateContext tx = .ok Rtx ∧
        ∀ a, R.GetResults tx.Hash a = (Rtx.lookup a).getD []
  | [], _, _, _, tx, htx, _ => absurd htx List.not_mem_nil
  | tx₀ :: txs, r, R, h, tx, htx, huniq => by
    rw [List.foldlM_cons] at h
    obtain ⟨r₁, hr₁, h⟩ := Jeth.except_bind_eq_ok.mp h
    obtain ⟨R₀, hR₀, rfl⟩ : ∃ R₀, CheckPredicates bits IntrinsicGas rules predicateContext tx₀ =
        .ok R₀ ∧ r.SetTxResults tx₀.Hash R₀ = r₁ := by
      cases hc : CheckPredicates bits IntrinsicGas rules predicateContext tx₀ <;>
        simp_all [Except.map]
    have huniq' : ∀ tx' ∈ txs, tx'.Hash = tx.Hash → tx' = tx :=
      fun tx' h' => huniq tx' (List.mem_cons_of_mem _ h')
    by_cases hlater : tx ∈ txs
    · exact GetResults_foldlM txs _ R h tx hlater huniq'
    · -- `tx` is the head, and no later transaction has its hash
      have htx₀ : tx = tx₀ := by
        rcases List.mem_cons.mp htx with h' | h'
        · exact h'
        · exact absurd h' hlater
      subst htx₀
      have hne : ∀ tx' ∈ txs, tx'.Hash ≠ tx.Hash := fun tx' h' heq =>
        hlater (huniq' tx' h' heq ▸ h')
      refine ⟨R₀, hR₀, fun a => ?_⟩
      rw [GetResults_foldlM_of_not_mem bits IntrinsicGas txs _ R h tx.Hash hne a,
        GetResults_SetTxResults_self]

/-- In a block that passes `verifyPredicates`, the block context gives each transaction the
results `CheckPredicates` computed for it. -/
theorem GetPredicateResults_of_verifyPredicates {b : Block Address}
    (hdurango : rules.IsDurango = true)
    (h : verifyPredicates bits codec IntrinsicGas rules predicateContext b = .ok ())
    {tx : Transaction Address} (htx : tx ∈ b.Transactions)
    (huniq : ∀ tx' ∈ b.Transactions, tx'.Hash = tx.Hash → tx' = tx) :
    ∃ Rtx, CheckPredicates bits IntrinsicGas rules predicateContext tx = .ok Rtx ∧
      ∀ a, (NewEVMBlockContext codec b).GetPredicateResults tx.Hash a = (Rtx.lookup a).getD [] := by
  unfold verifyPredicates at h
  simp only [hdurango, Bool.not_true, Bool.false_and, Bool.false_eq_true, if_false] at h
  split at h
  · cases h
  · rename_i predicateResults hresults
    split at h
    · cases h
    · rename_i predicateResultsBytes hbytes
      split at h
      · cases h
      · rename_i headerBytes hheader
        split_ifs at h with heq
        -- the header holds the bytes of the results, which parse back to them
        have hparse : codec.ParseResults headerBytes = .ok predicateResults := by
          rw [heq]
          exact codec.ParseResults_Bytes _ _ hbytes
        have hctx : NewEVMBlockContext codec b = ⟨some predicateResults⟩ := by
          simp [NewEVMBlockContext, hheader, hparse]
        obtain ⟨Rtx, hRtx, hget⟩ := GetResults_foldlM bits IntrinsicGas b.Transactions NewResults
          predicateResults hresults tx htx huniq
        exact ⟨Rtx, hRtx, fun a => by
          rw [hctx]
          exact hget a⟩

end Block

end Jeth.Predicate
