import Mathlib

/-!
# Hex encoding

`hex.EncodeToString` of Go's `encoding/hex` writes each byte as two lower-case digits, the high
half first. Code that orders byte strings by their hex encodings relies on two facts about it:
the encoding is injective (`EncodeToString_injective`), and it orders the strings as the byte
strings are ordered lexicographically (`EncodeToString_lt_iff`).
-/

namespace Jeth

/-- `hextable` of `encoding/hex`. -/
def hextable : List Char := "0123456789abcdef".toList

/-- The two digits `hex.Encode` writes for a byte, the high half first. -/
def hexPair (b : UInt8) : List Char :=
  [hextable.getD (b >>> 4).toNat '0', hextable.getD (b &&& 0x0f).toNat '0']

/-- `hex.EncodeToString(src)`. -/
def EncodeToString (src : List UInt8) : String := String.ofList (src.flatMap hexPair)

example : EncodeToString [0x1f, 0xa0] = "1fa0" := by decide

/-- The sixteen digits are distinct and in increasing order. -/
theorem hextable_getD_fin :
    ∀ i j : Fin 16, (hextable.getD i '0' = hextable.getD j '0' ↔ i = j) ∧
      (hextable.getD i '0' < hextable.getD j '0' ↔ i < j) := by
  decide

theorem hextable_getD_eq_iff {i j : ℕ} (hi : i < 16) (hj : j < 16) :
    hextable.getD i '0' = hextable.getD j '0' ↔ i = j := by
  simpa [Fin.ext_iff] using (hextable_getD_fin ⟨i, hi⟩ ⟨j, hj⟩).1

theorem hextable_getD_lt_iff {i j : ℕ} (hi : i < 16) (hj : j < 16) :
    hextable.getD i '0' < hextable.getD j '0' ↔ i < j := by
  simpa [Fin.lt_def] using (hextable_getD_fin ⟨i, hi⟩ ⟨j, hj⟩).2

/-- The two halves of a byte, as numbers. -/
theorem toNat_halves (b : UInt8) :
    (b >>> 4).toNat = b.toNat / 16 ∧ (b &&& 0x0f).toNat = b.toNat % 16 := by
  constructor
  · simp [UInt8.toNat_shiftRight, Nat.shiftRight_eq_div_pow]
  · simpa [UInt8.toNat_and] using Nat.and_two_pow_sub_one_eq_mod b.toNat 4

/-- The digits of two bytes compare as the bytes do: equal exactly when the bytes are, and
the first digit decides unless it is equal. -/
theorem hexPair_digits (a b : UInt8) :
    (hextable.getD (a >>> 4).toNat '0' = hextable.getD (b >>> 4).toNat '0' ↔
        a.toNat / 16 = b.toNat / 16) ∧
      (hextable.getD (a >>> 4).toNat '0' < hextable.getD (b >>> 4).toNat '0' ↔
        a.toNat / 16 < b.toNat / 16) ∧
      (hextable.getD (a &&& 0x0f).toNat '0' = hextable.getD (b &&& 0x0f).toNat '0' ↔
        a.toNat % 16 = b.toNat % 16) ∧
      (hextable.getD (a &&& 0x0f).toNat '0' < hextable.getD (b &&& 0x0f).toNat '0' ↔
        a.toNat % 16 < b.toNat % 16) := by
  obtain ⟨ha₁, ha₂⟩ := toNat_halves a
  obtain ⟨hb₁, hb₂⟩ := toNat_halves b
  have hsize : ∀ c : UInt8, c.toNat / 16 < 16 := fun c => by
    have := UInt8.toNat_lt c
    omega
  rw [ha₁, ha₂, hb₁, hb₂]
  exact ⟨hextable_getD_eq_iff (hsize a) (hsize b), hextable_getD_lt_iff (hsize a) (hsize b),
    hextable_getD_eq_iff (Nat.mod_lt _ (by omega)) (Nat.mod_lt _ (by omega)),
    hextable_getD_lt_iff (Nat.mod_lt _ (by omega)) (Nat.mod_lt _ (by omega))⟩

theorem flatMap_hexPair_injective : Function.Injective fun src : List UInt8 => src.flatMap hexPair
  | [], [], _ => rfl
  | [], _ :: _, h => by simp [hexPair] at h
  | _ :: _, [], h => by simp [hexPair] at h
  | a :: as, b :: bs, h => by
    simp only [List.flatMap_cons, hexPair, List.cons_append, List.nil_append,
      List.cons.injEq] at h
    obtain ⟨hhigh, hlow, hrest⟩ := h
    have hab : a.toNat = b.toNat := by
      have h₁ := ((hexPair_digits a b).1).mp hhigh
      have h₂ := ((hexPair_digits a b).2.2.1).mp hlow
      omega
    rw [UInt8.toNat_inj.mp hab, flatMap_hexPair_injective hrest]

theorem EncodeToString_injective : Function.Injective EncodeToString := fun a b h =>
  flatMap_hexPair_injective (by simpa [EncodeToString] using congrArg String.toList h)

/-- The digits of byte strings compare lexicographically as the byte strings do. -/
theorem flatMap_hexPair_lt_iff :
    ∀ a b : List UInt8, a.flatMap hexPair < b.flatMap hexPair ↔ a < b
  | [], [] => by simp
  | [], _ :: _ => by simp [hexPair, List.nil_lt_cons]
  | _ :: _, [] => by simp [hexPair]
  | a :: as, b :: bs => by
    have hdigits := hexPair_digits a b
    have hlt : a < b ↔ a.toNat < b.toNat := UInt8.lt_iff_toNat_lt
    have heq : a = b ↔ a.toNat = b.toNat := UInt8.toNat_inj.symm
    simp only [List.flatMap_cons, hexPair, List.cons_append, List.nil_append,
      List.cons_lt_cons_iff, hdigits, flatMap_hexPair_lt_iff as bs, hlt, heq]
    -- the rest of the strings only matters when the bytes are equal
    by_cases hrest : as < bs
    · simp only [hrest, and_true]
      omega
    · simp only [hrest, and_false, or_false]
      omega

theorem EncodeToString_lt_iff (a b : List UInt8) : EncodeToString a < EncodeToString b ↔ a < b := by
  rw [String.lt_iff_toList_lt, EncodeToString, EncodeToString, String.toList_ofList,
    String.toList_ofList, flatMap_hexPair_lt_iff]

end Jeth
