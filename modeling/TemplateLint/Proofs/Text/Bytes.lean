import Mathlib
import TemplateLint.Text.Bytes

/-!
# Texts as bytes

What the operations on byte strings mean: the bytewise order is the lexicographic one, the text
behind a beginning is what is left of the whole, and a number can be read back from its digits.
-/
namespace TemplateLint

/-- A digit can be read back from its byte. -/
theorem Byte.ofNat_toUInt8_of_isDigit {c : Char} (h : c.isDigit = true) :
    Char.ofNat c.toUInt8.toNat = c := by
  simp only [Char.isDigit, Bool.and_eq_true, decide_eq_true_eq, UInt32.le_iff_toNat_le] at h
  have nine : ('9' : Char).val.toNat = 57 := rfl
  have hbyte : c.toUInt8.toNat = c.toNat := by
    simp only [Char.toUInt8, UInt32.toNat_toUInt8, Char.toNat]
    omega
  rw [hbyte, Char.ofNat_toNat]

namespace Bytes

/-- The bytewise order is the lexicographic one. -/
theorem le_iff {s t : Bytes} : le s t = true ↔ s ≤ t := by
  induction s generalizing t with
  | nil => simp [le]
  | cons a s ih =>
    cases t with
    | nil => simp [le]
    | cons b t =>
      rw [le, Bool.or_eq_true, Bool.and_eq_true, decide_eq_true_eq, beq_iff_eq, ih,
        List.cons_le_cons_iff]

/-- A text has a beginning exactly when it is that beginning and what is behind it. -/
theorem after?_eq_some_iff {first s rest : Bytes} :
    after? first s = some rest ↔ s = first ++ rest := by
  fun_induction after? first s with
  | case1 s => simp [eq_comm]
  | case2 a first => simp
  | case3 a first s ih => simp [ih]
  | case4 a first b s hne => simp [Ne.symm hne]

/-! ## Digits -/

theorem isDigit_of_mem_ofNat {n : Nat} {b : UInt8} (h : b ∈ ofNat n) :
    Byte.isDigit b = true := by
  obtain ⟨c, hc, rfl⟩ := List.mem_map.1 h
  have hd := Nat.isDigit_of_mem_toDigits (by decide) (by decide) hc
  simp only [Char.isDigit, Bool.and_eq_true, decide_eq_true_eq, UInt32.le_iff_toNat_le] at hd
  simp only [Byte.isDigit, Bool.and_eq_true, decide_eq_true_eq, UInt8.le_iff_toNat_le,
    Char.toUInt8, UInt32.toNat_toUInt8, UInt8.reduceToNat]
  have zero : ('0' : Char).val.toNat = 48 := rfl
  have nine : ('9' : Char).val.toNat = 57 := rfl
  omega

theorem ofNat_ne_nil (n : Nat) : ofNat n ≠ [] := by
  simp [ofNat, Nat.toDigits_ne_nil]

/-- Different numbers have different digits. -/
theorem ofNat_injective : Function.Injective ofNat := by
  -- the digits can be read back, and the number from them
  have hread : ∀ n, (ofNat n).map (fun b => Char.ofNat b.toNat) = Nat.toDigits 10 n := by
    intro n
    rw [ofNat, List.map_map]
    refine (List.map_congr_left fun c hc => ?_).trans (List.map_id _)
    exact Byte.ofNat_toUInt8_of_isDigit (Nat.isDigit_of_mem_toDigits (by decide) (by decide) hc)
  intro m n h
  have hdigits : Nat.toDigits 10 m = Nat.toDigits 10 n := by
    rw [← hread, h, hread]
  rw [← Nat.ofDigitChars_ten_toDigits (n := m), hdigits, Nat.ofDigitChars_ten_toDigits]

end Bytes
end TemplateLint
