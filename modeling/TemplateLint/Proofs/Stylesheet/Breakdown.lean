import Mathlib
import TemplateLint.Proofs.Stylesheet.Checker
import TemplateLint.Proofs.Stylesheet.Tokens

/-!
# Checks that break down

The spaces that a line should start with are counted by a product of machine integers, which wraps
around, and there may be no text of that many spaces. A check breaks down exactly when this happens
at a line whose indentation it looks at. It does not happen in a stylesheet that is short enough for
the width: no line is nested deeper than there are tokens before it, and there are no more tokens
than bytes.
-/
namespace TemplateLint
open Bytes

/-! ## Machine integers -/

namespace Machine

theorem textLength?_eq_none_iff {n : Int} :
    textLength? n = none ↔ n < 0 ∨ longestText < n := by
  unfold textLength?
  split_ifs with h
  · simp only [Bool.and_eq_true, decide_eq_true_eq] at h
    simp only [false_iff]
    omega
  · simp only [Bool.and_eq_true, decide_eq_true_eq] at h
    simp only [true_iff]
    omega

theorem textLength?_natCast (n : Nat) : (textLength? n).getD n = n := by
  unfold textLength?
  split_ifs <;> rfl

/-- A product below the limit of the integers without a sign is the product itself, or it has
wrapped around to a negative number. -/
theorem product_cases {a b : Nat} (h : a * b < Integer.unsignedLimit ∨
    Integer.signedLimit ≤ a ∨ Integer.signedLimit ≤ b) :
    product a b = (a * b : Nat) ∨ product a b < 0 := by
  unfold product
  split_ifs with hrange
  · simp only [Bool.and_eq_true, decide_eq_true_eq] at hrange
    have hmod : ((a : Int) * b) % Integer.unsignedLimit = (a * b : Nat) := by
      rw [← Nat.cast_mul, Int.emod_eq_of_lt (by omega) (by omega)]
    rw [Int.bmod_def, hmod]
    split_ifs
    · exact .inl rfl
    · exact .inr (by omega)
  · exact .inl (by push_cast; rfl)

/-- A product that a machine integer holds does not wrap around. -/
theorem product_of_lt {a b : Nat} (h : a * b < Integer.signedLimit) :
    product a b = (a * b : Nat) := by
  unfold product
  split_ifs
  · have hlimit : Integer.unsignedLimit = 2 * Integer.signedLimit := by decide
    rw [← Nat.cast_mul]
    exact Int.bmod_eq_of_le_mul_two (by omega) (by omega)
  · push_cast
    rfl

end Machine

namespace Stylesheet

/-! ## Spaces -/

/-- A product that wraps around once at most leaves the spaces as they are meant. -/
theorem wantedSpaces_eq {width level : Nat}
    (h : level * width < Integer.unsignedLimit ∨ Integer.signedLimit ≤ level ∨
      Integer.signedLimit ≤ width) : wantedSpaces width level = level * width := by
  rw [wantedSpaces, spaces?]
  rcases Machine.product_cases h with hproduct | hproduct
  · rw [hproduct, Machine.textLength?_natCast]
  · rw [Machine.textLength?_eq_none_iff.2 (.inl hproduct), Option.getD_none]

/-- Lines of the first level should start with the spaces of one step. -/
theorem wantedSpaces_one (width : Nat) : wantedSpaces width 1 = width := by
  have hlimit : Integer.signedLimit < Integer.unsignedLimit := by decide
  rw [wantedSpaces_eq (by omega), Nat.one_mul]

theorem wantedSpaces_two (level : Nat) : wantedSpaces 2 level = level * 2 := by
  have hlimit : Integer.unsignedLimit = 2 * Integer.signedLimit := by decide
  exact wantedSpaces_eq (by omega)

/-! ## Breakdowns -/

/-- A line whose indentation is looked at and whose spaces no text can hold. -/
def LineStart.IsBeyond (width : Nat) (start : LineStart) : Prop :=
  start.continuing = false ∧ (Machine.product start.level width < 0 ∨
    Machine.longestText < Machine.product start.level width)

theorem LineStart.isSome_breakdown?_iff {width : Nat} {start : LineStart} :
    (start.breakdown? width).isSome = true ↔ start.IsBeyond width := by
  rw [breakdown?, IsBeyond, ← Machine.textLength?_eq_none_iff, ← spaces?]
  cases start.continuing <;> cases spaces? width start.level <;> simp

/-- **A check breaks down exactly at a line that wants more than a text can hold.** -/
theorem isSome_breakdown?_iff {width : Nat} {css : Bytes} :
    (breakdown? width css).isSome = true ↔
      ∃ start ∈ Walk.starts {} (tokenize css), start.IsBeyond width := by
  simp only [breakdown?, List.findSome?_isSome_iff, LineStart.isSome_breakdown?_iff]

theorem length_blocksAfter_le (w : Walk) (t : Token) :
    (blocksAfter w t).length ≤ w.blocks.length + 1 := by
  have hmark : (markContent w.blocks).length = w.blocks.length := by
    cases w.blocks <;> rfl
  cases hkind : t.kind <;> simp [blocksAfter, hkind, hmark]
  omega

/-- No line is nested deeper than there are tokens before it. -/
theorem depth_le_of_mem_starts {w : Walk} {tokens : List Token} {start : LineStart}
    (h : start ∈ w.starts tokens) : start.depth ≤ w.blocks.length + tokens.length := by
  induction tokens generalizing w with
  | nil => cases h
  | cons t rest ih =>
    rw [Walk.starts, List.mem_append, lineStarts] at h
    rcases h with h | h
    · split at h
      · cases h
      · rw [List.mem_singleton.1 h]
        exact Nat.le_add_right _ _
    · have hdepth := ih h
      have hblocks : (w.next t rest).blocks.length ≤ w.blocks.length + 1 :=
        length_blocksAfter_le w t
      rw [List.length_cons]
      omega

/-- There are no more tokens than bytes. -/
theorem length_tokenize_le (css : Bytes) : (tokenize css).length ≤ css.length := by
  have hpos : ∀ n ∈ (chunks tokenLength css).map List.length, 1 ≤ n := by
    rw [List.forall_mem_map]
    exact fun x hx => List.length_pos_of_ne_nil (ne_nil_of_mem_chunks hx)
  have htexts : (tokenize css).map Token.text = chunks tokenLength css := map_text_place _ _
  calc (tokenize css).length = ((chunks tokenLength css).map List.length).length := by
        rw [← htexts, List.length_map, List.length_map]
    _ ≤ ((chunks tokenLength css).map List.length).sum := List.length_le_sum_of_one_le _ hpos
    _ = css.length := by rw [← List.length_flatten, flatten_chunks]

theorem LineStart.level_le (start : LineStart) : start.level ≤ start.depth := by
  unfold level
  split <;> omega

/-- **A check of a short stylesheet does not break down.** -/
theorem breakdown?_eq_none {width : Nat} {css : Bytes}
    (h : css.length * width ≤ Machine.longestText) : breakdown? width css = none := by
  rw [← Option.not_isSome_iff_eq_none, isSome_breakdown?_iff]
  rintro ⟨start, hstart, -, hbeyond⟩
  have hlevel : start.level ≤ css.length := by
    have hdepth := depth_le_of_mem_starts hstart
    have hlength := length_tokenize_le css
    have hle := start.level_le
    simp only [List.length_nil] at hdepth
    omega
  have hproduct : start.level * width ≤ Machine.longestText :=
    (Nat.mul_le_mul_right width hlevel).trans h
  have hlimit : Machine.longestText < Integer.signedLimit := by decide
  rw [Machine.product_of_lt (by omega)] at hbeyond
  omega

end Stylesheet
end TemplateLint
