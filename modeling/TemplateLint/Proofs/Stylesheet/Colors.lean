import Mathlib
import TemplateLint.Proofs.Stylesheet.Blocks

/-!
# The colour rule looks at values only

Boundaries, that is braces and semicolons, cut the tokens into segments. A hash token belongs to the
value of a declaration when a block is open, a colon comes before it in its segment, and the segment
does not end in the brace of a block. The walk decides this at the colon, by a look ahead, and keeps
a flag up to the next boundary. The flag says what the segment says, so a colour is reported exactly
when it is written wrong and stands in the value of a declaration.
-/
namespace TemplateLint.Stylesheet
open Bytes

/-- `#` and exactly three, four, six or eight hexadecimal digits. -/
def IsColor (text : Bytes) : Prop :=
  ∃ digits, text = Byte.hash :: digits ∧ (∀ d ∈ digits, Byte.isHexDigit d = true) ∧
    (digits.length = 3 ∨ digits.length = 4 ∨ digits.length = 6 ∨ digits.length = 8)

theorem isHexColor_iff {text : Bytes} : isHexColor text = true ↔ IsColor text := by
  cases text with
  | nil => simp [isHexColor, IsColor]
  | cons b digits =>
    simp only [isHexColor, IsColor, Bool.and_eq_true, Bool.or_eq_true, beq_iff_eq,
      List.all_eq_true, List.cons.injEq]
    constructor
    · rintro ⟨⟨rfl, hdigits⟩, hlength⟩
      exact ⟨digits, ⟨rfl, rfl⟩, hdigits, by omega⟩
    · rintro ⟨_, ⟨rfl, rfl⟩, hdigits, hlength⟩
      exact ⟨⟨rfl, hdigits⟩, by omega⟩

instance (text : Bytes) : Decidable (IsColor text) := decidable_of_iff _ isHexColor_iff

/-- The tokens behind the last boundary. -/
def segment (seen : List Token) : List Token := seen.rtakeWhile fun t => !t.isBoundary

/-- The token at `j` stands in the value of a declaration: a brace before it is still open, a colon
comes between the closest boundary before it and itself, and the closest boundary behind it, if
there is one, opens no block. -/
def InValue (tokens : List Token) (j : Nat) : Prop :=
  openBraces (tokens.take j) ≠ [] ∧ (∃ t ∈ segment (tokens.take j), t.kind = .colon) ∧
    ∀ t, t ∈ (tokens.drop (j + 1)).find? Token.isBoundary → t.kind ≠ .openBrace

instance (tokens : List Token) (j : Nat) : Decidable (InValue tokens j) :=
  inferInstanceAs (Decidable (_ ∧ _ ∧ _))

/-! ## The walk -/

theorem segment_concat (seen : List Token) (t : Token) :
    segment (seen ++ [t]) = if t.isBoundary then [] else segment seen ++ [t] := by
  rw [segment, List.rtakeWhile_concat, segment]
  cases t.isBoundary <;> rfl

/-- A token that is no boundary is passed over when the next boundary is looked for. -/
theorem opensBlock_cons {t : Token} (ht : t.isBoundary = false) (rest : List Token) :
    opensBlock (t :: rest) = opensBlock rest := by
  rw [opensBlock, opensBlock, List.find?_cons_of_neg (by simp [ht])]

/-- A token between two boundaries opens and closes nothing. -/
theorem openBraces_of_not_isBoundary {t : Token} (ht : t.isBoundary = false)
    (seen : List Token) : openBraces (seen ++ [t]) = openBraces seen := by
  rw [openBraces_concat]
  cases hkind : t.kind <;> simp_all [Token.isBoundary]

/-- Only a colon changes the flag between two boundaries. -/
theorem inValueAfter_of_not_isBoundary (w : Walk) {t : Token} (ht : t.isBoundary = false)
    (rest : List Token) :
    inValueAfter w t rest =
      (w.inValue || (t.kind == .colon && !w.blocks.isEmpty && !opensBlock rest)) := by
  rw [inValueAfter]
  cases hkind : t.kind with
  | openBrace => simp [Token.isBoundary, hkind] at ht
  | closeBrace => simp [Token.isBoundary, hkind] at ht
  | semicolon => simp [Token.isBoundary, hkind] at ht
  | colon => simp
  | space => exact (Bool.or_false _).symm
  | comment => exact (Bool.or_false _).symm
  | hash => exact (Bool.or_false _).symm
  | other => exact (Bool.or_false _).symm

theorem inValueAfter_of_isBoundary (w : Walk) {t : Token} (ht : t.isBoundary = true)
    (rest : List Token) : inValueAfter w t rest = false := by
  rw [inValueAfter]
  cases hkind : t.kind <;> simp_all [Token.isBoundary]

/-- **The flag of a walk says what the segment says.** -/
theorem Walk.inValue_eq (seen rest : List Token) :
    (through {} seen rest).inValue =
      (!(openBraces seen).isEmpty && (segment seen).any (fun t => t.kind == .colon) &&
        !opensBlock rest) := by
  induction seen using List.reverseRecOn generalizing rest with
  | nil => rfl
  | append_singleton seen t ih =>
    rw [through_concat, next, segment_concat]
    by_cases ht : t.isBoundary = true
    · simp [inValueAfter_of_isBoundary _ ht, ht]
    · rw [Bool.not_eq_true] at ht
      -- the boundary that is looked for at `t` is the one that is looked for behind it
      simp only [inValueAfter_of_not_isBoundary _ ht, ih, opensBlock_cons ht, blocks_through,
        openBraces_of_not_isBoundary ht, ht, List.isEmpty_map, Bool.false_eq_true, if_false,
        List.any_append, List.any_cons, List.any_nil, Bool.or_false]
      cases (openBraces seen).isEmpty <;> cases opensBlock rest <;> simp

/-- At a token that is no boundary, the flag says whether the token stands in a value. -/
theorem Walk.inValue_atIndex {tokens : List Token} {j : Nat} {t : Token}
    (ht : tokens[j]? = some t) (hboundary : t.isBoundary = false) :
    (atIndex tokens j).inValue = true ↔ InValue tokens j := by
  obtain ⟨hj, rfl⟩ := List.getElem?_eq_some_iff.1 ht
  have hahead : opensBlock (tokens.drop (j + 1)) = false ↔
      ∀ t, t ∈ (tokens.drop (j + 1)).find? Token.isBoundary → t.kind ≠ .openBrace := by
    rw [opensBlock]
    cases (tokens.drop (j + 1)).find? Token.isBoundary <;> simp
  rw [atIndex, inValue_eq, List.drop_eq_getElem_cons hj, opensBlock_cons hboundary, InValue,
    ← hahead]
  simp [and_assoc]

/-! ## The rule -/

/-- What a hash token says about itself. -/
theorem filter_invalidHex {tokens : List Token} {j : Nat} {t : Token} (ht : tokens[j]? = some t)
    (hkind : t.kind = .hash) :
    (tokenIssues (Walk.atIndex tokens j) t).filter (Issue.isAt .invalidHex t.position) =
      if ¬ IsColor t.text ∧ InValue tokens j then
        [t.issue .invalidHex
          (Bytes.ofString "Unexpected invalid hex color " ++ Quoted.quote t.text)]
      else [] := by
  have hvalue := Walk.inValue_atIndex ht (by simp [Token.isBoundary, hkind])
  have hcolor : (!isHexColor t.text) = true ↔ ¬ IsColor t.text := by
    rw [← isHexColor_iff, Bool.not_eq_true']
    simp
  rw [tokenIssues, hkind]
  simp only [hashIssues, Bool.and_eq_true, hvalue, hcolor]
  by_cases hbad : ¬ IsColor t.text ∧ InValue tokens j
  · rw [if_pos hbad, if_pos hbad.symm]
    simp [Token.issue, Issue.isAt]
  · rw [if_neg hbad, if_neg fun h => hbad h.symm, List.filter_nil]

/-- **The colour rule looks at exactly the values of declarations.** A hash token is reported, once,
exactly when it is no colour and stands in a value, and nothing else is reported. -/
theorem Linter.color_rule_exact (linter : Linter) (css : Bytes)
    (hreports : linter.reports .invalidHex = true) :
    (∀ (j : Nat) (t : Token), (tokenize css)[j]? = some t → t.kind = .hash →
      linter.reported css .invalidHex t.position =
        if ¬ IsColor t.text ∧ InValue (tokenize css) j then
          [linter.finding (t.issue .invalidHex
            (Bytes.ofString "Unexpected invalid hex color " ++ Quoted.quote t.text))]
        else []) ∧
      ∀ f ∈ (linter.lint css).findings, f.rule = Rule.invalidHex.name →
        ∃ t ∈ tokenize css, t.kind = .hash ∧ f.line = t.position.line ∧
          f.column = t.position.column := by
  refine ⟨?_, ?_⟩
  · intro j t ht hkind
    have hother : Rule.invalidHex ≠ .emptyBlock := by decide
    have hwalk := Walk.filter_issues_isAt hother ht
    rw [filter_invalidHex ht hkind] at hwalk
    rw [linter.reported_eq hreports (by decide) ?_ hwalk]
    · split_ifs <;> rfl
    · split_ifs <;> simp
  · intro f hf hrule
    exact linter.exists_token_of_mem_findings hf hrule rfl

/-- Hash tokens outside a block, in a selector behind a colon, in two values and behind a colon that
no block holds. -/
def hashesSample : Bytes :=
  Bytes.ofString "a:#gg; b \x7b c:is(#gg) \x7b d: #gg #fff e:#12345 \x7d \x7d f:#gg"

/-- A value of the sample that is no colour is reported. A colour, a hash in a selector and one
outside every block are not. -/
theorem hashesSample_rule_exact :
    ({} : Linter).reports .invalidHex = true ∧
      (({} : Linter).reported hashesSample .invalidHex ⟨1, 27⟩).length = 1 ∧
      ({} : Linter).reported hashesSample .invalidHex ⟨1, 31⟩ = [] ∧
      ({} : Linter).reported hashesSample .invalidHex ⟨1, 17⟩ = [] ∧
      ({} : Linter).reported hashesSample .invalidHex ⟨1, 51⟩ = [] := by
  obtain ⟨hhash, -⟩ := Linter.color_rule_exact {} hashesSample rfl
  refine ⟨rfl, ?_, ?_, ?_, ?_⟩
  · rw [hhash 20 ⟨.hash, Bytes.ofString "#gg", ⟨1, 27⟩⟩ (by decide +kernel) rfl,
      if_pos (by decide +kernel), List.length_singleton]
  · rw [hhash 22 ⟨.hash, Bytes.ofString "#fff", ⟨1, 31⟩⟩ (by decide +kernel) rfl,
      if_neg (by decide +kernel)]
  · rw [hhash 12 ⟨.hash, Bytes.ofString "#gg", ⟨1, 17⟩⟩ (by decide +kernel) rfl,
      if_neg (by decide +kernel)]
  · rw [hhash 34 ⟨.hash, Bytes.ofString "#gg", ⟨1, 51⟩⟩ (by decide +kernel) rfl,
      if_neg (by decide +kernel)]

end TemplateLint.Stylesheet
