import Mathlib
import TemplateLint.Proofs.Stylesheet.Lexer
import TemplateLint.Stylesheet.Linter

/-!
# Where issues stand

Every issue stands at a token. An issue about a colour stands at a hash token, one about an empty
block at the brace that opens it and one about an empty line at the brace that closes the block.
An issue about indentation is on the line of a token that is no white space. So the character an
issue is about is in the stylesheet where the issue says.
-/
namespace TemplateLint.Stylesheet
open Bytes

/-- The token that issues of a rule stand at. -/
def Rule.kind? : Rule → Option TokenClass
  | indentation => none
  | invalidHex => some .hash
  | emptyBlock => some .openBrace
  | emptyLineAtEnd => some .closeBrace

/-- A token that an issue stands at. -/
structure Issue.StandsAt (i : Issue) (t : Token) : Prop where
  kind : i.rule.kind? = some t.kind
  line : i.line = t.position.line
  column : i.column = t.position.column

/-! ## The walk -/

/-- The open blocks of a walk were opened by tokens that it has seen. -/
def Walk.OpenedBy (w : Walk) (seen : List Token) : Prop :=
  ∀ block ∈ w.blocks, ∃ t ∈ seen, t.kind = .openBrace ∧ t.position = block.position

theorem exists_of_mem_markContent {blocks : List OpenBlock} {block : OpenBlock}
    (h : block ∈ markContent blocks) : ∃ b ∈ blocks, b.position = block.position := by
  cases blocks with
  | nil => cases h
  | cons b outer =>
    rw [markContent, List.mem_cons] at h
    rcases h with rfl | h
    · exact ⟨b, by simp, rfl⟩
    · exact ⟨block, by simp [h], rfl⟩

/-- A step keeps the blocks opened by tokens that were seen. -/
theorem Walk.OpenedBy.next {w : Walk} {seen : List Token} (h : w.OpenedBy seen) (t : Token)
    (rest : List Token) : (w.next t rest).OpenedBy (seen ++ [t]) := by
  have old : ∀ block ∈ w.blocks,
      ∃ u ∈ seen ++ [t], u.kind = .openBrace ∧ u.position = block.position := by
    intro block hb
    obtain ⟨u, hu, hkind, hposition⟩ := h block hb
    exact ⟨u, by simp [hu], hkind, hposition⟩
  have marked : ∀ block ∈ markContent w.blocks,
      ∃ u ∈ seen ++ [t], u.kind = .openBrace ∧ u.position = block.position := by
    intro block hb
    obtain ⟨b, hb, hposition⟩ := exists_of_mem_markContent hb
    rw [← hposition]
    exact old b hb
  intro block hb
  rw [Walk.next, blocksAfter] at hb
  split at hb
  · exact old block hb
  · exact old block hb
  · next hkind =>
    rcases List.mem_cons.1 hb with rfl | hb
    · exact ⟨t, by simp, hkind, rfl⟩
    · exact marked block hb
  · exact old block (List.mem_of_mem_tail hb)
  · exact marked block hb

/-- What a token says stands at it or at the brace of a block that is open. -/
theorem standsAt_of_mem_tokenIssues {w : Walk} {seen : List Token} (h : w.OpenedBy seen)
    {t : Token} {i : Issue} (hi : i ∈ tokenIssues w t) : ∃ u ∈ seen ++ [t], i.StandsAt u := by
  rw [tokenIssues] at hi
  split at hi
  · next hkind =>
    rw [closeIssues] at hi
    split at hi
    · cases hi
    · next block outer hblocks =>
      split at hi
      · obtain ⟨u, hu, hopen, hposition⟩ := h block (by simp [hblocks])
        rw [List.mem_singleton] at hi
        subst hi
        exact ⟨u, by simp [hu], by rw [hopen]; rfl, by rw [hposition], by rw [hposition]⟩
      · split at hi
        · rw [List.mem_singleton] at hi
          subst hi
          exact ⟨t, by simp, by rw [hkind]; rfl, rfl, rfl⟩
        · cases hi
  · next hkind =>
    rw [hashIssues] at hi
    split at hi
    · rw [List.mem_singleton] at hi
      subst hi
      exact ⟨t, by simp, by rw [hkind]; rfl, rfl, rfl⟩
    · cases hi
  · cases hi

/-- Everything a walk says stands at tokens. -/
theorem standsAt_of_mem_walk {w : Walk} {seen tokens : List Token} (h : w.OpenedBy seen)
    {i : Issue} (hi : i ∈ w.issues tokens) : ∃ t ∈ seen ++ tokens, i.StandsAt t := by
  induction tokens generalizing w seen with
  | nil => cases hi
  | cons t rest ih =>
    rw [Walk.issues, List.mem_append] at hi
    rcases hi with hi | hi
    · obtain ⟨u, hu, hstands⟩ := standsAt_of_mem_tokenIssues h hi
      refine ⟨u, ?_, hstands⟩
      rw [List.append_cons]
      exact List.mem_append_left rest hu
    · have hrest := ih (h.next t rest) hi
      rwa [← List.append_cons] at hrest

/-- Everything a walk over a whole stylesheet says stands at its tokens. -/
theorem standsAt_of_mem_issues {tokens : List Token} {i : Issue} (hi : i ∈ Walk.issues {} tokens) :
    ∃ t ∈ tokens, i.StandsAt t := by
  have hstart : ({} : Walk).OpenedBy [] := fun block hb => by cases hb
  exact standsAt_of_mem_walk hstart hi

/-- A line starts at a token that is no white space. -/
theorem exists_of_mem_starts {w : Walk} {tokens : List Token} {start : LineStart}
    (h : start ∈ w.starts tokens) :
    ∃ t ∈ tokens, t.kind ≠ .space ∧ start.line = t.position.line := by
  induction tokens generalizing w with
  | nil => cases h
  | cons t rest ih =>
    rw [Walk.starts, List.mem_append, lineStarts] at h
    rcases h with h | h
    · split at h
      · cases h
      · next hkind =>
        rw [List.mem_singleton] at h
        subst h
        exact ⟨t, by simp, fun hs => hkind (by simp [hs]), rfl⟩
    · obtain ⟨u, hu, hkind, hline⟩ := ih h
      exact ⟨u, by simp [hu], hkind, hline⟩

/-- What is said about a line is about its indentation. -/
theorem of_mem_indentIssues {width : Nat} {lines : List Bytes} {start : LineStart} {i : Issue}
    (hi : i ∈ indentIssues width lines start) :
    i.rule = .indentation ∧ i.line = start.line ∧ 1 ≤ i.column := by
  rw [indentIssues] at hi
  split at hi
  · cases hi
  · rw [List.mem_singleton] at hi
    subst hi
    exact ⟨rfl, rfl, Nat.le_add_left 1 _⟩

/-! ## Issues of a stylesheet -/

/-- Every issue is on the line of a token that is no white space, and stands at that token unless
it is about indentation. -/
theorem exists_token_of_mem_issues {width : Nat} {css : Bytes} {i : Issue}
    (h : i ∈ issues width css) :
    ∃ t ∈ tokenize css, t.kind ≠ .space ∧ i.line = t.position.line ∧
      (i.rule ≠ .indentation → i.StandsAt t) := by
  rw [issues, List.mem_append] at h
  rcases h with h | h
  · obtain ⟨t, ht, hstands⟩ := standsAt_of_mem_issues h
    refine ⟨t, ht, ?_, hstands.line, fun _ => hstands⟩
    intro hspace
    have hkind := hstands.kind
    rw [hspace] at hkind
    cases hrule : i.rule <;> rw [hrule] at hkind <;> cases hkind
  · obtain ⟨start, hstart, h⟩ := List.mem_flatMap.1 h
    obtain ⟨t, ht, hkind, hline⟩ := exists_of_mem_starts hstart
    obtain ⟨hrule, hsame, -⟩ := of_mem_indentIssues h
    exact ⟨t, ht, hkind, hsame.trans hline, fun hne => absurd hrule hne⟩

theorem one_le_column_of_mem_place {p : Position} (hp : 1 ≤ p.column) {xs : List Bytes}
    {t : Token} (h : t ∈ Token.place p xs) : 1 ≤ t.position.column := by
  induction xs generalizing p with
  | nil => cases h
  | cons x xs ih =>
    rw [Token.place, List.mem_cons] at h
    rcases h with rfl | h
    · exact hp
    · exact ih (Position.one_le_column_after hp x) h

/-- Every issue stands at a column. -/
theorem one_le_column_of_mem_issues {width : Nat} {css : Bytes} {i : Issue}
    (h : i ∈ issues width css) : 1 ≤ i.column := by
  rw [issues, List.mem_append] at h
  rcases h with h | h
  · obtain ⟨t, ht, hstands⟩ := standsAt_of_mem_issues h
    rw [hstands.column]
    exact one_le_column_of_mem_place (Nat.le_refl 1) ht
  · obtain ⟨start, -, h⟩ := List.mem_flatMap.1 h
    exact (of_mem_indentIssues h).2.2

/-- The byte that tokens of a class start with, for the classes that issues stand at. -/
def TokenClass.firstByte? : TokenClass → Option UInt8
  | openBrace => some Byte.openBrace
  | closeBrace => some Byte.closeBrace
  | hash => some Byte.hash
  | _ => none

theorem text_of_firstByte? {text : Bytes} {b : UInt8}
    (h : (TokenClass.ofText text).firstByte? = some b) : ∃ s, text = b :: s := by
  cases text with
  | nil => cases h
  | cons a s =>
    refine ⟨s, congrArg (· :: s) ?_⟩
    rw [TokenClass.ofText] at h
    split at h
    · cases h
    split at h
    · next ha =>
      cases h
      exact ha
    split at h
    · next ha =>
      cases h
      exact ha
    split at h
    · cases h
    split at h
    · cases h
    split at h
    · next ha =>
      split at h
      · cases h
      · cases h
        exact ha
    split at h
    · split at h <;> cases h
    · cases h

theorem ascii_of_firstByte? {kind : TokenClass} {b : UInt8} (h : kind.firstByte? = some b) :
    b < 0x80 := by
  cases kind <;> cases h <;> decide

theorem isSpace_of_kind {b : UInt8} {s : Bytes} (h : TokenClass.ofText (b :: s) ≠ .space) :
    isSpace b = false := by
  rw [Bool.eq_false_iff]
  intro hb
  exact h (by rw [TokenClass.ofText, if_pos hb])

/-- A token that is no white space shows a character where it stands. -/
theorem runeAt?_of_mem_tokenize {css : Bytes} (h : isUtf8 css) {t : Token}
    (ht : t ∈ tokenize css) (hkind : t.kind ≠ .space) :
    ∃ r, css.runeAt? t.position.line t.position.column = some r ∧
      ∀ b, t.kind.firstByte? = some b → r = .ofByte b := by
  obtain ⟨a, rest, rfl, ha, hne, hposition, hclass⟩ := exists_split_of_mem_place h ht
  obtain ⟨c, s, htext⟩ := List.exists_cons_of_ne_nil hne
  rw [hclass, htext] at hkind
  rw [htext, List.cons_append] at h ⊢
  have hnewline : (Rune.first c (s ++ rest)).isNewline = false := by
    by_contra hn
    have hfirst := Rune.encode_first_append c (s ++ rest)
    rw [Bool.not_eq_false] at hn
    rw [Rune.eq_of_isNewline hn] at hfirst
    obtain ⟨rfl, -⟩ := List.cons.inj hfirst
    exact absurd (isSpace_of_kind hkind) (by decide)
  rw [hposition]
  refine ⟨_, Position.runeAt?_after ha (isUtf8_of_append h ha) (Rune.decode_cons c _) hnewline, ?_⟩
  intro b hb
  rw [hclass] at hb
  obtain ⟨u, hu⟩ := text_of_firstByte? hb
  obtain ⟨rfl, -⟩ := List.cons.inj (htext.symm.trans hu)
  have hascii := Rune.decode_ascii_cons (ascii_of_firstByte? hb) (s ++ rest)
  rw [Rune.decode_cons] at hascii
  exact (List.cons.inj hascii).1

/-- The character that issues of a rule are about. -/
def Rule.mark? (rule : Rule) : Option UInt8 := rule.kind?.bind TokenClass.firstByte?

/-- **An issue points at the character it is about.** Its line has characters, and unless it is
about indentation the first character of its token stands where it says. -/
theorem runeAt?_of_mem_issues {width : Nat} {css : Bytes} (h : isUtf8 css) {i : Issue}
    (hi : i ∈ issues width css) :
    (∃ column r, css.runeAt? i.line column = some r) ∧
      ∀ b, i.rule.mark? = some b → css.runeAt? i.line i.column = some (.ofByte b) := by
  obtain ⟨t, ht, hspace, hline, hstands⟩ := exists_token_of_mem_issues hi
  obtain ⟨r, hr, hfirst⟩ := runeAt?_of_mem_tokenize h ht hspace
  rw [hline]
  refine ⟨⟨_, r, hr⟩, ?_⟩
  intro b hmark
  obtain ⟨kind, hkind, hb⟩ := Option.bind_eq_some_iff.1 hmark
  have hrule : i.rule ≠ .indentation := fun hrule => by
    rw [hrule] at hkind
    cases hkind
  have hat := hstands hrule
  rw [hat.kind, Option.some.injEq] at hkind
  rw [hat.column, hr, hfirst b (hkind ▸ hb)]

/-! ## Findings of a linter -/

theorem exists_issue_of_mem_findings {linter : Linter} {css : Bytes} {f : Finding}
    (h : f ∈ linter.findings css) : ∃ i ∈ issues linter.width css, linter.finding i = f := by
  obtain ⟨i, hi, rfl⟩ := List.mem_map.1 h
  exact ⟨i, List.mem_of_mem_filter (List.mem_mergeSort.1 hi), rfl⟩

theorem Rule.name_injective {a b : Rule} (h : a.name = b.name) : a = b := by
  revert h
  cases a <;> cases b <;> decide +kernel

/-- A linter finds nothing in an empty stylesheet. -/
theorem findings_nil (linter : Linter) : linter.findings [] = [] := by
  have hissues : issues linter.width [] = [] := rfl
  rw [Linter.findings, hissues, List.filter_nil, List.mergeSort_nil, List.map_nil]

end TemplateLint.Stylesheet
