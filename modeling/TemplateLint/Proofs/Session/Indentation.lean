import Mathlib
import TemplateLint.Proofs.Session.Lint
import TemplateLint.Proofs.Stylesheet.Breakdown
import TemplateLint.Proofs.Stylesheet.Nesting
import TemplateLint.Proofs.Template.Literal

/-!
# The width of indentation in templates

A template is moved to the indentation of its block, which is two spaces, and keeps the steps it is
written with. The linter asks for its own width at every level. So a template that is written with
steps of some width is found well indented by a linter of that width exactly when it is two.
-/
namespace TemplateLint
open Bytes Stylesheet

/-! ## Sources -/

namespace Stylesheet

/-- What stands before the content of a template. -/
def sourceOpening : Bytes :=
  Bytes.ofString "import styled from 'styled-components'\nconst A = styled.div`"

namespace Content

/-- The content as it is written in a template, every level `n` spaces further in. -/
def written (n : Nat) (content : Content) : Bytes :=
  Byte.newline :: layout (fun d => n * (d + 1)) (content.rows 0)

/-- A source with one template that holds the content. -/
def source (n : Nat) (content : Content) : Bytes :=
  sourceOpening ++ (content.written n ++ [Byte.backtick, Byte.newline])

end Content

theorem isRowByte_of_mem_line {lead : Nat → Nat} {row : Row} {b : UInt8}
    (hb : b ∈ row.line lead) : isRowByte b = true := by
  rcases List.mem_append.1 hb with hb | hb
  · rw [List.eq_of_mem_replicate hb]
    rfl
  · exact row.isRowByte_of_mem hb

theorem mem_layout {lead : Nat → Nat} {rows : List Row} {b : UInt8} (hb : b ∈ layout lead rows) :
    b = Byte.newline ∨ isRowByte b = true := by
  obtain ⟨row, -, hb⟩ := List.mem_flatMap.1 hb
  rcases List.mem_append.1 hb with hb | hb
  · exact .inr (isRowByte_of_mem_line hb)
  · exact .inl (List.mem_singleton.1 hb)

/-- A row ends in a byte that is neither white space nor part of a character. -/
theorem Row.exists_text_eq (row : Row) : ∃ s b, row.text = s ++ [b] ∧
    (b = Byte.semicolon ∨ b = Byte.openBrace ∨ b = Byte.closeBrace) := by
  cases row with
  | declaration level property value =>
    exact ⟨property.text ++ Byte.colon :: Byte.space :: value.text, Byte.semicolon,
      by simp [text, texts], by simp⟩
  | opening level selector =>
    exact ⟨selector.texts.flatten ++ [Byte.space], Byte.openBrace, by simp [text, texts], by simp⟩
  | closing level => exact ⟨[], Byte.closeBrace, rfl, by simp⟩

theorem Row.isBlank_line (lead : Nat → Nat) (row : Row) : isBlank (row.line lead) = false := by
  obtain ⟨s, b, htext, hb⟩ := row.exists_text_eq
  have hascii : b < 0x80 ∧ Blank.isBlankRune (.char (Char.ofNat b.toNat)) = false := by
    rcases hb with rfl | rfl | rfl <;> decide
  rw [line, htext, ← List.append_assoc, isBlank,
    Rune.decode_append_cons (Rune.isTail_of_ascii hascii.1), Rune.decode_ascii_cons hascii.1]
  simp [hascii.2]

/-- The row one level further in. -/
def Row.deeper : Row → Row
  | declaration level property value => declaration (level + 1) property value
  | opening level selector => opening (level + 1) selector
  | closing level => closing (level + 1)

theorem Row.level_deeper (row : Row) : row.deeper.level = row.level + 1 := by
  cases row <;> rfl

theorem Row.text_deeper (row : Row) : row.deeper.text = row.text := by
  cases row <;> rfl

theorem Content.rows_succ (content : Content) (d : Nat) :
    content.rows (d + 1) = (content.rows d).map Row.deeper := by
  induction content generalizing d with
  | declaration property value => rfl
  | block selector inner ih => simp [rows, ih (d + 1), Row.deeper]
  | both first second ihf ihs => simp [rows, ihf d, ihs d]

/-- The lead of rows that are moved into a block. -/
def movedLead (n : Nat) : Nat → Nat
  | 0 => 0
  | d + 1 => 2 + n * d

/-- A row loses the common lead of its template and gets the indentation of the block. -/
theorem Row.line_deeper (n : Nat) (row : Row) :
    blockIndent ++ trimRight Byte.isIndent ((row.line fun d => n * (d + 1)).drop n) =
      row.deeper.line (movedLead n) := by
  obtain ⟨s, b, htext, hb⟩ := row.exists_text_eq
  have hindent : Byte.isIndent b = false := by
    rcases hb with rfl | rfl | rfl <;> decide
  have hdrop : (row.line fun d => n * (d + 1)).drop n =
      List.replicate (n * row.level) Byte.space ++ row.text := by
    have hle : n ≤ n * (row.level + 1) := Nat.le_mul_of_pos_right n (Nat.succ_pos row.level)
    rw [line, List.drop_append_of_le_length (by rwa [List.length_replicate]), List.drop_replicate,
      Nat.mul_succ, Nat.add_sub_cancel]
  have hblock : blockIndent = List.replicate 2 Byte.space := by decide +kernel
  rw [hdrop, htext, ← List.append_assoc, Glyph.trimRight_append_of_neg hindent, List.append_assoc,
    ← htext, line, level_deeper, text_deeper, movedLead, hblock, List.replicate_add,
    List.append_assoc]

theorem Row.isUtf8_text (row : Row) : isUtf8 row.text = true := by
  rw [text, ← List.flatMap_id]
  exact isUtf8_flatMap (row.forall_mem_texts Ident.utf8 (by simp; decide))

theorem isUtf8_layout (lead : Nat → Nat) (rows : List Row) : isUtf8 (layout lead rows) = true := by
  refine isUtf8_flatMap fun row _ => ?_
  have hspaces : isUtf8 (List.replicate (lead row.level) Byte.space) = true := by
    refine isUtf8_of_ascii fun b hb => ?_
    rw [List.eq_of_mem_replicate hb]
    decide
  rw [Row.line, List.append_assoc, isUtf8_append hspaces, isUtf8_append row.isUtf8_text]
  rfl

namespace Content

theorem isUtf8_source (n : Nat) (content : Content) : isUtf8 (content.source n) = true := by
  have hopening : isUtf8 sourceOpening = true := by decide +kernel
  have hwritten : isUtf8 (content.written n) = true := by
    rw [written, isUtf8_ascii_cons (by decide), isUtf8_layout]
  rw [source, isUtf8_append hopening, isUtf8_append hwritten]
  rfl

theorem imports_source (n : Nat) (content : Content) :
    ModuleImport.imports (content.source n) defaultModule = true := by
  have hopening : sourceOpening = Bytes.ofString "import styled from " ++
      (Byte.singleQuote :: (defaultModule ++ [Byte.singleQuote] ++
        Bytes.ofString "\nconst A = styled.div`")) := by decide +kernel
  have hsource : content.source n = Bytes.ofString "import styled from " ++
      (Byte.singleQuote :: (defaultModule ++ [Byte.singleQuote] ++
        (Bytes.ofString "\nconst A = styled.div`" ++
          (content.written n ++ [Byte.backtick, Byte.newline])))) := by
    rw [source, hopening]
    simp
  have hfound : ModuleImport.importsFrom (Byte.singleQuote :: (defaultModule ++ [Byte.singleQuote]))
      [] 0 (content.source n) = true := by
    rw [hsource]
    exact ModuleImport.importsFrom_of_announces (by decide +kernel) (by decide +kernel) _
  have hname : defaultModule.isEmpty = false := by decide +kernel
  simp only [ModuleImport.imports, hname, List.cons_append, hfound]
  rfl

theorem templates_source (n : Nat) (content : Content) :
    Scan.templates (content.source n) = .ok [⟨.styled, sourceOpening.length - 1,
      sourceOpening.length + (content.written n).length,
      [⟨false, content.written n, sourceOpening.length⟩]⟩] := by
  have hbyte : ∀ b, b = Byte.newline ∨ isRowByte b = true → Scan.State.isLiteral b = true := by
    decide +kernel
  refine Scan.templates_literal ?_ (by simp [written]) ?_
  · rw [written, List.head?_cons]
    decide +kernel
  · intro b hb
    rcases List.mem_cons.1 hb with rfl | hb
    · rfl
    · exact hbyte b (mem_layout hb)

/-- The lines of the content between the backticks. -/
theorem lines_written (n : Nat) (content : Content) :
    lines (content.written n) =
      [] :: (content.rows 0).map (Row.line fun d => n * (d + 1)) ++ [[]] := by
  have hlayout : lines (layout (fun d => n * (d + 1)) (content.rows 0)) =
      (content.rows 0).map (Row.line fun d => n * (d + 1)) ++ [[]] :=
    lines_flatMap fun row _ => row.newline_not_mem_line _
  rw [written, ← List.nil_append (Byte.newline :: _), lines_append_newline (by simp), hlayout,
    List.cons_append]

/-- The first level is the common lead. -/
theorem min?_leads (n : Nat) (content : Content) :
    (((content.rows 0).map (Row.line fun d => n * (d + 1))).map fun s =>
      (s.takeWhile Byte.isIndent).length).min? = some n := by
  obtain ⟨first, rest, hrows, hfirst⟩ := content.exists_rows_eq_cons 0
  simp only [List.map_map, Function.comp_def, Row.takeWhile_line, List.length_replicate]
  rw [List.min?_eq_some_iff]
  refine ⟨?_, ?_⟩
  · rw [hrows, List.map_cons, hfirst]
    simp
  · intro m hm
    obtain ⟨row, -, rfl⟩ := List.mem_map.1 hm
    exact Nat.le_mul_of_pos_right n (Nat.succ_pos row.level)

end Content

/-- The name that the block of a lone template gets. -/
def loneName : Ident where
  text := Bytes.ofString "selector0"
  bytes := by decide +kernel
  ident := by decide +kernel
  utf8 := by decide +kernel

/-- The fragment of a written content is the content in a block, moved as a whole. -/
theorem Content.exists_fragment (n : Nat) (content : Content) (id : Bytes) :
    ∃ fragment, Fragment.extract (content.source n) id defaultModule = .ok fragment ∧
      fragment.placeholderLines = [] ∧
      fragment.css = layout (movedLead n) ((block (.cls loneName) content).rows 0) := by
  have hreturn : Byte.carriageReturn ∉ content.written n := by
    intro h
    rcases List.mem_cons.1 h with h | h
    · exact absurd h (by decide)
    · exact absurd (mem_layout h) (by decide)
  have hheader : Tag.styled.header 0 =
      some ((Row.opening 0 (.cls loneName)).line (movedLead n)) := by
    change Tag.styled.header 0 = some (Row.opening 0 (.cls loneName)).text
    decide +kernel
  have hlines := content.lines_written n
  have hblank : ∀ s ∈ (content.rows 0).map (Row.line fun d => n * (d + 1)), isBlank s = false :=
    List.forall_mem_map.2 fun row _ => row.isBlank_line _
  obtain ⟨htexts, hplain⟩ := Template.fragmentLines_literal
    (t := ⟨.styled, sourceOpening.length - 1, sourceOpening.length + (content.written n).length,
      [⟨false, content.written n, sourceOpening.length⟩]⟩) rfl hreturn hheader hlines hblank
    (content.min?_leads n)
  refine ⟨_, Fragment.extract_singleton (content.isUtf8_source n) (content.imports_source n)
    (content.templates_source n) id, Fragment.placeholderLines_eq_nil hplain, ?_⟩
  have hrows : ((block (.cls loneName) content).rows 0).map (Row.line (movedLead n)) =
      (Row.opening 0 (.cls loneName)).line (movedLead n) ::
        ((content.rows 0).map (Row.line fun d => n * (d + 1))).map (fun s =>
          blockIndent ++ trimRight Byte.isIndent (s.drop n)) ++ [[Byte.closeBrace]] := by
    simp only [rows, rows_succ, List.map_cons, List.map_append, List.map_map, List.map_nil,
      Function.comp_def, Row.line_deeper]
    rfl
  rw [← hrows] at htexts
  have hcss (ls : List FragmentLine) : (Fragment.ofLines ls).css =
      (ls.map FragmentLine.text).flatMap fun s => s ++ [Byte.newline] := by
    rw [List.flatMap_map]
    rfl
  rw [hcss, htexts, List.flatMap_map]
  rfl

end Stylesheet

/-! ## Findings -/

/-- A rule that a linter reports is found broken in a fragment without placeholders exactly when
there is an issue about it. -/
theorem Setting.rule_ne_iff {s : Setting} (hdir : Path.isAbsolute s.directory = true)
    {linter : Linter} {rule : Rule} (hreports : linter.reports rule = true)
    {source path : Bytes} {fragment : Fragment}
    (hx : s.extractor source (s.identify path {}).1 = .ok fragment)
    (hplain : fragment.placeholderLines = []) :
    (∀ f ∈ (s.lintSource linter.lint source path {}).1.verdict.findings, f.rule ≠ rule.name) ↔
      ∀ i ∈ issues linter.width fragment.css, i.rule ≠ rule := by
  rw [lintSource, verdict_of_ok hdir hx]
  constructor
  · intro h i hi hrule
    have hraw : linter.finding i ∈ linter.findings fragment.css := by
      refine List.mem_map_of_mem (List.mem_mergeSort.2 (List.mem_filter.2 ⟨hi, ?_⟩))
      rw [hrule, hreports]
    refine h _ (List.mem_map_of_mem (List.mem_filter.2 ⟨hraw, ?_⟩)) (congrArg Rule.name hrule)
    simp [Entry.isCausedByPlaceholder, Entry.addFragment, hplain, Journal.entry]
  · intro h f hf hrule
    obtain ⟨raw, hraw, rfl⟩ := List.mem_map.1 hf
    obtain ⟨i, hi, rfl⟩ := exists_issue_of_mem_findings (List.mem_of_mem_filter hraw)
    exact h i hi (Rule.name_injective hrule)

/-- The levels that a linter asks for are those of a moved template only for the width of the
indentation of its block. -/
theorem Stylesheet.movedLead_eq_iff (n : Nat) (content : Content) (selector : Selector) :
    (∀ row ∈ (Content.block selector content).rows 0,
      movedLead n row.level = wantedSpaces n row.level) ↔ n = 2 := by
  constructor
  · intro h
    -- the first row stands at the indentation of the block and has to stand at one step
    obtain ⟨row, rest, hrows, hlevel⟩ := content.exists_rows_eq_cons 1
    have hrow := h row (by simp [Content.rows, hrows])
    rw [hlevel, movedLead, wantedSpaces_one] at hrow
    omega
  · rintro rfl row -
    rw [wantedSpaces_two]
    cases hlevel : row.level with
    | zero => rfl
    | succ d =>
      rw [movedLead]
      omega

/-- **Steps of two spaces are the only ones that are found well indented.** A content that is
written in a template with `n` spaces for every level is linted with a width of `n`. No finding is
about its indentation exactly when `n` is two. -/
theorem Setting.written_well_indented_iff {s : Setting} (hdir : Path.isAbsolute s.directory = true)
    (hmodule : s.moduleName = defaultModule) {n : Nat} (hn : 1 ≤ n) (content : Content)
    (path : Bytes) :
    ∃ linter, Linter.ofConfig { indent := n } = .ok linter ∧
      ((∀ f ∈ (s.lintSource linter.lint (content.source n) path {}).1.verdict.findings,
        f.rule ≠ Rule.indentation.name) ↔ n = 2) := by
  have hconfig : Linter.ofConfig { indent := n } = .ok { width := n } := by
    have hpos : (0 : Int) < n := by omega
    simp only [Linter.ofConfig, List.mapM_nil, hpos, if_true, Int.toNat_natCast]
    rfl
  refine ⟨{ width := n }, hconfig, ?_⟩
  obtain ⟨fragment, hx, hplain, hcss⟩ := content.exists_fragment n (s.identify path {}).1
  rw [← hmodule] at hx
  rw [rule_ne_iff hdir rfl hx hplain, hcss, rule_ne_indentation_layout_iff rfl,
    movedLead_eq_iff]

/-- The names of the samples. -/
def Stylesheet.colorName : Ident where
  text := Bytes.ofString "color"
  bytes := by decide +kernel
  ident := by decide +kernel
  utf8 := by decide +kernel

def Stylesheet.redName : Ident where
  text := Bytes.ofString "red"
  bytes := by decide +kernel
  ident := by decide +kernel
  utf8 := by decide +kernel

/-- A declaration, and a block that holds another one. -/
def Stylesheet.nestedSample : Content :=
  .both (.declaration colorName redName)
    (.block (.element redName) (.declaration colorName redName))

/-- The sample is found well indented with steps of two spaces. -/
theorem nestedSample_well_indented :
    Path.isAbsolute (Setting.create [Byte.slash] []).directory = true ∧
    nestedSample.source 2 = Bytes.ofString "import styled from 'styled-components'\n" ++
      Bytes.ofString "const A = styled.div`\n  color: red;\n  red \x7b\n" ++
      Bytes.ofString "    color: red;\n  \x7d\n`\n" ∧
    ∃ linter, Linter.ofConfig { indent := 2 } = .ok linter ∧
      ∀ f ∈ ((Setting.create [Byte.slash] []).lintSource linter.lint (nestedSample.source 2)
        (Bytes.ofString "a.js") {}).1.verdict.findings, f.rule ≠ Rule.indentation.name := by
  have hdir : Path.isAbsolute (Setting.create [Byte.slash] []).directory = true := by decide
  obtain ⟨linter, hlinter, hiff⟩ := Setting.written_well_indented_iff hdir rfl (n := 2) (by decide)
    nestedSample (Bytes.ofString "a.js")
  exact ⟨hdir, by decide +kernel, linter, hlinter, hiff.2 rfl⟩

/-- A linter that asks for steps of four spaces finds fault with a declaration that is written with
them, since the declaration is moved to two. -/
theorem declaration_ill_indented :
    (Content.declaration colorName redName).source 4 =
      Bytes.ofString "import styled from 'styled-components'\n" ++
        Bytes.ofString "const A = styled.div`\n    color: red;\n`\n" ∧
    Linter.ofConfig { indent := 4 } = .ok { width := 4 } ∧
    ((Setting.create [Byte.slash] []).lintSource ({ width := 4 } : Linter).lint
      ((Content.declaration colorName redName).source 4)
      (Bytes.ofString "a.js") {}).1.verdict.findings.map Finding.rule =
        [Rule.indentation.name] := by
  refine ⟨by decide +kernel, rfl, ?_⟩
  decide +kernel

end TemplateLint
