import Mathlib
import TemplateLint.Proofs.Session.Lint
import TemplateLint.Proofs.Template.Innermost

/-!
# Where malformed sources are reported

A valid text that cannot be read has a construct that is left open. The failure names the innermost
of them, at the line and the column of its opening delimiter, and linting the source reports that
place and nothing else. A failed attempt is never corrected by what the journal holds, so the place
does not depend on the inputs linted before.
-/
namespace TemplateLint
open Bytes

/-- Behind a byte of ASCII that ends no line the column has moved by one. -/
theorem Position.ofOffset_succ {source : Bytes} (hv : isUtf8 source) {o : Nat} {b : UInt8}
    (h : source[o]? = some b) (hb : b < 0x80) (hn : b ≠ Byte.newline) :
    ofOffset source (o + 1) = ⟨(ofOffset source o).line, (ofOffset source o).column + 1⟩ := by
  have hone : ∀ c ∈ [b], c < 0x80 := by simpa using hb
  have hnewline : Byte.newline ∉ [b] := by simpa using hn.symm
  rw [ofOffset, List.take_add_one, h, Option.toList_some,
    after_append _ (Template.cut_at_ascii hv h hb).1, after_of_not_mem _ hnewline,
    runeCount_of_ascii hone]
  rfl

/-- A malformed place that names a construct of a source: it is the position of the construct, the
delimiter that opens the construct stands there, and the reason tells the kind. -/
structure Malformed.Names (m : Malformed) (source : Bytes) (u : Scan.Unclosed) : Prop where
  line : m.line = (Position.ofOffset source u.offset).line
  column : m.column = (Position.ofOffset source u.offset).column
  delimiter :
    match u with
    | .template _ =>
      m.reason = Bytes.ofString "Unclosed template literal" ∧
        source.runeAt? m.line m.column = some (.ofByte Byte.backtick)
    | .interpolation _ =>
      m.reason = Bytes.ofString "Unterminated interpolation" ∧
        source.runeAt? m.line m.column = some (.ofByte Byte.dollar) ∧
        source.runeAt? m.line (m.column + 1) = some (.ofByte Byte.openBrace)

/-- Extraction of a valid text fails with a construct that the scan leaves open, under whatever
identifier the text is known. -/
theorem Fragment.exists_unclosed_of_error {source id moduleName : Bytes} {cause : Cause}
    (hv : isUtf8 source = true) (hx : extract source id moduleName = .error cause) :
    ∃ u, Scan.templates source = .error u ∧
      ∀ id', extract source id' moduleName = .error (unclosed source id' u) := by
  have hvalid : ¬ (!isUtf8 source) = true := by simp [hv]
  rw [extract, if_neg hvalid] at hx
  split at hx
  · cases hx
  next himports =>
  split at hx
  · next u hscan =>
    refine ⟨u, hscan, fun id' => ?_⟩
    rw [extract, if_neg hvalid, if_neg himports, hscan]
  · cases hx

/-- The failure for a construct names it. -/
theorem Scan.Unclosed.StandsIn.names {source : Bytes} {u : Scan.Unclosed} (h : u.StandsIn source)
    (hv : isUtf8 source = true) (id : Bytes) :
    Malformed.Names ⟨id, (Position.ofOffset source u.offset).line,
      (Position.ofOffset source u.offset).column, u.reason⟩ source u where
  line := rfl
  column := rfl
  delimiter := by
    cases u with
    | template start => exact ⟨rfl, Template.runeAt?_backtick hv h⟩
    | interpolation start =>
      have hsucc := Position.ofOffset_succ hv h.1 (by decide) (by decide)
      have hbrace := Template.runeAt?_ascii hv h.2 (by decide) (by decide)
      rw [hsucc] at hbrace
      exact ⟨rfl, Template.runeAt?_ascii hv h.1 (by decide) (by decide), hbrace⟩

/-- **A failure names the innermost construct that is left open.** When a valid text cannot be
read, the failure is malformed input at the delimiter of a construct that is still open at the end,
while all those opened behind it have been closed. Linting the text reports that place as its only
finding, whatever the journal holds. -/
theorem Setting.failure_names_innermost {source id moduleName : Bytes} {cause : Cause}
    (hv : isUtf8 source = true) (hx : Fragment.extract source id moduleName = .error cause) :
    ∃ (u : Scan.Unclosed) (m : Malformed), cause = .malformed m ∧ m.file = id ∧
      m.Names source u ∧ u.IsInnermost source ∧
      ∀ (s : Setting) (linter : StylesheetLinter) (path : Bytes) (j : Journal),
        s.moduleName = moduleName → Path.isAbsolute s.directory = true →
        (s.lintSource linter source path j).1.verdict =
          { source := path
            findings := [{
              rule := Bytes.ofString "CssSyntaxError", severity := .error, line := m.line,
              column := m.column, text := Finding.wording m.reason malformedRule }]
            errored := true } := by
  obtain ⟨u, hscan, hfails⟩ := Fragment.exists_unclosed_of_error hv hx
  rw [hfails id] at hx
  cases hx
  refine ⟨u, _, rfl, rfl, (Scan.standsIn_of_error hscan).names hv id,
    Scan.isInnermost_of_error hscan, ?_⟩
  rintro s linter path j rfl hdir
  -- the source is linted under another identifier, which leaves the place alone
  rw [lintSource, verdict_of_malformed hdir (hfails (s.identify path j).1) rfl]
  rfl

/-- A template with two interpolations. The first one, with a template in it, is closed; in the
second one a template is closed, and a brace is not. -/
def nestedUnclosedSample : Bytes :=
  Bytes.ofString "import styled from 'styled-components'\n" ++
    Bytes.ofString "const A = styled.div`$\x7b`x$\x7b1\x7d`\x7dé$\x7b() => \x7b `q`\n"

/-- An earlier state of the sample that can be read. -/
def nestedClosedSample : Bytes := nestedUnclosedSample ++ Bytes.ofString "\x7d\x7d`"

/-- The second interpolation of the sample, on the second line. The letter before it takes two
bytes and one column. -/
def nestedUnclosedPlace : Malformed where
  file := Bytes.ofString "/a.js"
  line := 2
  column := 33
  reason := Bytes.ofString "Unterminated interpolation"

/-- The place of the sample stays the same behind a pass over its earlier state. -/
theorem nestedUnclosedSample_named :
    isUtf8 nestedUnclosedSample = true ∧
    Fragment.extract nestedUnclosedSample (Bytes.ofString "/a.js") defaultModule =
      .error (.malformed nestedUnclosedPlace) ∧
    (∃ u, nestedUnclosedPlace.Names nestedUnclosedSample u ∧ u.IsInnermost nestedUnclosedSample) ∧
    ((Setting.create [Byte.slash] []).lintSource ({} : Stylesheet.Linter).lint
        nestedUnclosedSample (Bytes.ofString "a.js")
        ((Setting.create [Byte.slash] []).lintSource ({} : Stylesheet.Linter).lint
          nestedClosedSample (Bytes.ofString "a.js") {}).2).1.verdict =
      nestedUnclosedPlace.verdict (Bytes.ofString "a.js") := by
  have hv : isUtf8 nestedUnclosedSample = true := by decide +kernel
  have hx : Fragment.extract nestedUnclosedSample (Bytes.ofString "/a.js") defaultModule =
      .error (.malformed nestedUnclosedPlace) := by
    decide +kernel
  obtain ⟨u, m, hcause, -, hnames, hinnermost, hlint⟩ := Setting.failure_names_innermost hv hx
  cases hcause
  exact ⟨hv, hx, ⟨u, hnames, hinnermost⟩, hlint _ _ _ _ (by decide) (by decide)⟩

end TemplateLint
