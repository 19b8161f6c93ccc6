import TemplateLint.Session.Correction
import TemplateLint.Stylesheet.Linter

/-!
# Linting sources

`lintSource` runs the whole course over one source: extract, lint, correct. Malformed input
yields a single finding at its place in the source instead of the linter's findings.

A linter may break down over a stylesheet, and then there is no verdict. `tryLintSource` is the
course with a linter that may; it is the same as long as the linter does not.
-/
namespace TemplateLint

/-- What a linter makes of a stylesheet. -/
abbrev StylesheetLinter := Bytes → Verdict

/-- The steps of linting one source. -/
structure LintRun where
  path : Bytes
  preparation : Preparation
  /-- The verdict on the fragment. -/
  raw : Verdict
  /-- The verdict on the source. -/
  verdict : Verdict

/-- The rule that malformed input is reported under. -/
def malformedRule : Bytes := Bytes.ofString "CssSyntaxError"

/-- The verdict on malformed input. -/
def Malformed.verdict (m : Malformed) (path : Bytes) : Verdict where
  source := path
  findings := [{
    rule := malformedRule, severity := .error, line := m.line, column := m.column,
    text := Finding.wording m.reason malformedRule }]
  errored := true

namespace Setting

/-- The extractor for a source. -/
def extractor (s : Setting) (source : Bytes) (id : Bytes) : Except Cause Fragment :=
  Fragment.extract source id s.moduleName

/-- The verdict on a prepared input before correction. -/
def rawVerdict (linter : StylesheetLinter) (path : Bytes) (p : Preparation) : Verdict :=
  match p.error?.bind Cause.malformed? with
  | some m => m.verdict path
  | none => { linter p.css with source := path }

/-- Lint an input whose fragment `extract` provides. -/
def lintWith (s : Setting) (linter : StylesheetLinter)
    (extract : Bytes → Except Cause Fragment) (path : Bytes) (j : Journal) :
    LintRun × Journal :=
  let (preparation, j) := s.prepare extract path j
  let raw := rawVerdict linter path preparation
  (⟨path, preparation, raw, s.correct j raw preparation.id⟩, j)

/-- Lint a source. -/
def lintSource (s : Setting) (linter : StylesheetLinter) (source path : Bytes) (j : Journal) :
    LintRun × Journal :=
  s.lintWith linter (s.extractor source) path j

/-- The verdict on a prepared input before correction, as a linter answers. Malformed input does
not get to the linter. -/
def answer (linter : Stylesheet.Linter) (path : Bytes) (p : Preparation) :
    Except Stylesheet.Breakdown Verdict :=
  match p.error?.bind Cause.malformed? with
  | some m => .ok (m.verdict path)
  | none => (linter.run p.css).map fun verdict => { verdict with source := path }

/-- Lint an input whose fragment `extract` provides, unless the linter breaks down. -/
def tryLintWith (s : Setting) (linter : Stylesheet.Linter)
    (extract : Bytes → Except Cause Fragment) (path : Bytes) (j : Journal) :
    Except Stylesheet.Breakdown (LintRun × Journal) := do
  let (preparation, j) := s.prepare extract path j
  let raw ← answer linter path preparation
  return (⟨path, preparation, raw, s.correct j raw preparation.id⟩, j)

/-- Lint a source, unless the linter breaks down. -/
def tryLintSource (s : Setting) (linter : Stylesheet.Linter) (source path : Bytes) (j : Journal) :
    Except Stylesheet.Breakdown (LintRun × Journal) :=
  s.tryLintWith linter (s.extractor source) path j

end Setting
end TemplateLint
