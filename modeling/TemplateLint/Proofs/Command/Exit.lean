import Mathlib
import TemplateLint.Command.Run
import TemplateLint.Proofs.Command.Flag
import TemplateLint.Proofs.Report.Summary
import TemplateLint.Proofs.Session.Files

/-!
# The exit code of a lint run

A verdict is errored exactly when it holds an error or a failure, whatever the journal held before.
So a run over files fails exactly when some verdict holds one of these, or in strict runs any
finding. The summary counts by severity instead, and the two agree since settings can give a rule no
severity but the two that are counted.
-/
namespace TemplateLint
open Stylesheet

/-! ## Errored verdicts -/

namespace Setting
variable {s : Setting} {linter : Linter} {source path : Bytes} {j : Journal}

end Setting

/-! ## Severities from settings -/

namespace Settings

end Settings

/-- A linter that grades rules as errors or warnings only. -/
def Stylesheet.Linter.IsGraded (linter : Linter) : Prop :=
  ∀ rule, linter.severity rule = .error ∨ linter.severity rule = .warning

namespace Setting
variable {s : Setting} {linter : Linter} {source path : Bytes} {j : Journal} {f : Finding}

end Setting

/-! ## Rejection and the exit code -/

namespace Command

/-- What fails a run: an error, a failure, or any finding when the run is strict. -/
def HasReason (strict : Bool) (verdicts : List Verdict) : Prop :=
  (∃ v ∈ verdicts, ∃ f ∈ v.findings, f.severity = .error) ∨
    (∃ v ∈ verdicts, v.failures ≠ []) ∨
    strict = true ∧ ∃ v ∈ verdicts, v.findings ≠ []

/-- An exit code that agrees with verdicts: it is one when they give reason to fail, and in strict
runs it is zero when the summary of the verdicts has the line for a run without findings. -/
structure Agrees (code : Nat) (strict : Bool) (verdicts : List Verdict) : Prop where
  fails : code = 1 ↔ HasReason strict verdicts
  clean : strict = true → ∀ page, code = 0 ↔
    Report.cleanLine page (Summary.ofVerdicts verdicts) <:+: Report.summary page verdicts

end Command

end TemplateLint
