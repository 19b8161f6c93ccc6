import TemplateLint.Finding

/-!
# Issues in the order of a report

An issue is a finding together with the path of its file. A report lists the issues by file,
then line, then column; issues that agree in all three keep the order they were found in.
-/
namespace TemplateLint

/-- A finding in a file. -/
structure Issue where
  file : Bytes
  finding : Finding
  deriving DecidableEq

namespace Issue

/-- The order of a report: by the bytes of the file, then line, then column. -/
def le (a b : Issue) : Bool :=
  if a.file ≠ b.file then Bytes.le a.file b.file
  else if a.finding.line ≠ b.finding.line then a.finding.line < b.finding.line
  else a.finding.column ≤ b.finding.column

/-- Every finding of some verdicts, with its file. -/
def ofVerdicts (verdicts : List Verdict) : List Issue :=
  verdicts.flatMap fun v => v.findings.map (Issue.mk v.source)

/-- Every finding of some verdicts in the order of a report. -/
def sorted (verdicts : List Verdict) : List Issue := (ofVerdicts verdicts).mergeSort le

end Issue
end TemplateLint
