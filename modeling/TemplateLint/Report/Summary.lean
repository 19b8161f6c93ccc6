import TemplateLint.Finding

/-!
# Counts over many verdicts

A summary counts files, failures, and findings by severity and by rule. A finding whose
severity is neither an error nor a warning counts for its rule only.
-/
namespace TemplateLint

/-- How often each rule was found broken, in increasing order of the rule's bytes. -/
abbrev RuleCount := List (Bytes × Nat)

namespace RuleCount

/-- One more finding of a rule. -/
def add (rule : Bytes) : RuleCount → RuleCount
  | [] => [(rule, 1)]
  | (r, n) :: rest =>
    if r = rule then (r, n + 1) :: rest
    else if Bytes.le rule r then (rule, 1) :: (r, n) :: rest
    else (r, n) :: add rule rest

/-- How often a rule was found broken. -/
def get (counts : RuleCount) (rule : Bytes) : Nat := (counts.lookup rule).getD 0

end RuleCount

/-- The counts of a run. -/
structure Summary where
  files : Nat
  errors : Nat
  warnings : Nat
  /-- Texts that could not be read. -/
  failures : Nat
  byRule : RuleCount
  deriving DecidableEq

namespace Summary

/-- The number of findings of one severity. -/
def countSeverity (severity : Severity) (findings : List Finding) : Nat :=
  findings.countP fun f => f.severity == severity

/-- The counts over some verdicts. -/
def ofVerdicts (verdicts : List Verdict) : Summary :=
  let findings := verdicts.flatMap (·.findings)
  { files := verdicts.length
    errors := countSeverity .error findings
    warnings := countSeverity .warning findings
    failures := (verdicts.flatMap (·.failures)).length
    byRule := findings.foldl (fun counts f => counts.add f.rule) [] }

/-- The number of errors and warnings. -/
def total (s : Summary) : Nat := s.errors + s.warnings

/-- Whether there is nothing to complain about. -/
def isClean (s : Summary) : Bool := s.total == 0 && s.failures == 0

end Summary
end TemplateLint
