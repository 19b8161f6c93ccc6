import TemplateLint.Stylesheet.Checker

/-!
# The stylesheet linter

A linter is a checked configuration: the width of an indentation level, the rules that are
switched off and the severities that are overridden. Configuration only filters and relabels
what the checker finds. Findings come sorted by place, and those at one place keep the order
in which they were found.

`lint` is the verdict on a stylesheet. `run` is what a linter answers, which is the verdict unless
its check breaks down.
-/
namespace TemplateLint.Stylesheet

/-- A configuration as the user writes it. -/
structure Config where
  /-- Spaces per nesting level; two unless positive. -/
  indent : Int := 0
  /-- Names of rules that are switched off. -/
  disabled : List Bytes := []
  /-- Severities by the name of the rule. -/
  severities : List (Bytes × Severity) := []

/-- A linter whose configuration names existing rules only. -/
structure Linter where
  width : Nat := 2
  disabled : List Rule := []
  severities : List (Rule × Severity) := []
  deriving DecidableEq

/-- A configuration that names a rule which does not exist. -/
structure UnknownRule where
  name : Bytes
  deriving DecidableEq

def UnknownRule.message (e : UnknownRule) : Bytes :=
  Bytes.ofString "unknown rule " ++ Quoted.quote e.name

/-- The rule with a name, or the complaint that there is none. -/
def Rule.lookup (name : Bytes) : Except UnknownRule Rule :=
  match Rule.ofName? name with
  | some rule => .ok rule
  | none => .error ⟨name⟩

namespace Linter

/-- The linter for a configuration. The disabled rules are looked up before the overridden
ones, each list in its order. -/
def ofConfig (config : Config) : Except UnknownRule Linter := do
  let disabled ← config.disabled.mapM Rule.lookup
  let severities ← config.severities.mapM fun (name, severity) => do
    return (← Rule.lookup name, severity)
  return {
    width := if 0 < config.indent then config.indent.toNat else 2
    disabled, severities }

/-- The severity a rule has under a linter. -/
def severity (linter : Linter) (rule : Rule) : Severity :=
  (linter.severities.lookup rule).getD rule.severity

/-- The finding that reports an issue. -/
def finding (linter : Linter) (issue : Issue) : Finding where
  rule := issue.rule.name
  severity := linter.severity issue.rule
  line := issue.line
  column := issue.column
  text := Finding.wording issue.message issue.rule.name

/-- Whether a linter reports issues of a rule. -/
def reports (linter : Linter) (rule : Rule) : Bool := !linter.disabled.contains rule

/-- The findings about a stylesheet, sorted by place. -/
def findings (linter : Linter) (css : Bytes) : List Finding :=
  (((issues linter.width css).filter fun i => linter.reports i.rule).mergeSort Issue.le).map
    linter.finding

/-- The verdict on a stylesheet: errored when one of the findings is an error. -/
def lint (linter : Linter) (css : Bytes) : Verdict :=
  let findings := linter.findings css
  { findings, errored := findings.any Finding.isError }

/-- What a linter answers on a stylesheet. -/
def run (linter : Linter) (css : Bytes) : Except Breakdown Verdict :=
  match breakdown? linter.width css with
  | some b => .error b
  | none => .ok (linter.lint css)

end Linter
end TemplateLint.Stylesheet
