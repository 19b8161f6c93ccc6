import TemplateLint.Failure
import TemplateLint.Text.Quoted

/-!
# Findings

A finding is what a rule says about one place. A verdict collects the findings about one
text, whether any of them is an error, and the failures that kept the text from being read.
-/
namespace TemplateLint

/-- How serious a finding is. -/
inductive Severity where
  | warning
  | error
  /-- A value that names no severity. -/
  | unknown
  deriving DecidableEq

namespace Severity

/-- The severity a number stands for. -/
def ofCode (n : Int) : Severity :=
  if n = 0 then warning else if n = 1 then error else unknown

def name : Severity → Bytes
  | warning => Bytes.ofString "warning"
  | error => Bytes.ofString "error"
  | unknown => Bytes.ofString "unknown"

/-- The severity with a given name. Only the two proper severities can be named. -/
def ofName? (s : Bytes) : Option Severity :=
  if s = error.name then some error
  else if s = warning.name then some warning
  else none

/-- The message for a text that names no severity. -/
def unknownMessage (s : Bytes) : Bytes := Bytes.ofString "unknown severity " ++ Quoted.quote s

end Severity

/-- A single finding. The place is in the extracted text until it is corrected. -/
structure Finding where
  rule : Bytes
  severity : Severity
  line : Int
  column : Int
  text : Bytes
  deriving DecidableEq

/-- What linting says about one text. -/
structure Verdict where
  /-- The path the text is shown under, empty when it has none. -/
  source : Bytes := []
  findings : List Finding := []
  errored : Bool := false
  /-- Failures that kept the text from being read. -/
  failures : List Cause := []
  deriving DecidableEq

/-- Whether a finding is an error. -/
def Finding.isError (f : Finding) : Bool := f.severity == .error

/-- A message followed by the name of its rule. -/
def Finding.wording (message rule : Bytes) : Bytes :=
  message ++ Bytes.ofString " (" ++ rule ++ Bytes.ofString ")"

/-- Whether any verdict is errored. -/
def anyErrored (verdicts : List Verdict) : Bool := verdicts.any (·.errored)

/-- The number of findings in all verdicts together. -/
def countFindings (verdicts : List Verdict) : Nat :=
  (verdicts.flatMap (·.findings)).length

end TemplateLint
