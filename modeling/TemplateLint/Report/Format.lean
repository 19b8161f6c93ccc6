import TemplateLint.Report.Export
import TemplateLint.Report.Text

/-!
# Formats of a report

A report lists issues and a summary, or the summary alone, or is an export for tools.
-/
namespace TemplateLint.Report

/-- The formats of a report. -/
inductive Format where
  | issues
  | summary
  | json
  deriving DecidableEq

namespace Format

def name : Format → Bytes
  | issues => Bytes.ofString "issues"
  | summary => Bytes.ofString "summary"
  | json => Bytes.ofString "json"

/-- The format of a given name; any other name stands for the list of issues. -/
def ofName (s : Bytes) : Format :=
  if s = summary.name then summary else if s = json.name then json else issues

/-- The format for a name, unless the report is not wanted at all. -/
def choose (s : Bytes) (quiet : Bool) : Format := if quiet then issues else ofName s

end Format

/-- The report on some verdicts. -/
def write (format : Format) (page : Page) (timestamp : Bytes) (verdicts : List Verdict) : Bytes :=
  match format with
  | .json => ((Export.ofVerdicts verdicts).toJson timestamp).render
  | .summary => summary page verdicts
  | .issues => issues page verdicts ++ summary page verdicts

end TemplateLint.Report
