import TemplateLint.Report.Issue
import TemplateLint.Report.JsonValue
import TemplateLint.Report.Summary

/-!
# Reports for tools

An export holds the counts, the issues in the order of a report, and the failures in the order
of the files. It is written in JSON.
-/
namespace TemplateLint

/-- A report for tools. -/
structure Export where
  summary : Summary
  errored : Bool
  issues : List Issue
  /-- Files with the failures that kept them from being read. -/
  failures : List (Bytes × Cause)

namespace Export

/-- What verdicts say beside their findings: whether one is errored, and the failures with their
files. -/
def gather (gathered : Bool × List (Bytes × Cause)) (v : Verdict) : Bool × List (Bytes × Cause) :=
  (gathered.1 || v.errored, gathered.2 ++ v.failures.map (v.source, ·))

/-- The export of some verdicts. -/
def ofVerdicts (verdicts : List Verdict) : Export :=
  let gathered := verdicts.foldl gather (false, [])
  { summary := Summary.ofVerdicts verdicts
    errored := gathered.1
    issues := Issue.sorted verdicts
    failures := gathered.2 }

/-- The counts in JSON. -/
def summaryValue (e : Export) : JsonValue :=
  .record [
    ("total_issues", .number e.summary.total),
    ("errors", .number e.summary.errors),
    ("warnings", .number e.summary.warnings),
    ("files_scanned", .number e.summary.files),
    ("errored", .flag e.errored)]

/-- One issue in JSON. -/
def issueValue (i : Issue) : JsonValue :=
  .record [
    ("file", .text i.file),
    ("line", .number i.finding.line),
    ("column", .number i.finding.column),
    ("severity", .text i.finding.severity.name),
    ("message", .text i.finding.text),
    ("rule", .text i.finding.rule)]

/-- One failure in JSON. -/
def failureValue (file : Bytes) (cause : Cause) : JsonValue :=
  .record [("file", .text file), ("message", .text cause.message)]

/-- The export in JSON, at a given time. -/
def toJson (e : Export) (timestamp : Bytes) : JsonValue :=
  .record [
    ("version", .text (Bytes.ofString "1.0")),
    ("timestamp", .text timestamp),
    ("summary", e.summaryValue),
    ("issues", .list (e.issues.map issueValue)),
    ("parse_errors", .list (e.failures.map fun (file, cause) => failureValue file cause))]

end Export
end TemplateLint
