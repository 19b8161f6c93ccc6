import TemplateLint.Report.Caret
import TemplateLint.Report.Ink
import TemplateLint.Report.Issue
import TemplateLint.Report.Summary

/-!
# Reports for readers

An issue is one line, `file:line:column: severity text`, and on request the source line it is
about with a caret below. Failures follow the issues. The summary counts both and names every
broken rule.
-/
namespace TemplateLint.Report

/-- How a report is shown. -/
structure Page where
  ink : Ink
  /-- Whether source lines are shown. -/
  printLines : Bool
  /-- The content of a file, if it can be read. -/
  read : Bytes → Option Bytes

/-- A path as it is shown; a text without one is the input. -/
def displayName (path : Bytes) : Bytes :=
  if path.isEmpty then Bytes.ofString "<input>" else path

/-- One line of a file, counted from one, without carriage returns at its end. -/
def sourceLine? (read : Bytes → Option Bytes) (file : Bytes) (line : Int) : Option Bytes := do
  if file.isEmpty || line ≤ 0 then none
  else
    let content ← read file
    let text ← (Bytes.lines content)[(line - 1).toNat]?
    return Bytes.trimRight (· == Byte.carriageReturn) text

/-- The place of an issue. -/
def location (i : Issue) : Bytes :=
  displayName i.file ++ Bytes.ofString ":" ++ Bytes.ofInt i.finding.line ++
    Bytes.ofString ":" ++ Bytes.ofInt i.finding.column ++ Bytes.ofString ":"

/-- The hue of a severity. -/
def severityHue (s : Severity) : Hue := if s = .error then .red else .yellow

/-- The source line of an issue and the caret below it, when they are wanted and there. -/
def excerpt (page : Page) (i : Issue) : Bytes :=
  if !page.printLines then []
  else
    match sourceLine? page.read i.file i.finding.line with
    | none => []
    | some line =>
      Byte.tab :: line ++ [Byte.newline] ++
        Byte.tab :: page.ink.paint .yellow (Caret.caret line i.finding.column) ++ [Byte.newline]

/-- One issue. -/
def issue (page : Page) (i : Issue) : Bytes :=
  page.ink.paint .cyan (location i) ++ [Byte.space] ++
    page.ink.paint (severityHue i.finding.severity) i.finding.severity.name ++ [Byte.space] ++
    i.finding.text ++ [Byte.newline] ++ excerpt page i

/-- One failure of a file. -/
def failure (page : Page) (file : Bytes) (cause : Cause) : Bytes :=
  page.ink.paint .cyan (displayName file ++ [Byte.colon]) ++ [Byte.space] ++
    page.ink.paint .red (Bytes.ofString "parse error: " ++ cause.message) ++ [Byte.newline]

/-- All issues, then all failures. -/
def issues (page : Page) (verdicts : List Verdict) : Bytes :=
  (Issue.sorted verdicts).flatMap (issue page) ++
    verdicts.flatMap fun v => v.failures.flatMap (failure page v.source)

/-- A count and its noun. -/
def counted (n : Nat) (singular plural : String) : Bytes :=
  Bytes.ofNat n ++ [Byte.space] ++ Bytes.ofString (if n = 1 then singular else plural)

/-- The line for one rule of a summary. -/
def ruleLine (page : Page) (rule : Bytes) (count : Nat) : Bytes :=
  Bytes.ofString "* " ++ page.ink.paint .gray rule ++ Bytes.ofString ": " ++ Bytes.ofNat count ++
    [Byte.newline]

/-- The line of a summary for a run without findings. -/
def cleanLine (page : Page) (s : Summary) : Bytes :=
  page.ink.paint .green (Bytes.ofString "No issues in " ++ counted s.files "file" "files") ++
    [Byte.newline]

/-- The lines of a summary for a run with findings or failures. -/
def countLines (page : Page) (s : Summary) : Bytes :=
  counted s.total "issue" "issues" ++ Bytes.ofString " (" ++
    counted s.errors "error" "errors" ++ Bytes.ofString ", " ++
    counted s.warnings "warning" "warnings" ++ Bytes.ofString "):\n" ++
    s.byRule.flatMap (fun (rule, count) => ruleLine page rule count) ++
    if s.failures = 0 then []
    else
      page.ink.paint .red
        (counted s.failures "file could not be parsed" "files could not be parsed") ++
        [Byte.newline]

/-- The summary behind a blank line. -/
def summary (page : Page) (verdicts : List Verdict) : Bytes :=
  let s := Summary.ofVerdicts verdicts
  Byte.newline :: if s.isClean then cleanLine page s else countLines page s

end TemplateLint.Report
