import TemplateLint.Files.Discover
import TemplateLint.Session.Lint
import TemplateLint.Text.Printable
import TemplateLint.Text.Quoted

/-!
# The log of a run

A run can be logged line by line. A line names what happened and gives its particulars as
pairs of a key and a value.
-/
namespace TemplateLint.Log

/-- Whether a character makes a value need quotes. -/
def needsQuotes (r : Rune) : Bool :=
  let n := r.code
  r.isStray || n ≤ 0x20 || n = 0x22 || n = 0x3d || n = 0xfffd ||
    (0x80 ≤ n && !Printable.isPrintable n)

/-- A value, in quotes if it needs them. -/
def value (s : Bytes) : Bytes :=
  if s.isEmpty || (Rune.decode s).any needsQuotes then Quoted.quote s else s

/-- A line of the log, without its end. -/
def line (event : String) (particulars : List (String × Bytes)) : Bytes :=
  Bytes.ofString "level=DEBUG msg=" ++ value (Bytes.ofString event) ++
    particulars.flatMap fun (key, v) =>
      Byte.space :: Bytes.ofString key ++ Byte.equals :: value v

/-- The line about the files of a run. -/
def ofDiscovery (d : Discovery) : Bytes :=
  line "discovered files" [("discovered", Bytes.ofNat d.discovered),
    ("scanned", Bytes.ofNat d.scanned), ("skipped", Bytes.ofNat d.skipped)]

/-- The line about an extraction. -/
def ofPreparation (p : Preparation) : Bytes :=
  match p.attempt with
  | .error cause =>
    line "extraction failed" [("id", p.id), ("kind", cause.kind.name), ("error", cause.message)]
  | .ok fragment =>
    line "extracted css" [("id", p.id), ("lines", Bytes.ofNat fragment.origins.length),
      ("interpolations", Bytes.ofNat fragment.placeholderLines.length)]

/-- The line about findings that were dropped, if there are any. -/
def ofDropped (run : LintRun) : List Bytes :=
  let count := run.raw.findings.length - run.verdict.findings.length
  if count = 0 then []
  else [line "dropped interpolation findings" [("id", run.preparation.id), ("count", Bytes.ofNat count)]]

/-- The lines about one source. -/
def ofRun (run : LintRun) : List Bytes :=
  match run.preparation.error?.bind Cause.malformed? with
  | some m =>
    let malformed := line "syntax error" [("path", run.path), ("line", Bytes.ofInt m.line),
      ("reason", m.reason)]
    ofPreparation run.preparation :: malformed :: ofDropped run
  | none =>
    let linted := line "linted" [("path", run.path), ("raw", Bytes.ofNat run.raw.findings.length),
      ("reported", Bytes.ofNat run.verdict.findings.length)]
    ofPreparation run.preparation :: ofDropped run ++ [linted]

end TemplateLint.Log
