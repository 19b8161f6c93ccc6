import TemplateLint.Finding
import TemplateLint.Path
import TemplateLint.Session.Journal
import TemplateLint.Template.Extract

/-!
# Preparing a source and correcting its findings

Linting a source takes two steps around the linter. `prepare` extracts the fragment and
records the pass; `correct` moves the findings about the fragment back to the source. The two
agree on the identifier under which a pass is recorded: the absolute form of the path.
-/
namespace TemplateLint

/-- The outcome of preparing a source. -/
structure Preparation where
  id : Bytes
  attempt : Except Cause Fragment

namespace Preparation

/-- The stylesheet to lint, empty after a failure. -/
def css (p : Preparation) : Bytes :=
  match p.attempt with
  | .ok fragment => fragment.css
  | .error _ => []

/-- The failure that is reported at once: only malformed input is. -/
def error? (p : Preparation) : Option Cause :=
  match p.attempt with
  | .ok _ => none
  | .error cause => if cause.malformed?.isSome then some cause else none

end Preparation

/-- The part of a program run that all sources of one run share. -/
structure Setting where
  /-- The directory that paths are relative to. -/
  directory : Bytes
  /-- The module whose templates are extracted. -/
  moduleName : Bytes
  deriving DecidableEq

namespace Setting

/-- A setting in which no name stands for the default module. -/
def create (directory moduleName : Bytes) : Setting :=
  ⟨directory, if moduleName.isEmpty then defaultModule else moduleName⟩

/-- The identifier of an input: its absolute path, or a minted one for the empty path. -/
def identify (s : Setting) (path : Bytes) (j : Journal) : Bytes × Journal :=
  if path.isEmpty then j.mint else (Path.absolute s.directory path, j)

/-- The identifier that a caller means. Minted ones stand for themselves. -/
def lookupId (s : Setting) (id : Bytes) : Bytes :=
  if id.isEmpty || Journal.isMinted id then id else Path.absolute s.directory id

/-- Extract an input and record the attempt. `extract` is asked for the fragment of the input
known under the identifier it is given. -/
def prepare (s : Setting) (extract : Bytes → Except Cause Fragment) (path : Bytes)
    (j : Journal) : Preparation × Journal :=
  let (id, j) := s.identify path j
  let attempt := extract id
  (⟨id, attempt⟩, j.record id attempt)

end Setting

/-- The rule whose findings placeholders may cause. -/
def placeholderRule : Bytes := Bytes.ofString "indentation"

/-- The word that a message about a wrapped block uses and the one that fits the source. -/
def sourceWording (text : Bytes) : Bytes :=
  Bytes.replaceFirst (Bytes.ofString "brace") (Bytes.ofString "backtick") text

namespace Entry

/-- Whether a finding is owed to a placeholder. -/
def isCausedByPlaceholder (e : Entry) (f : Finding) : Bool :=
  f.rule == placeholderRule && e.placeholderLines.contains f.line

/-- A finding at its place in the source. -/
def relocate (e : Entry) (f : Finding) : Finding :=
  { f with
    text := sourceWording f.text
    column := ((e.anchors.get? f.line).map (Anchor.sourceColumn f.column)).getD f.column
    line := (e.origins.get? f.line).getD f.line }

/-- The findings that remain, at their places in the source. -/
def correctFindings (e : Entry) (findings : List Finding) : List Finding :=
  (findings.filter fun f => !e.isCausedByPlaceholder f).map e.relocate

/-- The verdict on a source, given the verdict on its fragment. After malformed input the raw
verdict stands, since its places are those of the source already. Any other failure is
attached. A verdict stays errored only while an error is left. -/
def correct (e : Entry) (raw : Verdict) : Verdict :=
  match e.failure with
  | some cause =>
    if cause.malformed?.isSome then raw else { raw with errored := true, failures := [cause] }
  | none =>
    let findings := e.correctFindings raw.findings
    { raw with findings, errored := raw.errored && findings.any Finding.isError }

end Entry

/-- Correct the verdict on the fragment of an input. -/
def Setting.correct (s : Setting) (j : Journal) (raw : Verdict) (id : Bytes) : Verdict :=
  (j.entry (s.lookupId id)).correct raw

end TemplateLint
