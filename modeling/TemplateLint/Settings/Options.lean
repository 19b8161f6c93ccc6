import TemplateLint.Settings.Tree
import TemplateLint.Stylesheet.Linter

/-!
# Options

The options of a run are read from the tree of settings. Each has a short path, which the
command line and the environment use, and most have a longer one for files; the short one is
asked first. A text or a list that is empty counts as not given, and so falls through to the
longer path and then to the default. A truth value or an integer counts as given wherever its
path is present.
-/
namespace TemplateLint.Settings

namespace Tree

/-- The first value at one of some paths that passes a test. -/
def firstOf {α : Type} (tree : Tree) (paths : List String) (read : Value → Option α) (default : α) :
    α :=
  (paths.findSome? fun path => (tree.find (Bytes.ofString path)).bind read).getD default

/-- A text, unless it is empty. -/
def text (tree : Tree) (paths : List String) (default : Bytes) : Bytes :=
  tree.firstOf paths (fun v => if v.toText.isEmpty then none else some v.toText) default

/-- A list of texts, unless it is empty. -/
def texts (tree : Tree) (paths : List String) (default : List Bytes) : List Bytes :=
  tree.firstOf paths (fun v => if v.toTexts.isEmpty then none else some v.toTexts) default

/-- A truth value. -/
def flag (tree : Tree) (paths : List String) (default : Bool) : Bool :=
  tree.firstOf paths (fun v => some v.toFlag) default

/-- An integer. -/
def integer (tree : Tree) (paths : List String) (default : Int) : Int :=
  tree.firstOf paths (fun v => some v.toInteger) default

/-- A map of texts. -/
def textMap (tree : Tree) (path : String) : List (Bytes × Bytes) :=
  ((tree.find (Bytes.ofString path)).map Value.toTextMap).getD []

end Tree

/-- A rule that is given a severity which does not exist. -/
structure UnknownSeverity where
  rule : Bytes
  name : Bytes

def UnknownSeverity.message (e : UnknownSeverity) : Bytes :=
  Bytes.ofString "lint.severity." ++ e.rule ++ Bytes.ofString ": " ++ Severity.unknownMessage e.name

/-- The globs that are linted unless others are given. -/
def defaultPaths : List Bytes := [Bytes.ofString "src/**/*.\x7bjs,jsx,ts,tsx\x7d"]

/-- The severities that settings give to rules. -/
def severities (tree : Tree) : Except UnknownSeverity (List (Bytes × Severity)) :=
  (tree.textMap "lint.severity").mapM fun (rule, name) =>
    match Severity.ofName? name with
    | some severity => .ok (rule, severity)
    | none => .error ⟨rule, name⟩

/-- The configuration of the linter. -/
def linterConfig (tree : Tree) : Except UnknownSeverity Stylesheet.Config := do
  return {
    indent := tree.integer ["indent", "lint.indent"] 2
    disabled := tree.texts ["disable", "lint.disable"] []
    severities := ← severities tree }

/-- The options apart from those of the linter. -/
structure Options where
  /-- The module whose templates are linted, empty for the default one. -/
  moduleName : Bytes
  /-- Whether colours are asked for. -/
  color : Bool
  /-- Whether a report shows the lines of its issues. -/
  printLines : Bool
  /-- The globs that are linted. -/
  paths : List Bytes
  /-- Whether any finding fails the run. -/
  strict : Bool
  /-- Whether there is no report. -/
  quiet : Bool
  /-- Whether the run is logged. -/
  verbose : Bool
  /-- The name of the format of the report. -/
  format : Bytes

/-- The options that settings stand for. Globs that come as arguments win over all others. -/
def Options.ofTree (tree : Tree) (arguments : List Bytes) : Options where
  moduleName := tree.text ["module-name", "module.name"] []
  color := tree.flag ["color"] false
  printLines := tree.flag ["print-lines", "lint.print-lines"] true
  paths :=
    if arguments.isEmpty then tree.texts ["paths", "lint.paths"] defaultPaths else arguments
  strict := tree.flag ["strict", "lint.strict"] false
  quiet := tree.flag ["quiet"] false
  verbose := tree.flag ["verbose"] false
  format := tree.text ["output-format", "lint.output-format"] []

end TemplateLint.Settings
