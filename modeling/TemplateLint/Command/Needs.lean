import TemplateLint.Command.Run

/-!
# What a run reads

A run depends on a small part of the file system, which can be told in steps: the files of
settings from the command line alone, then the directories that the globs look into, then the
files that are linted. Whoever provides these parts need not provide any other.
-/
namespace TemplateLint.Command

/-- What the flags of a command line that lints are, if it is one. -/
def linting? (arguments : List Bytes) : Option Given :=
  match read arguments with
  | .ok (.bare, given) => some given
  | .ok (.lint, given) => some given
  | _ => none

/-- The files that are read before any other. -/
def settingFiles (arguments : List Bytes) : List Bytes :=
  match linting? arguments with
  | some given =>
    [given.text "config" Settings.defaultFile, given.text "env-file" Settings.defaultEnvFile,
      Settings.defaultFile, ignoreFile]
  | none => [Settings.defaultFile]

/-- The plan of a command line that lints. -/
def plan? (s : Surroundings) (arguments : List Bytes) : Option Plan := do
  (plan s (← linting? arguments)).toOption

/-- The directories whose contents globs look through. -/
def globRoots (s : Surroundings) (arguments : List Bytes) : List Bytes :=
  match plan? s arguments with
  | some p =>
    (p.options.paths.filter (Glob.hasMeta false)).map fun glob => (Glob.splitBase (Path.clean glob)).1
  | none => []

/-- The paths that stand for themselves instead of being looked for. -/
def plainPaths (s : Surroundings) (arguments : List Bytes) : List Bytes :=
  match plan? s arguments with
  | some p =>
    (p.options.paths.filter fun glob => !Glob.hasMeta false glob).map fun glob =>
      Glob.unescape (Path.clean glob)
  | none => []

/-- The files that are linted. -/
def sourceFiles (s : Surroundings) (arguments : List Bytes) : List Bytes :=
  match plan? s arguments with
  | some p =>
    match discover s.workspace s.workspace.ignoreRules p.options.paths with
    | .ok d => d.files
    | .error _ => []
  | none => []

end TemplateLint.Command
