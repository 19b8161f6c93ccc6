import TemplateLint.Command.Log
import TemplateLint.Command.Select
import TemplateLint.Report.Format
import TemplateLint.Session.Files
import TemplateLint.Settings.Options

/-!
# Running a command line

`run` maps a command line and its surroundings to an outcome: what is printed and logged, the
files as they are left, and whether the run failed. Linting fails if a verdict is errored, or in
strict runs if there is any finding; such a failure has no message. A linter that breaks down takes
the program with it, which then ends with a code of its own.
-/
namespace TemplateLint.Command

/-- What a run finds around it. -/
structure Surroundings where
  workspace : Workspace
  env : Environment
  /-- Whether the output goes to a terminal. -/
  terminal : Bool
  /-- The time that an export is stamped with. -/
  timestamp : Bytes

/-- Why a command fails. -/
inductive Failure where
  | unknownCommand (word : Bytes)
  | flag (e : FlagError)
  | load (e : Settings.LoadError)
  | severity (e : Settings.UnknownSeverity)
  | rule (e : Stylesheet.UnknownRule)
  | glob (e : GlobError)
  | unreadable (e : Unreadable)
  | breakdown (b : Stylesheet.Breakdown)
  /-- A number of arguments other than one. -/
  | argumentCount (count : Nat)
  /-- An argument that is no shell. -/
  | unknownShell (name : Bytes)
  /-- The file of settings is there already. -/
  | fileExists
  | unwritable (o : Obstacle)

def Failure.message : Failure → Bytes
  | unknownCommand word => unknownMessage word
  | flag e => e.message
  | load e => e.message
  | severity e => e.message
  | rule e => Bytes.ofString "configure linter: " ++ e.message
  | glob e => Bytes.ofString "discover files: " ++ e.message
  | unreadable e => e.message
  | breakdown b => b.message
  | argumentCount count =>
    Bytes.ofString "accepts 1 arg(s), received " ++ Bytes.ofNat count
  | unknownShell name =>
    Bytes.ofString "invalid argument " ++ Quoted.quote name ++ Bytes.ofString " for " ++
      Quoted.quote (programName ++ Byte.space :: Bytes.ofString completion.name)
  | fileExists =>
    Settings.defaultFile ++ Bytes.ofString " already exists (use --force to overwrite)"
  | unwritable o => Bytes.ofString "writing config file: " ++ o.openMessage Settings.defaultFile

def Failure.isBreakdown : Failure → Bool
  | breakdown _ => true
  | _ => false

/-- The failure that an interrupted run over files is. -/
def Failure.ofInterruption : Interruption → Failure
  | .unreadable u => unreadable u
  | .breakdown b => breakdown b

/-- What a run leaves behind. -/
structure Outcome where
  workspace : Workspace
  output : Bytes := []
  /-- The lines of the log, without their ends. -/
  log : List Bytes := []
  /-- Whether linting found reason to fail. -/
  rejected : Bool := false
  /-- Why the command failed, if it did. -/
  failure : Option Failure := none

namespace Outcome

/-- Whether the run ended well. -/
def succeeded (o : Outcome) : Bool := !o.rejected && o.failure.isNone

/-- The code the program ends with. -/
def exitCode (o : Outcome) : Nat :=
  if o.succeeded then 0 else if o.failure.any Failure.isBreakdown then 2 else 1

end Outcome

/-- A message as it is shown to the user. -/
def errorText (message : Bytes) : Bytes := Bytes.ofString "Error: " ++ message ++ [Byte.newline]

/-- What a run of the linter goes by. -/
structure Plan where
  loaded : Settings.Loaded
  options : Settings.Options

/-- The plan that a command line and its surroundings make. -/
def plan (s : Surroundings) (given : Given) : Except Settings.LoadError Plan := do
  let file := given.text "config" Settings.defaultFile
  let envFile := given.text "env-file" Settings.defaultEnvFile
  let loaded ← Settings.load s.workspace s.env given.values file envFile
  return ⟨loaded, Settings.Options.ofTree loaded.tree given.arguments⟩

/-- The page that a report is written on. -/
def page (s : Surroundings) (p : Plan) : Report.Page where
  ink :=
    { colors := Ink.wantsColors p.options.color s.terminal p.loaded.env.value
      codes := Ink.wantsCodes s.terminal p.loaded.env.value }
  printLines := p.options.printLines
  read := fun path => (s.workspace.read path).toOption

/-- Whether verdicts fail a run. -/
def isRejected (strict : Bool) (verdicts : List Verdict) : Bool :=
  anyErrored verdicts || (strict && 0 < countFindings verdicts)

/-- Lint what a plan names. -/
def lintPlan (s : Surroundings) (p : Plan) : Except Failure Outcome := do
  let config ← (Settings.linterConfig p.loaded.tree).mapError .severity
  let linter ← (Stylesheet.Linter.ofConfig config).mapError .rule
  let w := s.workspace
  let discovery ← (discover w w.ignoreRules p.options.paths).mapError .glob
  let setting := Setting.create w.directory p.options.moduleName
  let runs ← (setting.lintFiles linter w discovery.files).mapError .ofInterruption
  let verdicts := runs.map (·.verdict)
  let format := Report.Format.choose p.options.format p.options.quiet
  return {
    workspace := w
    output := if p.options.quiet then [] else Report.write format (page s p) s.timestamp verdicts
    log := if p.options.verbose then Log.ofDiscovery discovery :: runs.flatMap Log.ofRun else []
    rejected := isRejected p.options.strict verdicts }

/-- Load the settings and lint. -/
def runLint (s : Surroundings) (given : Given) : Except Failure Outcome := do
  lintPlan s (← (plan s given).mapError .load)

/-- The file of settings that `init` writes. -/
def initialSettings : Bytes := Bytes.ofString <| String.intercalate "\n" [
  "# styledlint configuration",
  "# Precedence: flags > STYLEDLINT_* environment (.env included) > this file",
  "",
  "verbose: false",
  "",
  "# Import that marks a file as using styled-components",
  "module:",
  "  name: styled-components",
  "",
  "# Linting settings",
  "lint:",
  "  paths:",
  "    - \x22src/**/*.\x7bjs,jsx,ts,tsx\x7d\x22",
  "  indent: 2",
  "  disable: []",
  "  # Per-rule severity: error | warning",
  "  severity:",
  "    indentation: warning",
  "  strict: false",
  "  output-format: issues    # issues | summary | json",
  "  print-lines: true",
  ""]

/-- Write a file of settings. One that is there is kept unless the user insists. -/
def runInit (s : Surroundings) (given : Given) : Except Failure Outcome := do
  if s.workspace.pathExists Settings.defaultFile && !given.toggle "force" then .error .fileExists
  else
    let w ← (s.workspace.write Settings.defaultFile initialSettings).mapError .unwritable
    return {
      workspace := w
      output := Bytes.ofString "Created " ++ Settings.defaultFile ++ [Byte.newline] }

/-- The shells that completion scripts are written for. -/
inductive Shell where
  | bash
  | zsh
  | fish
  | powershell

namespace Shell

def ofName? (s : Bytes) : Option Shell :=
  [("bash", bash), ("zsh", zsh), ("fish", fish), ("powershell", powershell)].findSome?
    fun (name, shell) => if Bytes.ofString name = s then some shell else none

/-- A script that completes the names of the commands. -/
def script (shell : Shell) : Bytes :=
  let names := Bytes.join [Byte.space] (offered.map fun c => Bytes.ofString c.name)
  let (before, after) :=
    match shell with
    | bash => ("complete -W '", "' styledlint")
    | zsh => ("#compdef styledlint\ncompadd ", "")
    | fish => ("complete -c styledlint -f -n __fish_use_subcommand -a '", "'")
    | powershell =>
      ("Register-ArgumentCompleter -Native -CommandName styledlint -ScriptBlock \x7b -split '",
        "' \x7d")
  Bytes.ofString before ++ names ++ Bytes.ofString after ++ [Byte.newline]

end Shell

/-- Write a completion script. -/
def runCompletion (s : Surroundings) (given : Given) : Except Failure Outcome :=
  match given.arguments with
  | [name] =>
    match Shell.ofName? name with
    | some shell => .ok { workspace := s.workspace, output := shell.script }
    | none => .error (.unknownShell name)
  | arguments => .error (.argumentCount arguments.length)

/-- The version of the program. -/
def versionText : Bytes := programName ++ Bytes.ofString " dev\n"

/-- Write the help on the command that arguments name. -/
def runHelp (s : Surroundings) (given : Given) : Outcome :=
  let topic := (given.arguments.head?.bind ofName?).getD bare
  { workspace := s.workspace, output := topic.helpText }

/-- Run a command with the flags and arguments it was given. -/
def runWith (s : Surroundings) (c : Command) (given : Given) : Except Failure Outcome :=
  if given.toggle helpFlag.name then .ok { workspace := s.workspace, output := c.helpText }
  else
    match c with
    | bare => runLint s given
    | lint => runLint s given
    | init => runInit s given
    | completion => runCompletion s given
    | version => .ok { workspace := s.workspace, output := versionText }
    | help => .ok (runHelp s given)

/-- The command of a command line with its flags and arguments. -/
def read (arguments : List Bytes) : Except Failure (Command × Given) := do
  let (command, rest) ← (select arguments).mapError .unknownCommand
  return (command, ← (readFlags command.flags rest).mapError .flag)

/-- Run a command line. -/
def run (s : Surroundings) (arguments : List Bytes) : Outcome :=
  match (do
    let (command, given) ← read arguments
    runWith s command given : Except Failure Outcome) with
  | .ok outcome => outcome
  | .error failure => { workspace := s.workspace, failure := some failure }

end TemplateLint.Command
