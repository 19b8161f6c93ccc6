import TemplateLint.Command.Flag
import TemplateLint.Settings.Load

/-!
# Commands

The program has a few commands. Without one it lints. Some flags belong to every command, the
others to one of them.
-/
namespace TemplateLint

/-- The name of the program. -/
def programName : Bytes := Bytes.ofString "styledlint"

/-- The commands. -/
inductive Command where
  /-- No command at all, which lints. -/
  | bare
  | lint
  | init
  | completion
  | version
  | help
  deriving DecidableEq

namespace Command

/-- The commands that are offered, in the order in which they are listed. -/
def offered : List Command := [lint, init, completion, version]

def name : Command → String
  | bare => ""
  | lint => "lint"
  | init => "init"
  | completion => "completion"
  | version => "version"
  | help => "help"

/-- The command with a name. -/
def ofName? (s : Bytes) : Option Command :=
  (offered ++ [help]).find? fun c => Bytes.ofString c.name = s

/-- The flags of every command. -/
def sharedFlags : List Flag :=
  [{ name := "verbose", kind := .toggle, letter := some 0x76, purpose := "Enable verbose logging" },
    { name := "quiet", kind := .toggle, purpose := "Suppress all output (exit code only)" },
    { name := "color", kind := .toggle, purpose := "Force color output" },
    { name := "config", kind := .text, purpose := "Config file path" },
    { name := "env-file", kind := .text,
      purpose := "Env file loaded before STYLEDLINT_* variables are read" }]

/-- The flag that asks for help. -/
def helpFlag : Flag :=
  { name := "help", kind := .toggle, letter := some 0x68, purpose := "Show this help" }

/-- The flags of one command alone. -/
def ownFlags : Command → List Flag
  | lint =>
    [{ name := "paths", kind := .texts, purpose := "File patterns to lint" },
      { name := "module-name", kind := .text,
        purpose := "Module whose import marks a file as using styled-components" },
      { name := "indent", kind := .integer, purpose := "Expected indentation width in spaces" },
      { name := "disable", kind := .texts, purpose := "Rules to disable" },
      { name := "output-format", kind := .text, purpose := "Output format: issues|summary|json" },
      { name := "strict", kind := .toggle,
        purpose := "Exit 1 on any finding, warnings included" },
      { name := "print-lines", kind := .toggle, purpose := "Show source lines with issues" }]
  | init =>
    [{ name := "force", kind := .toggle, purpose := "Overwrite existing config file" }]
  | _ => []

/-- The flags that a command takes. -/
def flags (c : Command) : List Flag := c.ownFlags ++ helpFlag :: sharedFlags

/-- What a command does. -/
def purpose : Command → String
  | bare => "CSS linter for styled-components templates"
  | lint => "Lint styled-components CSS in JS/TS files"
  | init => "Generate a default .styledlint.yaml config file"
  | completion => "Generate shell completion scripts"
  | version => "Print the version of styledlint"
  | help => "Help about any command"

/-- The arguments that a command takes. -/
def usage : Command → String
  | bare => "[command]"
  | lint => "lint [patterns...]"
  | init => "init"
  | completion => "completion [bash|zsh|fish|powershell]"
  | version => "version"
  | help => "help [command]"

/-- The help on a command. -/
def helpText (c : Command) : Bytes :=
  let line (left right : Bytes) : Bytes :=
    Bytes.ofString "  " ++ left ++ List.replicate (24 - left.length) Byte.space ++ right ++
      [Byte.newline]
  let commands :=
    if c = bare then
      Bytes.ofString "\nCommands:\n" ++
        offered.flatMap fun o => line (Bytes.ofString o.name) (Bytes.ofString o.purpose)
    else []
  Bytes.ofString c.purpose ++ Bytes.ofString "\n\nUsage:\n  " ++ programName ++
    Byte.space :: Bytes.ofString c.usage ++ [Byte.newline] ++ commands ++
    Bytes.ofString "\nFlags:\n" ++
    c.flags.flatMap fun f => line f.title (Bytes.ofString f.purpose)

end Command
end TemplateLint
