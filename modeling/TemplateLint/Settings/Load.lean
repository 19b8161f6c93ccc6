import TemplateLint.Files.Tree
import TemplateLint.Settings.EnvFile
import TemplateLint.Settings.Environment
import TemplateLint.Yaml.Document

/-!
# Loading settings

Settings come from a file, from the environment and from the command line, each laid over the
one before. A file of variables adds to the environment first. Files that are not there are
passed over.
-/
namespace TemplateLint.Settings

/-- The file of settings that is read unless another one is named. -/
def defaultFile : Bytes := Bytes.ofString ".styledlint.yaml"

/-- The file of variables that is read unless another one is named. -/
def defaultEnvFile : Bytes := Bytes.ofString ".env"

/-- Why settings cannot be loaded. -/
structure LoadError where
  /-- What was being loaded. -/
  subject : Bytes
  detail : Bytes

def LoadError.message (e : LoadError) : Bytes := e.subject ++ e.detail

/-- What kind of file a path leads to. -/
def LoadError.subjectOf (kind : String) (path : Bytes) : Bytes :=
  Bytes.ofString "loading " ++ Bytes.ofString kind ++ Byte.space :: path ++ Bytes.ofString ": "

/-- Load a file that may be missing. -/
def loadFile {α : Type} (w : Workspace) (kind : String) (path : Bytes) (missing : α)
    (parse : Bytes → Except Bytes α) : Except LoadError α :=
  let failure (detail : Bytes) : LoadError := ⟨LoadError.subjectOf kind path, detail⟩
  if w.pathExists path then
    match w.read path with
    | .error o => .error (failure (o.readMessage path))
    | .ok content => (parse content).mapError failure
  else .ok missing

/-- The environment together with the variables of a file. -/
def loadEnvironment (w : Workspace) (env : Environment) (path : Bytes) :
    Except LoadError Environment :=
  loadFile w "env file" path env fun content =>
    match EnvFile.read content with
    | .ok assignments => .ok (env.addMissing assignments)
    | .error p => .error p.description

/-- The settings of a file. -/
def loadTree (w : Workspace) (path : Bytes) : Except LoadError Tree :=
  loadFile w "config file" path [] fun content =>
    (Yaml.readSettings content).mapError fun p => Bytes.ofString p.description

/-- What has been loaded. -/
structure Loaded where
  tree : Tree
  env : Environment

/-- Load all settings. `given` are those of the command line, `file` and `envFile` the paths of
the files. -/
def load (w : Workspace) (env : Environment) (given : Tree) (file envFile : Bytes) :
    Except LoadError Loaded := do
  let env ← loadEnvironment w env envFile
  let tree ← loadTree w (if file.isEmpty then defaultFile else file)
  return ⟨Tree.overlay given (Tree.overlay env.settings tree), env⟩

end TemplateLint.Settings
