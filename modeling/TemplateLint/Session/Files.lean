import TemplateLint.Files.Tree
import TemplateLint.Session.Lint

/-!
# Linting files

Files are read and linted one after the other in one session. A file that cannot be read ends the
run without any verdict, and so does a linter that breaks down.
-/
namespace TemplateLint

/-- A file that cannot be read. -/
structure Unreadable where
  path : Bytes
  obstacle : Obstacle
  deriving DecidableEq

def Unreadable.message (u : Unreadable) : Bytes :=
  Bytes.ofString "read file: " ++ u.obstacle.readMessage u.path

/-- Why a run over files ends early. -/
inductive Interruption where
  | unreadable (u : Unreadable)
  | breakdown (b : Stylesheet.Breakdown)
  deriving DecidableEq

/-- The content of the file at a path, or the complaint that it cannot be read. -/
def Workspace.readFile (w : Workspace) (path : Bytes) : Except Unreadable Bytes :=
  (w.read path).mapError fun o => ⟨path, o⟩

namespace Setting

/-- Lint the files at some paths with one journal. -/
def lintFilesFrom (s : Setting) (linter : Stylesheet.Linter) (w : Workspace) :
    List Bytes → Journal → Except Interruption (List LintRun)
  | [], _ => return []
  | path :: rest, j => do
    let source ← (w.readFile path).mapError .unreadable
    let (run, j) ← (s.tryLintSource linter source path j).mapError .breakdown
    return run :: (← lintFilesFrom s linter w rest j)

/-- Lint the files at some paths with a fresh journal. -/
def lintFiles (s : Setting) (linter : Stylesheet.Linter) (w : Workspace) (paths : List Bytes) :
    Except Interruption (List LintRun) :=
  s.lintFilesFrom linter w paths {}

end Setting
end TemplateLint
