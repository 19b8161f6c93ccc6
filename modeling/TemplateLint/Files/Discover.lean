import TemplateLint.Files.Glob
import TemplateLint.Files.Ignore

/-!
# Discovering files

`discover` lists the files that some globs match, each once and in the order of its first
match. Vendored files are left out, and so are relative paths that an ignore file names.
-/
namespace TemplateLint

/-- Whether a path belongs to installed packages, type declarations or minified bundles. -/
def isVendored (path : Bytes) : Bool :=
  Bytes.containsText (Bytes.ofString "/node_modules/") (Byte.slash :: path) ||
    Bytes.endsWith (Bytes.ofString ".d.ts") path ||
    Bytes.endsWith (Bytes.ofString ".min.js") path

/-- Whether a path is left out. Ignore rules only say something about relative paths. -/
def isSkipped (rules : List Ignore.Rule) (path : Bytes) : Bool :=
  isVendored path || (!Path.isAbsolute path && Ignore.isIgnored rules path)

/-- The files that are kept, in the order of their first match, and how many there were. -/
structure Discovery where
  files : List Bytes := []
  /-- The number of files, kept or not. -/
  discovered : Nat := 0
  scanned : Nat := 0
  skipped : Nat := 0

/-- A search under way, with the files met so far. -/
structure Search extends Discovery where
  seen : List Bytes := []

namespace Search

/-- One match. What was met before counts no more, and only files count. -/
def visit (w : Workspace) (rules : List Ignore.Rule) (s : Search) (path : Bytes) : Search :=
  if path ∈ s.seen then s
  else if !w.isFile path then s
  else if isSkipped rules path then
    { s with
      seen := s.seen ++ [path]
      discovered := s.discovered + 1
      skipped := s.skipped + 1 }
  else
    { s with
      seen := s.seen ++ [path]
      discovered := s.discovered + 1
      files := s.files ++ [path]
      scanned := s.scanned + 1 }

/-- All matches of a glob. -/
def expand (w : Workspace) (rules : List Ignore.Rule) (s : Search) (glob : Bytes) :
    Except GlobError Search := do
  return (← Glob.expand w glob).foldl (visit w rules) s

end Search

/-- The files that some globs match. The first malformed glob ends the search. -/
def discover (w : Workspace) (rules : List Ignore.Rule) (globs : List Bytes) :
    Except GlobError Discovery := do
  return (← globs.foldlM (Search.expand w rules) {}).toDiscovery

/-- The name of the ignore file in the working directory. -/
def ignoreFile : Bytes := Bytes.ofString ".gitignore"

/-- The rules of the ignore file. Without one there are none. -/
def Workspace.ignoreRules (w : Workspace) : List Ignore.Rule :=
  match w.read ignoreFile with
  | .ok content => Ignore.ofLines (Bytes.lines content)
  | .error _ => []

end TemplateLint
