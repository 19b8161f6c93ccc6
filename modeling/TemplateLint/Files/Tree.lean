import TemplateLint.Path

/-!
# Trees of files

A node is a file, a directory or a symbolic link, and the entries of a directory stand in
increasing order of their names. `Workspace` is a whole file system together with a working
directory. A path is followed name by name, so every directory on the way has to be there, also one
that a later double dot leaves again. A link is followed where it is met: a double dot behind it
leads up from the directory that the link leads to, not from the one that the link stands in.
-/
namespace TemplateLint

/-- A file, a directory or a symbolic link. -/
inductive Node where
  | file (content : Bytes)
  | directory (entries : List (Bytes × Node))
  | link (target : Bytes)

namespace Node

def isDirectory : Node → Bool
  | directory _ => true
  | _ => false

/-- The entries of a directory. No other node has any. -/
def entries : Node → List (Bytes × Node)
  | directory entries => entries
  | _ => []

/-- The entry of a given name. -/
def child? (node : Node) (name : Bytes) : Option Node := node.entries.lookup name

/-- Entries with one of them set, in increasing order of names. -/
def setEntry (name : Bytes) (node : Node) : List (Bytes × Node) → List (Bytes × Node)
  | [] => [(name, node)]
  | (n, old) :: rest =>
    if n = name then (name, node) :: rest
    else if Bytes.le name n then (name, node) :: (n, old) :: rest
    else (n, old) :: setEntry name node rest

/-- A node in which what is found at a path below it is changed. Missing directories are made. -/
def alter (change : Option Node → Node) : List Bytes → Option Node → Node
  | [], node => change node
  | name :: rest, node =>
    let entries := (node.map entries).getD []
    directory (setEntry name (alter change rest (entries.lookup name)) entries)

/-- A tree with a file put at a path. -/
def putFile (path : List Bytes) (content : Bytes) (root : Node) : Node :=
  alter (fun _ => file content) path (some root)

/-- A tree with a directory at a path. -/
def putDirectory (path : List Bytes) (root : Node) : Node :=
  alter (fun node => directory ((node.map entries).getD [])) path (some root)

/-- A tree with a link put at a path. -/
def putLink (path : List Bytes) (target : Bytes) (root : Node) : Node :=
  alter (fun _ => link target) path (some root)

end Node

/-- Why a path leads nowhere. -/
inductive Obstacle where
  | missing
  /-- A file stands where the path needs a directory. -/
  | notDirectory
  /-- A directory stands where a file is wanted. -/
  | isDirectory
  /-- The path goes through more links than are followed. -/
  | tooManyLinks
  deriving DecidableEq

namespace Obstacle

def description : Obstacle → Bytes
  | missing => Bytes.ofString "no such file or directory"
  | notDirectory => Bytes.ofString "not a directory"
  | isDirectory => Bytes.ofString "is a directory"
  | tooManyLinks => Bytes.ofString "too many levels of symbolic links"

/-- The message for a path that cannot be opened. -/
def openMessage (o : Obstacle) (path : Bytes) : Bytes :=
  Bytes.ofString "open " ++ path ++ Bytes.ofString ": " ++ o.description

/-- The message for a path that cannot be read. A directory can be opened and fails later. -/
def readMessage (o : Obstacle) (path : Bytes) : Bytes :=
  match o with
  | isDirectory => Bytes.ofString "read " ++ path ++ Bytes.ofString ": " ++ o.description
  | _ => o.openMessage path

end Obstacle

/-- A node of a tree, with the directories above it, the nearest first. Each of them comes with the
name of its entry on the way. -/
structure Location where
  node : Node
  above : List (Bytes × Node) := []

/-- How far names can be followed. -/
inductive Way where
  /-- To their end. -/
  | arrived (location : Location)
  /-- To a link in a directory, with names left behind it. -/
  | link (directory : Location) (target : Bytes) (rest : List Bytes)
  /-- To an entry that a directory lacks, with names left behind it. -/
  | missing (directory : Location) (name : Bytes) (rest : List Bytes)
  /-- To a file that has names left behind it. -/
  | blocked

namespace Location

/-- The names that lead to a location. -/
def names (l : Location) : List Bytes := (l.above.map Prod.fst).reverse

/-- The directory above. The root is above itself. -/
def up (l : Location) : Location :=
  match l.above with
  | [] => l
  | (_, parent) :: above => ⟨parent, above⟩

/-- The location of an entry. -/
def down (l : Location) (name : Bytes) (node : Node) : Location := ⟨node, (name, l.node) :: l.above⟩

/-- Follow names as far as there is no link. -/
def walk : Location → List Bytes → Way
  | l, [] => .arrived l
  | l, name :: rest =>
    match l.node with
    | .directory entries =>
      if name = [] || name = [Byte.dot] then walk l rest
      else if name = Path.up then walk l.up rest
      else
        match entries.lookup name with
        | none => .missing l name rest
        | some (.link target) => .link l target rest
        | some node => walk (l.down name node) rest
    | _ => .blocked

/-- Where the target of a link starts, given the directory that holds the link. -/
def origin (root : Node) (directory : Location) (target : Bytes) : Location :=
  if Path.isAbsolute target then ⟨root, []⟩ else directory

/-- Follow names through at most a number of links, and say how many could have been followed
still. A way that ends at a link had too many of them. -/
def follow (root : Node) : (links : Nat) → Location → List Bytes → Nat × Way
  | 0, l, names => (0, l.walk names)
  | links + 1, l, names =>
    match l.walk names with
    | .link directory target rest =>
      follow root links (directory.origin root target) (Path.names target ++ rest)
    | way => (links + 1, way)

end Location

/-- The location that a way leads to. -/
def Way.location : Way → Except Obstacle Location
  | arrived l => .ok l
  | link .. => .error .tooManyLinks
  | missing .. => .error .missing
  | blocked => .error .notDirectory

/-- The number of links that are followed on the way to a file. -/
def maxLinks : Nat := 40

/-- A file system and a working directory in it. -/
structure Workspace where
  root : Node
  /-- The path of the working directory, absolute and clean. -/
  directory : Bytes

namespace Workspace

/-- The names of a path from the root. -/
def rootedNames (w : Workspace) (path : Bytes) : List Bytes :=
  if Path.isAbsolute path then Path.names path
  else Path.names w.directory ++ Path.names path

/-- How far a path can be followed, and the number of links that could have been followed still. -/
def follow (w : Workspace) (path : Bytes) : Nat × Way :=
  Location.follow w.root maxLinks ⟨w.root, []⟩ (w.rootedNames path)

/-- What stands at a path. Nothing stands at the empty path. -/
def find (w : Workspace) (path : Bytes) : Except Obstacle Node :=
  if path.isEmpty then .error .missing else (w.follow path).2.location.map Location.node

/-- Whether anything stands at a path. -/
def pathExists (w : Workspace) (path : Bytes) : Bool := (w.find path).isOk

/-- Whether a file stands at a path. -/
def isFile (w : Workspace) (path : Bytes) : Bool :=
  match w.find path with
  | .ok node => !node.isDirectory
  | .error _ => false

/-- The content of the file at a path. -/
def read (w : Workspace) (path : Bytes) : Except Obstacle Bytes :=
  match w.find path with
  | .ok (.file content) => .ok content
  | .ok (.directory _) => .error .isDirectory
  | .ok (.link _) => .error .tooManyLinks
  | .error o => .error o

/-- The names of a cleaned path from the root. -/
def cleanNames (w : Workspace) (path : Bytes) : List Bytes :=
  (Path.names (Path.absolute w.directory path)).filter (! ·.isEmpty)

/-- The workspace of an empty file system. -/
def empty (directory : Bytes) : Workspace where
  root := Node.putDirectory ((Path.names directory).filter (! ·.isEmpty)) (.directory [])
  directory

/-- The workspace with a file, and with the directories on the way to it. -/
def addFile (w : Workspace) (path content : Bytes) : Workspace :=
  { w with root := w.root.putFile (w.cleanNames path) content }

/-- The workspace with a directory, and with those on the way to it. -/
def addDirectory (w : Workspace) (path : Bytes) : Workspace :=
  { w with root := w.root.putDirectory (w.cleanNames path) }

/-- The workspace with a link, and with the directories on the way to it. -/
def addLink (w : Workspace) (path target : Bytes) : Workspace :=
  { w with root := w.root.putLink (w.cleanNames path) target }

/-- The workspace with a file written. The directory it belongs to has to be there, and a link is
followed to the file it leads to, which may be new. -/
def write (w : Workspace) (path content : Bytes) : Except Obstacle Workspace :=
  let put (names : List Bytes) : Workspace := { w with root := w.root.putFile names content }
  match (w.follow path).2 with
  | .arrived l => if l.node.isDirectory then .error .isDirectory else .ok (put l.names)
  | .missing directory name [] => .ok (put (directory.names ++ [name]))
  | .missing .. => .error .missing
  | .link .. => .error .tooManyLinks
  | .blocked => .error .notDirectory

end Workspace
end TemplateLint
