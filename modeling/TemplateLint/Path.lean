import TemplateLint.Text.Bytes

/-!
# Paths

Paths are cleaned by their text alone, without a look at any file: repeated separators and
single dots vanish and a double dot removes the name before it. A double dot at the root
vanishes too.
-/
namespace TemplateLint.Path

def isAbsolute (path : Bytes) : Bool := path.head? == some Byte.slash

/-- The names between the separators of a path. -/
def names (path : Bytes) : List Bytes := path.splitOn Byte.slash

/-- A path in which one name goes up. -/
def up : Bytes := [Byte.dot, Byte.dot]

/-- The names of a cleaned path behind some that are cleaned already and given in reverse. -/
def reduce (rooted : Bool) (reversed : List Bytes) : List Bytes → List Bytes
  | [] => reversed.reverse
  | name :: rest =>
    if name = [] || name = [Byte.dot] then reduce rooted reversed rest
    else if name = up then
      match reversed with
      | [] => reduce rooted (if rooted then [] else [up]) rest
      | last :: before =>
        if last = up then reduce rooted (up :: last :: before) rest
        else reduce rooted before rest
    else reduce rooted (name :: reversed) rest

/-- The shortest path that means the same by its text. -/
def clean (path : Bytes) : Bytes :=
  let rooted := isAbsolute path
  let joined := Bytes.join [Byte.slash] (reduce rooted [] (names path))
  if rooted then Byte.slash :: joined
  else if joined.isEmpty then [Byte.dot]
  else joined

/-- A path seen from a directory, cleaned. -/
def absolute (directory path : Bytes) : Bytes :=
  if isAbsolute path then clean path else clean (directory ++ [Byte.slash] ++ path)

/-- A cleaned path inside a directory. -/
def join (directory name : Bytes) : Bytes :=
  if directory.isEmpty then clean name else clean (directory ++ [Byte.slash] ++ name)

end TemplateLint.Path
