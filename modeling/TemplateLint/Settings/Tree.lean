import TemplateLint.Settings.Value

/-!
# Trees of settings

Settings from several sources are laid over each other: where both hold a map under a key the
maps are joined, otherwise the later source wins. A setting is looked up by its path, the keys
on the way to it joined by dots. A key that itself holds a dot is found under the same path.
-/
namespace TemplateLint.Settings

/-- A tree of settings. -/
abbrev Tree := List (Bytes × Value)

namespace Tree

mutual
/-- A value laid over the one below it. -/
def overlayValue : Value → Option Value → Value
  | .map upper, some (.map lower) => .map (overlay upper lower)
  | v, _ => v

/-- The entries of one tree laid over another. -/
def overlay : Tree → Tree → Tree
  | [], lower => lower
  | (k, v) :: rest, lower =>
    overlay rest (Value.setEntry k (overlayValue v (lower.lookup k)) lower)
end

/-- What is left of a path behind a key: `some none` if the path ends there. -/
def behindKey (key path : Bytes) : Option (Option Bytes) :=
  match Bytes.after? key path with
  | some [] => some none
  | some (b :: rest) => if b = Byte.dot then some (some rest) else none
  | none => none

mutual
/-- The value at a path below a value. -/
def findBelow (path : Bytes) : Value → Option Value
  | .map entries => find entries path
  | _ => none

/-- The value at a path. -/
def find : Tree → (path : Bytes) → Option Value
  | [], _ => none
  | (key, value) :: rest, path =>
    match behindKey key path with
    | some none => some value
    | some (some below) => (findBelow below value).or (find rest path)
    | none => find rest path
end

/-- Set the value at a path of keys. A value in the way that is no map is passed over. -/
def put : (path : List Bytes) → Value → Tree → Tree
  | [], _, tree => tree
  | [key], value, tree => Value.setEntry key value tree
  | key :: path, value, tree =>
    match tree.lookup key with
    | none => Value.setEntry key (.map (put path value [])) tree
    | some (.map entries) => Value.setEntry key (.map (put path value entries)) tree
    | some _ => put path value tree

/-- Set the value at a path whose keys are joined by dots. -/
def putPath (path : Bytes) (value : Value) (tree : Tree) : Tree :=
  put (path.splitOn Byte.dot) value tree

end Tree
end TemplateLint.Settings
