import TemplateLint.Settings.Tree

/-!
# The environment

Variables whose names start with the name of the program are settings. The rest of the name is
the path: letters in lower case, dots in place of underscores. Their values are texts.
-/
namespace TemplateLint

/-- The variables of the environment, each name once. -/
abbrev Environment := List (Bytes × Bytes)

namespace Environment

/-- The value of a variable, empty if it is not set. -/
def value (env : Environment) (name : String) : Bytes :=
  (env.lookup (Bytes.ofString name)).getD []

/-- Add variables that are not set yet. Of two with one name the first one counts. -/
def addMissing (env : Environment) : List (Bytes × Bytes) → Environment
  | [] => env
  | (name, value) :: rest =>
    if name.isEmpty || (env.lookup name).isSome then addMissing env rest
    else addMissing (env ++ [(name, value)]) rest

/-- How the names of settings start. -/
def settingStart : Bytes := Bytes.ofString "STYLEDLINT_"

/-- The path that the name of a variable stands for, if it is that of a setting. -/
def settingPath? (name : Bytes) : Option Bytes := do
  let rest ← Bytes.after? settingStart name
  let path := Bytes.replaceAll [Byte.underscore] [Byte.dot] (Bytes.toLower rest)
  if path.isEmpty then none else some path

/-- The settings that an environment holds. -/
def settings (env : Environment) : Settings.Tree :=
  env.foldl (fun tree (name, value) =>
    match settingPath? name with
    | some path => Settings.Tree.putPath path (.text value) tree
    | none => tree) []

end Environment
end TemplateLint
