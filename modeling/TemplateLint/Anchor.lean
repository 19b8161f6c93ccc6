import TemplateLint.Text.Bytes

/-!
# From extracted columns back to source columns

An anchor pins a column of an extracted line to the source column it came from. Columns
behind an anchor keep their distance from it, up to the next anchor; columns before the first
anchor are measured from the first.

`LineMap` is a map from line numbers, kept as a list in increasing order of lines.
-/
namespace TemplateLint

/-- A column of an extracted line and the source column it stands for. -/
structure Anchor where
  fragment : Int
  source : Int
  deriving DecidableEq

namespace Anchor

/-- The last anchor at or before a column, or `current` when the next one lies behind it. -/
def nearest (column : Int) (current : Anchor) : List Anchor → Anchor
  | [] => current
  | a :: rest => if column < a.fragment then current else nearest column a rest

/-- The source column of an extracted column. -/
def sourceColumn (column : Int) : List Anchor → Int
  | [] => column
  | first :: rest =>
    if column ≤ 0 then column
    else
      let anchor := nearest column first rest
      max 1 (anchor.source + column - anchor.fragment)

end Anchor

/-- A map from line numbers, in increasing order of lines. -/
abbrev LineMap (α : Type) := List (Int × α)

namespace LineMap
variable {α : Type}

/-- The map with the value of one line set. -/
def insert (line : Int) (value : α) : LineMap α → LineMap α
  | [] => [(line, value)]
  | (k, v) :: rest =>
    if line < k then (line, value) :: (k, v) :: rest
    else if line = k then (line, value) :: rest
    else (k, v) :: insert line value rest

/-- The value of a line. -/
def get? (m : LineMap α) (line : Int) : Option α :=
  (m.find? fun (k, _) => k == line).map Prod.snd

/-- The first map overlaid by the second, whose entries are set in their order. -/
def merge (m overlay : LineMap α) : LineMap α :=
  overlay.foldl (fun m (line, value) => insert line value m) m

end LineMap
end TemplateLint
