import TemplateLint.Text.Rune

/-!
# Positions in a text

A position is a line and a column, both counted from one. Columns count runes and only a
newline starts a new line. The position of an offset is reached by walking over the runes
before it.
-/
namespace TemplateLint

/-- A place in a text. -/
structure Position where
  line : Nat
  column : Nat
  deriving DecidableEq

namespace Position

/-- The first position of a text. -/
def start : Position := ⟨1, 1⟩

/-- The position behind a rune. -/
def next (p : Position) (r : Rune) : Position :=
  if r.isNewline then ⟨p.line + 1, 1⟩ else ⟨p.line, p.column + 1⟩

/-- The position behind a text that starts at `p`. -/
def after (p : Position) (text : Bytes) : Position := (Rune.decode text).foldl next p

/-- The position of the byte at `offset`. -/
def ofOffset (text : Bytes) (offset : Nat) : Position := start.after (text.take offset)

end Position
end TemplateLint
