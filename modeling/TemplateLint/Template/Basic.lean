import TemplateLint.Template.Tag

/-!
# Template literals

A template literal is a sequence of literal texts and interpolations between two backticks.
Offsets count bytes of the source. The parts of a template alternate, starting and ending with
a literal, and their texts put together are the source between the backticks.
-/
namespace TemplateLint

/-- A piece of a template: literal text, or an interpolation with its delimiters. -/
structure Part where
  interpolated : Bool
  text : Bytes
  /-- Offset of the text in the source. -/
  offset : Nat
  deriving DecidableEq

/-- A tagged template literal. -/
structure Template where
  tag : Tag
  /-- Offset of the opening backtick. -/
  start : Nat
  /-- Offset of the closing backtick. -/
  stop : Nat
  parts : List Part
  deriving DecidableEq

end TemplateLint
