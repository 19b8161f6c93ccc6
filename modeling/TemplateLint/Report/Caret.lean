import TemplateLint.Text.Rune

/-!
# Carets

A caret under a source line marks a column. The padding before it keeps the tabs of the line,
so that the caret stands under its column however wide tabs are shown.
-/
namespace TemplateLint.Caret

/-- What stands under one character: a tab under a tab and a space under anything else. -/
def pad : Rune → UInt8
  | .char c => if c.toNat = 0x09 then Byte.tab else Byte.space
  | .stray _ => Byte.space

/-- The padding and caret for a column of a line. The column limits the bytes that are padded;
one before the first column counts as the first and one behind the end as the end. -/
def caret (line : Bytes) (column : Int) : Bytes :=
  (Rune.decode (line.take (column - 1).toNat)).map pad ++ [0x5e]

end TemplateLint.Caret
