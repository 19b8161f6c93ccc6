import TemplateLint.Text.Quoted

/-!
# Values in JSON

`JsonValue.render` writes a value with one item or field to a line, two spaces for each level.
Strings escape quotes, backslashes, control characters, the three characters that mean
something in markup, and the two line separators beyond ASCII. A stray byte is written as the
replacement character.
-/
namespace TemplateLint

/-- A value of the kinds that reports are made of. Fields keep their order. -/
inductive JsonValue where
  | text (s : Bytes)
  | number (n : Int)
  | flag (b : Bool)
  | list (items : List JsonValue)
  | record (fields : List (String × JsonValue))

namespace JsonValue

/-- A code point below 0x10000 as an escape. -/
def numericEscape (n : Nat) : Bytes := Byte.backslash :: 0x75 :: Quoted.hexDigits 4 n

/-- The letter of a character with a short escape. -/
def shortEscape? (n : Nat) : Option UInt8 :=
  match n with
  | 0x08 => some 0x62
  | 0x09 => some 0x74
  | 0x0a => some 0x6e
  | 0x0c => some 0x66
  | 0x0d => some 0x72
  | 0x22 => some 0x22
  | 0x5c => some 0x5c
  | _ => none

/-- Whether a character without a short escape is escaped by number. -/
def needsEscape (n : Nat) : Bool :=
  n < 0x20 || n == 0x26 || n == 0x3c || n == 0x3e || n == 0x2028 || n == 0x2029

/-- One rune inside a string. -/
def escapeRune : Rune → Bytes
  | .stray _ => numericEscape 0xfffd
  | .char c =>
    match shortEscape? c.toNat with
    | some b => [Byte.backslash, b]
    | none => if needsEscape c.toNat then numericEscape c.toNat else (Rune.char c).encode

/-- A string between its quotes. -/
def renderText (s : Bytes) : Bytes :=
  Byte.doubleQuote :: (Rune.decode s).flatMap escapeRune ++ [Byte.doubleQuote]

/-- The start of a line at some level. -/
def lineBreak (level : Nat) : Bytes := Byte.newline :: List.replicate (2 * level) Byte.space

mutual
/-- A value whose first line stands at some level. -/
def renderAt (level : Nat) : JsonValue → Bytes
  | text s => renderText s
  | number n => Bytes.ofInt n
  | flag b => Bytes.ofString (if b then "true" else "false")
  | list [] => [Byte.openBracket, Byte.closeBracket]
  | list (item :: items) =>
    Byte.openBracket :: lineBreak (level + 1) ++ renderAt (level + 1) item ++
      renderItems (level + 1) items ++ lineBreak level ++ [Byte.closeBracket]
  | record [] => [Byte.openBrace, Byte.closeBrace]
  | record ((name, value) :: fields) =>
    Byte.openBrace :: lineBreak (level + 1) ++ renderText (Bytes.ofString name) ++
      Bytes.ofString ": " ++ renderAt (level + 1) value ++
      renderFields (level + 1) fields ++ lineBreak level ++ [Byte.closeBrace]

/-- The items of a list behind the first. -/
def renderItems (level : Nat) : List JsonValue → Bytes
  | [] => []
  | item :: items =>
    Byte.comma :: lineBreak level ++ renderAt level item ++ renderItems level items

/-- The fields of a record behind the first. -/
def renderFields (level : Nat) : List (String × JsonValue) → Bytes
  | [] => []
  | (name, value) :: fields =>
    Byte.comma :: lineBreak level ++ renderText (Bytes.ofString name) ++ Bytes.ofString ": " ++
      renderAt level value ++ renderFields level fields
end

/-- A value as a text of its own. -/
def render (value : JsonValue) : Bytes := renderAt 0 value ++ [Byte.newline]

end JsonValue
end TemplateLint
