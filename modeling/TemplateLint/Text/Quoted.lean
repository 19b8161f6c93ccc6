import TemplateLint.Text.Printable

/-!
# Quoted text

A text is quoted between double quotes so that the result is printable on one line. The
quote itself, the backslash and seven control characters have short escapes; any other
character that is not printable is written by its number, and a stray byte by its two
hexadecimal digits.
-/
namespace TemplateLint.Quoted

/-- The lower-case hexadecimal digit of a number below sixteen. -/
def hexDigit (n : Nat) : UInt8 := (if n < 10 then 0x30 + n else 0x57 + n).toUInt8

/-- The last `width` hexadecimal digits of a number. -/
def hexDigits : (width n : Nat) → Bytes
  | 0, _ => []
  | width + 1, n => hexDigits width (n / 16) ++ [hexDigit (n % 16)]

/-- The letter of a control character that has a short escape, or the character itself for the
quote and the backslash. -/
def shortEscape? (n : Nat) : Option UInt8 :=
  match n with
  | 0x07 => some 0x61
  | 0x08 => some 0x62
  | 0x09 => some 0x74
  | 0x0a => some 0x6e
  | 0x0b => some 0x76
  | 0x0c => some 0x66
  | 0x0d => some 0x72
  | 0x22 => some 0x22
  | 0x5c => some 0x5c
  | _ => none

/-- The quoted form of one rune. -/
def quoteRune : Rune → Bytes
  | .stray b => Byte.backslash :: 0x78 :: hexDigits 2 b.toNat
  | .char c =>
    match shortEscape? c.toNat with
    | some b => [Byte.backslash, b]
    | none =>
      if Printable.isPrintable c.toNat then (Rune.char c).encode
      else if c.toNat < 0x80 then Byte.backslash :: 0x78 :: hexDigits 2 c.toNat
      else if c.toNat < 0x10000 then Byte.backslash :: 0x75 :: hexDigits 4 c.toNat
      else Byte.backslash :: 0x55 :: hexDigits 8 c.toNat

/-- A text between double quotes. -/
def quote (s : Bytes) : Bytes :=
  Byte.doubleQuote :: (Rune.decode s).flatMap quoteRune ++ [Byte.doubleQuote]

end TemplateLint.Quoted
