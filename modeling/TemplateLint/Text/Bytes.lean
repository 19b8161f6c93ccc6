/-!
# Byte strings

Texts are held as the bytes they are stored in, because a source file need not be valid
UTF-8 and because offsets, windows and column limits count bytes. Characters are a separate
reading of the same bytes.

The searching and cutting operations below never look at characters. Splitting keeps every
byte but the separators, and trimming only removes bytes at the ends.
-/
namespace TemplateLint

/-- A text as the bytes it is stored in. -/
abbrev Bytes := List UInt8

namespace Byte

/-- The line separator. -/
def newline : UInt8 := 0x0a
def carriageReturn : UInt8 := 0x0d
def tab : UInt8 := 0x09
def formFeed : UInt8 := 0x0c
def space : UInt8 := 0x20
def doubleQuote : UInt8 := 0x22
def hash : UInt8 := 0x23
def dollar : UInt8 := 0x24
def singleQuote : UInt8 := 0x27
def openParen : UInt8 := 0x28
def closeParen : UInt8 := 0x29
def star : UInt8 := 0x2a
def plus : UInt8 := 0x2b
def comma : UInt8 := 0x2c
def hyphen : UInt8 := 0x2d
def dot : UInt8 := 0x2e
def slash : UInt8 := 0x2f
def colon : UInt8 := 0x3a
def semicolon : UInt8 := 0x3b
def less : UInt8 := 0x3c
def equals : UInt8 := 0x3d
def greater : UInt8 := 0x3e
def question : UInt8 := 0x3f
def openBracket : UInt8 := 0x5b
def backslash : UInt8 := 0x5c
def closeBracket : UInt8 := 0x5d
def underscore : UInt8 := 0x5f
/-- The delimiter of template literals. -/
def backtick : UInt8 := 0x60
def openBrace : UInt8 := 0x7b
def bar : UInt8 := 0x7c
def closeBrace : UInt8 := 0x7d

def isDigit (b : UInt8) : Bool := 0x30 ≤ b && b ≤ 0x39

def isLower (b : UInt8) : Bool := 0x61 ≤ b && b ≤ 0x7a

def isUpper (b : UInt8) : Bool := 0x41 ≤ b && b ≤ 0x5a

def isLetter (b : UInt8) : Bool := isLower b || isUpper b

def isHexDigit (b : UInt8) : Bool :=
  isDigit b || (0x61 ≤ b && b ≤ 0x66) || (0x41 ≤ b && b ≤ 0x46)

/-- The lower-case form of an ASCII letter; every other byte is left alone. -/
def toLower (b : UInt8) : UInt8 := if isUpper b then b + 0x20 else b

/-- The value of a digit in base sixteen, zero for a byte that is no digit. -/
def digitValue (b : UInt8) : Nat :=
  if isDigit b then b.toNat - 0x30
  else if isLower b then b.toNat - 0x61 + 10
  else if isUpper b then b.toNat - 0x41 + 10
  else 0

/-- A space or a tab: the bytes that indent a line. -/
def isIndent (b : UInt8) : Bool := b == space || b == tab

end Byte

namespace Bytes

/-- The UTF-8 form of a string. -/
def ofString (s : String) : Bytes := s.toUTF8.data.toList

/-- Decimal digits, most significant first and without leading zeros. -/
def ofNat (n : Nat) : Bytes := (Nat.toDigits 10 n).map Char.toUInt8

/-- Decimal digits behind a minus sign when the number is negative. -/
def ofInt : Int → Bytes
  | .ofNat n => ofNat n
  | .negSucc n => Byte.hyphen :: ofNat (n + 1)

/-- The bytewise lexicographic order. -/
def le : Bytes → Bytes → Bool
  | [], _ => true
  | _ :: _, [] => false
  | a :: s, b :: t => a < b || (a == b && le s t)

/-- The lines of a text: the pieces between newlines, one more than there are newlines. -/
def lines (s : Bytes) : List Bytes := s.splitOn Byte.newline

/-- The text up to the first separator, and what follows it if there is one. -/
def cut (separator : UInt8) : Bytes → Bytes × Option Bytes
  | [] => ([], none)
  | b :: s =>
    if b = separator then ([], some s)
    else ((b :: (cut separator s).1), (cut separator s).2)

/-- What follows `first` in a text that starts with it. -/
def after? : (first : Bytes) → Bytes → Option Bytes
  | [], s => some s
  | _ :: _, [] => none
  | a :: first, b :: s => if a = b then after? first s else none

/-- What precedes `last` in a text that ends in it. -/
def before? (last s : Bytes) : Option Bytes :=
  (after? last.reverse s.reverse).map List.reverse

def startsWith (first s : Bytes) : Bool := first.isPrefixOf s

def endsWith (last s : Bytes) : Bool := last.isSuffixOf s

/-- The offset of the leftmost occurrence of `needle`. -/
def find? (needle : Bytes) : Bytes → Option Nat
  | [] => if needle.isEmpty then some 0 else none
  | b :: s =>
    if needle.isPrefixOf (b :: s) then some 0 else (find? needle s).map (· + 1)

def containsText (needle s : Bytes) : Bool := (find? needle s).isSome

def trimLeft (drop : UInt8 → Bool) (s : Bytes) : Bytes := s.dropWhile drop

def trimRight (drop : UInt8 → Bool) (s : Bytes) : Bytes :=
  (s.reverse.dropWhile drop).reverse

def trim (drop : UInt8 → Bool) (s : Bytes) : Bytes := trimRight drop (trimLeft drop s)

/-- The text with the leftmost occurrence of `old` replaced by `new`. -/
def replaceFirst (old new : Bytes) (s : Bytes) : Bytes :=
  match find? old s with
  | none => s
  | some i => s.take i ++ new ++ s.drop (i + old.length)

/-- Replacement with `skip` bytes of the occurrence at hand still to be passed over. -/
def replaceFrom (old new : Bytes) : (skip : Nat) → Bytes → Bytes
  | _, [] => []
  | skip + 1, _ :: s => replaceFrom old new skip s
  | 0, b :: s =>
    if old.isPrefixOf (b :: s) then new ++ replaceFrom old new (old.length - 1) s
    else b :: replaceFrom old new 0 s

/-- The text with every occurrence of the non-empty text `old` replaced by `new`, the
occurrences being taken from the left and without overlap. -/
def replaceAll (old new : Bytes) (s : Bytes) : Bytes := replaceFrom old new 0 s

/-- The pieces with `separator` between any two of them. -/
def join (separator : Bytes) : List Bytes → Bytes
  | [] => []
  | [s] => s
  | s :: t :: rest => s ++ separator ++ join separator (t :: rest)

def toLower (s : Bytes) : Bytes := s.map Byte.toLower

/-- The length of the longest run of units at the start of a text, when the next `skip` bytes
belong to a unit already begun. `unit` gives the length of the unit that starts a text, and
zero where none starts. -/
def runFrom (unit : Bytes → Nat) : (skip : Nat) → Bytes → Nat
  | _, [] => 0
  | skip + 1, _ :: s => runFrom unit skip s + 1
  | 0, b :: s =>
    match unit (b :: s) with
    | 0 => 0
    | skip + 1 => runFrom unit skip s + 1

/-- The length of the longest run of units at the start of a text. -/
def runLength (unit : Bytes → Nat) (s : Bytes) : Nat := runFrom unit 0 s

/-- The pieces of a text after its next `skip` bytes, `size` giving the size of the piece that
starts a text. A piece has at least one byte. -/
def chunksFrom (size : Bytes → Nat) : (skip : Nat) → Bytes → List Bytes
  | _, [] => []
  | skip + 1, _ :: s => chunksFrom size skip s
  | 0, b :: s =>
    (b :: s.take (size (b :: s) - 1)) :: chunksFrom size (size (b :: s) - 1) s

/-- The text cut into pieces, `size` giving the size of the piece that starts a text. -/
def chunks (size : Bytes → Nat) (s : Bytes) : List Bytes := chunksFrom size 0 s

end Bytes
end TemplateLint
