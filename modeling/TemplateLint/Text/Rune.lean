import TemplateLint.Text.Bytes

/-!
# Characters of a byte string

`Rune.decode` reads bytes as UTF-8. A byte that starts no well-formed character stands for
itself, so reading is total and loses nothing. A text is valid UTF-8 when no such byte
occurs in it. Columns count runes.
-/
namespace TemplateLint

/-- One unit of a text read as UTF-8. -/
inductive Rune where
  /-- A well-formed character. -/
  | char (c : Char)
  /-- A byte that belongs to no well-formed character. -/
  | stray (b : UInt8)
  deriving DecidableEq

namespace Rune

/-- The code point a rune is compared by; a stray byte counts as U+FFFD. -/
def code : Rune → Nat
  | char c => c.toNat
  | stray _ => 0xfffd

/-- The bytes a rune is written with. -/
def encode : Rune → Bytes
  | char c => String.utf8EncodeChar c
  | stray b => [b]

/-- The number of bytes of a rune. -/
def width (r : Rune) : Nat := r.encode.length

/-- A continuation byte. -/
def isTail (b : UInt8) : Bool := 0x80 ≤ b && b ≤ 0xbf

/-- The second byte is in range for a three-byte character that starts with `a`: no overlong
form and no surrogate. -/
def isSecondOfThree (a b : UInt8) : Bool :=
  isTail b && (a != 0xe0 || 0xa0 ≤ b) && (a != 0xed || b ≤ 0x9f)

/-- The second byte is in range for a four-byte character that starts with `a`: no overlong
form and nothing above U+10FFFF. -/
def isSecondOfFour (a b : UInt8) : Bool :=
  isTail b && (a != 0xf0 || 0x90 ≤ b) && (a != 0xf4 || b ≤ 0x8f)

def two (a b : UInt8) : Rune :=
  char (Char.ofNat ((a.toNat - 0xc0) * 0x40 + (b.toNat - 0x80)))

def three (a b c : UInt8) : Rune :=
  char (Char.ofNat
    ((a.toNat - 0xe0) * 0x1000 + (b.toNat - 0x80) * 0x40 + (c.toNat - 0x80)))

def four (a b c d : UInt8) : Rune :=
  char (Char.ofNat ((a.toNat - 0xf0) * 0x40000 + (b.toNat - 0x80) * 0x1000 +
    (c.toNat - 0x80) * 0x40 + (d.toNat - 0x80)))

/-- The rune that starts with the byte `a`, when the bytes `s` follow it. -/
def first (a : UInt8) (s : Bytes) : Rune :=
  if a < 0x80 then char (Char.ofNat a.toNat)
  else match s with
    | [] => stray a
    | b :: t =>
      if 0xc2 ≤ a && a ≤ 0xdf && isTail b then two a b
      else match t with
        | [] => stray a
        | c :: u =>
          if 0xe0 ≤ a && a ≤ 0xef && isSecondOfThree a b && isTail c then three a b c
          else match u with
            | [] => stray a
            | d :: _ =>
              if 0xf0 ≤ a && a ≤ 0xf4 && isSecondOfFour a b && isTail c && isTail d then
                four a b c d
              else stray a

/-- The runes of a text once the next `skip` bytes, which belong to the rune before them,
are passed over. -/
def decodeFrom : (skip : Nat) → Bytes → List Rune
  | _, [] => []
  | skip + 1, _ :: s => decodeFrom skip s
  | 0, a :: s => first a s :: decodeFrom ((first a s).width - 1) s

/-- The runes of a text, from left to right. -/
def decode (s : Bytes) : List Rune := decodeFrom 0 s

def isStray : Rune → Bool
  | char _ => false
  | stray _ => true

def isNewline (r : Rune) : Bool := r.code == 0x0a

/-- The bytes of a list of runes. -/
def encodeAll (rs : List Rune) : Bytes := rs.flatMap encode

end Rune

namespace Bytes

/-- Whether a text is well-formed UTF-8. -/
def isUtf8 (s : Bytes) : Bool := (Rune.decode s).all fun r => !r.isStray

/-- The number of characters of a text, a stray byte counting as one. -/
def runeCount (s : Bytes) : Nat := (Rune.decode s).length

end Bytes
end TemplateLint
