import TemplateLint.Text.Rune

/-!
# White space

The characters that trimming a text removes: those with the Unicode property White_Space.
-/
namespace TemplateLint

namespace Blank

/-- Whether a code point has the property White_Space. -/
def isBlank (n : Nat) : Bool :=
  (0x09 ≤ n && n ≤ 0x0d) || n == 0x20 || n == 0x85 || n == 0xa0 || n == 0x1680 ||
    (0x2000 ≤ n && n ≤ 0x200a) || n == 0x2028 || n == 0x2029 || n == 0x202f || n == 0x205f ||
    n == 0x3000

def isBlankRune (r : Rune) : Bool := isBlank r.code

end Blank

namespace Bytes

/-- Whether a text holds nothing but white space. -/
def isBlank (s : Bytes) : Bool := (Rune.decode s).all Blank.isBlankRune

/-- A text without the white space at its ends. -/
def trimBlank (s : Bytes) : Bytes :=
  Rune.encodeAll
    (((Rune.decode s).dropWhile Blank.isBlankRune).reverse.dropWhile Blank.isBlankRune).reverse

end Bytes
end TemplateLint
