import TemplateLint.Number.Integer

/-!
# Numbers of a machine

Machine integers have a sign and 64 bits, and products that leave their range wrap around. A text
has room for far fewer bytes than such a number can count.
-/
namespace TemplateLint.Machine

/-- The product of two machine integers. Numbers beyond their range, of which there are none in a
machine, are multiplied as they are. -/
def product (a b : Nat) : Int :=
  if a < Integer.signedLimit && b < Integer.signedLimit then
    Int.bmod (a * b) Integer.unsignedLimit
  else a * b

/-- The length of the longest text. -/
def longestText : Nat := Nat.pow 2 48

/-- A number as the length of a text, if there are texts of that length. -/
def textLength? (n : Int) : Option Nat :=
  if 0 ≤ n && n ≤ longestText then some n.toNat else none

end TemplateLint.Machine
