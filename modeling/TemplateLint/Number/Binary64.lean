import TemplateLint.Number.Integer

/-!
# Floating point numbers of 64 bits

A finite number is held as a mantissa of at most 53 bits and a power of two. `ofRatio` rounds a
quotient to the nearest number, a tie to the even mantissa, and finds nothing when the quotient
is too large. All of it is exact arithmetic on natural numbers, and equal numbers that `ofRatio`
finds are held alike.
-/
namespace TemplateLint

/-- A number of 64 bits. -/
inductive Binary64 where
  /-- The number `mantissa * 2 ^ exponent` with a sign. -/
  | finite (negative : Bool) (mantissa : Nat) (exponent : Int)
  | infinite (negative : Bool)
  /-- Not a number. -/
  | nan
  deriving DecidableEq

namespace Binary64

/-- The exponent of the smallest numbers. -/
def minExponent : Int := -1074

/-- The exponent of the largest numbers. -/
def maxExponent : Int := 971

/-- The number of bits of a mantissa. -/
def precision : Nat := 53

/-- A quotient rounded to a whole number, a tie to the even one. -/
def roundQuotient (num den : Nat) : Nat :=
  let q := num / den
  let r := num % den
  if den < 2 * r || (2 * r == den && q % 2 == 1) then q + 1 else q

/-- A quotient divided by a power of two, as numerator and denominator. -/
def scale (num den : Nat) (exponent : Int) : Nat × Nat :=
  (num * Nat.pow 2 (-exponent).toNat, den * Nat.pow 2 exponent.toNat)

/-- The exponent with which the mantissa of a positive quotient has all its bits, unless the
quotient is too small for that. -/
def exponentOf (num den : Nat) : Int :=
  let size : Int := (Nat.log2 num : Int) - Nat.log2 den
  let (n, d) := scale num den size
  max minExponent (if n < d then size - precision else size - precision + 1)

/-- The number nearest to a quotient with a positive denominator. -/
def ofRatio (negative : Bool) (num den : Nat) : Option Binary64 :=
  if num = 0 then some (finite negative 0 0)
  else
    let exponent := exponentOf num den
    let (n, d) := scale num den exponent
    let mantissa := roundQuotient n d
    let (mantissa, exponent) :=
      if mantissa = Nat.pow 2 precision then (Nat.pow 2 (precision - 1), exponent + 1)
      else (mantissa, exponent)
    if maxExponent < exponent then none else some (finite negative mantissa exponent)

/-- A finite number without its sign, as numerator and denominator. -/
def toRatio (mantissa : Nat) (exponent : Int) : Nat × Nat :=
  (mantissa * Nat.pow 2 exponent.toNat, Nat.pow 2 (-exponent).toNat)

/-- The number without what is behind the point. A number that no signed integer of 64 bits
reaches, and one that is none, gives the smallest of them. -/
def truncate : Binary64 → Int
  | finite negative mantissa exponent =>
    let (num, den) := toRatio mantissa exponent
    let whole := num / den
    if negative then -(min whole Integer.signedLimit : Nat)
    else if whole < Integer.signedLimit then whole
    else -Integer.signedLimit
  | infinite _ => -Integer.signedLimit
  | nan => -Integer.signedLimit

end Binary64
end TemplateLint
