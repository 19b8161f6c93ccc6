import TemplateLint.Number.Binary64
import TemplateLint.Number.Integer

/-!
# Decimal text of floating point numbers

`Decimal.shortest` finds the fewest digits that read back to a number, and of those the nearest
to it. `Decimal.write` lays them out: positional for exponents from -4 to 5 and in scientific
notation with at least two digits of exponent otherwise. `Decimal.read?` reads decimal and
hexadecimal notation and the names of the infinities and of what is not a number.
-/
namespace TemplateLint.Decimal

/-! ### Writing -/

/-- Zeros behind the point before the first digit of a quotient below one, and one more. -/
def leadingZeros : (bound : Nat) → (num den : Nat) → Nat
  | 0, _, _ => 0
  | bound + 1, num, den => if den ≤ num then 0 else leadingZeros bound (num * 10) den + 1

/-- The power of ten of the first digit of a positive quotient. -/
def exponentOf (num den : Nat) : Int :=
  if den ≤ num then ((Nat.toDigits 10 (num / den)).length : Int) - 1
  else -(leadingZeros 400 num den : Int)

/-- A number times a power of ten, as numerator and denominator. -/
def scaled (num den : Nat) (power : Int) : Nat × Nat :=
  (num * Nat.pow 10 power.toNat, den * Nat.pow 10 (-power).toNat)

/-- The `count` digits next to a quotient that read back to a number, the nearer ones first.
The result is a whole number and the power of ten of its last digit. -/
def candidate? (number : Binary64) (num den : Nat) (exponent : Int) (count : Nat) :
    Option (Nat × Int) :=
  let last : Int := exponent - count + 1
  let (n, d) := scaled num den (-last)
  let below := n / d
  let order := if 2 * (n % d) ≤ d then [below, below + 1] else [below + 1, below]
  (order.find? fun digits =>
    let (n, d) := scaled digits 1 last
    Binary64.ofRatio false n d == some number).map (·, last)

/-- The fewest digits that read back to a positive number. -/
def shortest (mantissa : Nat) (exponent : Int) : Nat × Int :=
  let (num, den) := Binary64.toRatio mantissa exponent
  let first := exponentOf num den
  ((List.range 17).findSome? fun i =>
    candidate? (.finite false mantissa exponent) num den first (i + 1)).getD (0, 0)

/-- The digits of a number without zeros at the end. -/
def significant (n : Nat) : Bytes := Bytes.trimRight (· == 0x30) (Bytes.ofNat n)

/-- An exponent with a sign and at least two digits. -/
def writeExponent (e : Int) : Bytes :=
  let digits := Bytes.ofNat e.natAbs
  0x65 :: (if e < 0 then Byte.hyphen else Byte.plus) ::
    (if digits.length < 2 then 0x30 :: digits else digits)

/-- Digits with the first of them at a power of ten. -/
def layOut (digits : Bytes) (exponent : Int) : Bytes :=
  if exponent < -4 || 6 ≤ exponent then
    match digits with
    | [d] => d :: writeExponent exponent
    | d :: rest => d :: Byte.dot :: rest ++ writeExponent exponent
    | [] => []
  else if exponent < 0 then
    0x30 :: Byte.dot :: List.replicate (-exponent - 1).toNat 0x30 ++ digits
  else
    let whole := exponent.toNat + 1
    if digits.length ≤ whole then digits ++ List.replicate (whole - digits.length) 0x30
    else digits.take whole ++ Byte.dot :: digits.drop whole

/-- The text of a number. -/
def write : Binary64 → Bytes
  | .nan => Bytes.ofString "NaN"
  | .infinite negative => Bytes.ofString (if negative then "-Inf" else "+Inf")
  | .finite negative mantissa exponent =>
    let sign := if negative then [Byte.hyphen] else []
    if mantissa = 0 then sign ++ [0x30]
    else
      let (digits, last) := shortest mantissa exponent
      let first : Int := last + (Bytes.ofNat digits).length - 1
      sign ++ layOut (significant digits) first

/-! ### Reading -/

/-- The digits of a number before its exponent. -/
structure Mantissa where
  value : Nat := 0
  /-- Digits read, zeros at the start apart. -/
  count : Nat := 0
  /-- Digits behind the point. -/
  places : Nat := 0
  hasDigits : Bool := false
  hasPoint : Bool := false

/-- One more digit. -/
def Mantissa.add (m : Mantissa) (base d : Nat) : Mantissa :=
  { m with
    value := m.value * base + d
    count := if m.value = 0 && d = 0 then 0 else m.count + 1
    places := if m.hasPoint then m.places + 1 else m.places
    hasDigits := true }

/-- The mantissa at the start of a text and the text behind it. -/
def takeMantissa (base : Nat) : Mantissa → Bytes → Mantissa × Bytes
  | m, [] => (m, [])
  | m, b :: s =>
    if b = Byte.underscore then takeMantissa base m s
    else if b = Byte.dot && !m.hasPoint then takeMantissa base { m with hasPoint := true } s
    else if Byte.isDigit b || (base = 16 && Byte.isHexDigit b) then
      takeMantissa base (m.add base (Byte.digitValue b)) s
    else (m, b :: s)

/-- The digits of an exponent. Beyond ten thousand the size of it makes no difference. -/
def takeExponent : (value : Nat) → Bytes → Nat × Bytes
  | value, [] => (value, [])
  | value, b :: s =>
    if b = Byte.underscore then takeExponent value s
    else if Byte.isDigit b then
      takeExponent (if value < 10000 then value * 10 + Byte.digitValue b else value) s
    else (value, b :: s)

/-- The exponent behind its letter, which needs a digit at once behind its sign. -/
def exponent? (s : Bytes) : Option (Int × Bytes) :=
  let unsigned := Integer.dropSign s
  match unsigned with
  | b :: _ =>
    if Byte.isDigit b then
      let (value, rest) := takeExponent 0 unsigned
      some (if s.head? == some Byte.hyphen then -value else value, rest)
    else none
  | [] => none

/-- The exponent at the start of a text, zero when there is none. -/
def optionalExponent? (letter : UInt8) : Bytes → Option (Int × Bytes)
  | [] => some (0, [])
  | b :: s => if Byte.toLower b = letter then exponent? s else some (0, b :: s)

/-- A mantissa times a power of ten. Powers that no number of 64 bits reaches are not computed. -/
def ofDecimal (negative : Bool) (m : Mantissa) (exponent : Int) : Option Binary64 :=
  let power : Int := exponent - m.places
  let size : Int := m.count + power
  if m.value = 0 then some (.finite negative 0 0)
  else if 310 < size then none
  else if size < -330 then some (.finite negative 0 0)
  else
    let (n, d) := scaled m.value 1 power
    Binary64.ofRatio negative n d

/-- A mantissa in base sixteen times a power of two. -/
def ofHexadecimal (negative : Bool) (m : Mantissa) (exponent : Int) : Option Binary64 :=
  let power : Int := exponent - 4 * m.places
  let size : Int := 4 * m.count + power
  if m.value = 0 then some (.finite negative 0 0)
  else if 1100 < size then none
  else if size < -1200 then some (.finite negative 0 0)
  else Binary64.ofRatio negative (m.value * Nat.pow 2 power.toNat) (Nat.pow 2 (-power).toNat)

/-- Whether a text begins with the mark of base sixteen and goes on. -/
def isHexadecimal : Bytes → Bool
  | 0x30 :: mark :: _ :: _ => Byte.toLower mark = 0x78
  | _ => false

/-- The infinity or non-number that a text names. -/
def named? (s : Bytes) : Option Binary64 :=
  let lower := Bytes.toLower s
  let unsigned := Integer.dropSign lower
  if lower = Bytes.ofString "nan" then some .nan
  else if unsigned = Bytes.ofString "inf" || unsigned = Bytes.ofString "infinity" then
    some (.infinite (s.head? == some Byte.hyphen))
  else none

/-- The number that digits write. -/
def readDigits? (s : Bytes) : Option Binary64 := do
  let negative := s.head? == some Byte.hyphen
  let unsigned := Integer.dropSign s
  let hex := isHexadecimal unsigned
  let (m, rest) := takeMantissa (if hex then 16 else 10) {} (if hex then unsigned.drop 2 else unsigned)
  let (exponent, behind) ← optionalExponent? (if hex then 0x70 else 0x65) rest
  if !m.hasDigits || !behind.isEmpty then none
  else if hex && rest.isEmpty then none
  else if s.contains Byte.underscore && !Integer.underscoresStand s then none
  else if hex then ofHexadecimal negative m exponent
  else ofDecimal negative m exponent

/-- The number that a text writes. A number too large for 64 bits is none. -/
def read? (s : Bytes) : Option Binary64 := (named? s).or (readDigits? s)

end TemplateLint.Decimal
