import TemplateLint.Text.Bytes

/-!
# Integers in text

Integers may be written in base two, eight, ten or sixteen, the base being told by the start of
the text: `0b`, `0o` or just `0`, and `0x`. Underscores may stand between digits and behind the
mark of the base. Numbers are those of 64 bits; a number that leaves that range is out of range
even if what follows is no digit.
-/
namespace TemplateLint.Integer

/-- Why a text is no integer. -/
inductive Fault where
  | malformed
  | outOfRange
  deriving DecidableEq

def Fault.description : Fault → Bytes
  | malformed => Bytes.ofString "invalid syntax"
  | outOfRange => Bytes.ofString "value out of range"

/-- One more than the largest unsigned number of 64 bits. -/
def unsignedLimit : Nat := Nat.pow 2 64

/-- One more than the largest signed number of 64 bits. -/
def signedLimit : Nat := Nat.pow 2 63

/-- The value of a digit or letter. -/
def digit? (b : UInt8) : Option Nat :=
  if Byte.isDigit b || Byte.isLetter b then some (Byte.digitValue b) else none

/-- The number that digits in a base write behind a value, underscores being passed over. -/
def digitsFrom (base : Nat) (underscores : Bool) : (value : Nat) → Bytes → Except Fault Nat
  | value, [] => .ok value
  | value, b :: s =>
    if underscores && b = Byte.underscore then digitsFrom base underscores value s
    else
      match digit? b with
      | none => .error .malformed
      | some d =>
        if base ≤ d then .error .malformed
        else if unsignedLimit ≤ value * base + d then .error .outOfRange
        else digitsFrom base underscores (value * base + d) s

/-- The number that digits in a base write. There is at least one. -/
def digits (base : Nat) (s : Bytes) : Except Fault Nat :=
  if s.isEmpty then .error .malformed else digitsFrom base false 0 s

/-- The base that a text of at least one byte tells, and the digits behind its mark. -/
def splitBase : Bytes → Nat × Bytes
  | 0x30 :: mark :: b :: s =>
    if Byte.toLower mark = 0x62 then (2, b :: s)
    else if Byte.toLower mark = 0x6f then (8, b :: s)
    else if Byte.toLower mark = 0x78 then (16, b :: s)
    else (8, mark :: b :: s)
  | 0x30 :: s => (8, s)
  | s => (10, s)

/-- What the byte before was, as far as underscores care. -/
inductive Neighbour where
  | start
  | digit
  | underscore
  | other
  deriving DecidableEq

/-- Whether every underscore has a digit before it and behind it. -/
def underscoresStandFrom (hex : Bool) : Neighbour → Bytes → Bool
  | before, [] => before != .underscore
  | before, b :: s =>
    if Byte.isDigit b || (hex && Byte.isHexDigit b) then underscoresStandFrom hex .digit s
    else if b = Byte.underscore then
      before == .digit && underscoresStandFrom hex .underscore s
    else before != .underscore && underscoresStandFrom hex .other s

/-- A text without its sign. -/
def dropSign : Bytes → Bytes
  | [] => []
  | b :: s => if b = Byte.plus || b = Byte.hyphen then s else b :: s

/-- Whether the underscores of a number stand between digits, the mark of a base counting as
one. -/
def underscoresStand (s : Bytes) : Bool :=
  match dropSign s with
  | 0x30 :: mark :: rest =>
    let mark := Byte.toLower mark
    if mark = 0x62 || mark = 0x6f || mark = 0x78 then
      underscoresStandFrom (mark = 0x78) .digit rest
    else underscoresStandFrom false .start (dropSign s)
  | rest => underscoresStandFrom false .start rest

/-- The unsigned number that a text writes. -/
def readUnsigned (s : Bytes) : Except Fault Nat :=
  if s.isEmpty then .error .malformed
  else do
    let (base, rest) := splitBase s
    let value ← digitsFrom base true 0 rest
    if s.contains Byte.underscore && !underscoresStand s then .error .malformed
    else return value

/-- A number with a sign, if it is one of 64 bits. -/
def signed (negative : Bool) (n : Nat) : Except Fault Int :=
  if negative then if n ≤ signedLimit then .ok (-n) else .error .outOfRange
  else if n < signedLimit then .ok n
  else .error .outOfRange

/-- The signed number that a text writes. -/
def read (s : Bytes) : Except Fault Int := do
  signed (s.head? == some Byte.hyphen) (← readUnsigned (dropSign s))

/-- The signed number that a text writes in a given base. -/
def readBase (base : Nat) (s : Bytes) : Except Fault Int := do
  signed (s.head? == some Byte.hyphen) (← digits base (dropSign s))

end TemplateLint.Integer
