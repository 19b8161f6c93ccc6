import TemplateLint.Text.Bytes

/-!
# Points in time

A plain scalar that looks like a date, or like a date and a time of day, is a point in time.
Months, days, hours, minutes and seconds may be written with one digit or two; a time of day
behind the letter `T` needs an offset, one behind spaces has none.
-/
namespace TemplateLint.Yaml

/-- A point in time. -/
structure Moment where
  year : Nat
  month : Nat
  day : Nat
  hour : Nat := 0
  minute : Nat := 0
  second : Nat := 0
  nanosecond : Nat := 0
  /-- Minutes ahead of universal time. -/
  offset : Int := 0

namespace Moment

/-- The number that digits stand for. -/
def valueOf (digits : Bytes) : Nat := digits.foldl (fun n b => 10 * n + Byte.digitValue b) 0

/-- Read a number of one or two digits. -/
def short? : Bytes → Option (Nat × Bytes)
  | a :: b :: rest =>
    if !Byte.isDigit a then none
    else if Byte.isDigit b then some (valueOf [a, b], rest)
    else some (valueOf [a], b :: rest)
  | [a] => if Byte.isDigit a then some (valueOf [a], []) else none
  | [] => none

/-- Read a number below a limit, of one or two digits. -/
def below? (limit : Nat) (s : Bytes) : Option (Nat × Bytes) := do
  let (n, rest) ← short? s
  if n < limit then some (n, rest) else none

/-- Pass over one byte. -/
def mark? (b : UInt8) : Bytes → Option Bytes
  | a :: rest => if a = b then some rest else none
  | [] => none

/-- Whether a year has a leap day. -/
def isLeap (year : Nat) : Bool := year % 4 = 0 && (year % 100 ≠ 0 || year % 400 = 0)

/-- The number of days of a month. -/
def daysIn (year month : Nat) : Nat :=
  if month = 2 then if isLeap year then 29 else 28
  else if month = 4 || month = 6 || month = 9 || month = 11 then 30
  else 31

/-- Read a date. The year has four digits. -/
def date? (s : Bytes) : Option (Moment × Bytes) := do
  let digits := s.takeWhile Byte.isDigit
  let year ← if digits.length = 4 then some (valueOf digits) else none
  let (month, rest) ← short? (← mark? Byte.hyphen (s.drop 4))
  let (day, rest) ← short? (← mark? Byte.hyphen rest)
  if 1 ≤ month && month ≤ 12 && 1 ≤ day && day ≤ daysIn year month then
    some ({ year, month, day }, rest)
  else none

/-- Read the digits of a fraction of a second. Those past nanoseconds are dropped. -/
def fraction : Bytes → Nat × Bytes
  | a :: b :: rest =>
    if (a = Byte.dot || a = Byte.comma) && Byte.isDigit b then
      let digits := (b :: rest).takeWhile Byte.isDigit
      let kept := digits.take 9
      (valueOf kept * Nat.pow 10 (9 - kept.length), (b :: rest).drop digits.length)
    else (0, a :: b :: rest)
  | s => (0, s)

/-- Read a time of day. -/
def time? (m : Moment) (s : Bytes) : Option (Moment × Bytes) := do
  let (hour, rest) ← below? 24 s
  let (minute, rest) ← below? 60 (← mark? Byte.colon rest)
  let (second, rest) ← below? 60 (← mark? Byte.colon rest)
  let (nanosecond, rest) := fraction rest
  some ({ m with hour, minute, second, nanosecond }, rest)

/-- Read an offset from universal time. -/
def offset? : Bytes → Option (Int × Bytes)
  | 0x5a :: rest => some (0, rest)
  | sign :: a :: b :: colon :: c :: d :: rest =>
    let hours := valueOf [a, b]
    let minutes := valueOf [c, d]
    let ahead : Int := (60 * hours + minutes : Nat)
    if [a, b, c, d].all Byte.isDigit && colon = Byte.colon && hours ≤ 24 && minutes ≤ 60 then
      if sign = Byte.plus then some (ahead, rest)
      else if sign = Byte.hyphen then some (-ahead, rest)
      else none
    else none
  | _ => none

/-- Read a point in time. -/
def read? (s : Bytes) : Option Moment := do
  let (m, rest) ← date? s
  match rest with
  | [] => some m
  | b :: behind =>
    if b = 0x54 || b = 0x74 then
      let (m, rest) ← time? m behind
      let (offset, rest) ← offset? rest
      if rest.isEmpty then some { m with offset } else none
    else if b = Byte.space then
      let (m, rest) ← time? m (behind.dropWhile (· == Byte.space))
      if rest.isEmpty then some m else none
    else none

/-- A number written with at least so many digits. -/
def padded (width n : Nat) : Bytes :=
  let digits := Bytes.ofNat n
  List.replicate (width - digits.length) 0x30 ++ digits

/-- The text of an offset. -/
def offsetText (offset : Int) : Bytes :=
  let ahead := offset.natAbs
  (if offset < 0 then Byte.hyphen else Byte.plus) :: padded 2 (ahead / 60) ++ padded 2 (ahead % 60)

/-- The text of a fraction of a second, without zeros at its end. -/
def fractionText (nanosecond : Nat) : Bytes :=
  if nanosecond = 0 then []
  else Byte.dot :: Bytes.trimRight (· == 0x30) (padded 9 nanosecond)

/-- The written form: date, time of day, offset and the name of the zone. -/
def write (m : Moment) : Bytes :=
  let date := Bytes.join [Byte.hyphen] [padded 4 m.year, padded 2 m.month, padded 2 m.day]
  let time := Bytes.join [Byte.colon] [padded 2 m.hour, padded 2 m.minute, padded 2 m.second]
  let zone := if m.offset = 0 then Bytes.ofString "UTC" else offsetText m.offset
  Bytes.join [Byte.space] [date, time ++ fractionText m.nanosecond, offsetText m.offset, zone]

end Moment
end TemplateLint.Yaml
