import TemplateLint.Text.Bytes

/-!
# Timestamps

A timestamp is the date and the time of day in universal time, as `2000-01-31T12:00:00Z`. It
is written from the number of seconds since the start of the year 1970. Years are counted from
March, so that a leap day is the last day of its year.
-/
namespace TemplateLint.Timestamp

/-- A number written with at least two digits. -/
def twoDigits (n : Nat) : Bytes := if n < 10 then 0x30 :: Bytes.ofNat n else Bytes.ofNat n

/-- The days from the first of March of the year zero to the first day of 1970. -/
def daysBefore1970 : Nat := 719468

/-- The days of four hundred years. -/
def cycle : Nat := 146097

/-- Year, month and day, given the days since the first day of 1970. -/
def dateOf (days : Nat) : Nat × Nat × Nat :=
  let since := days + daysBefore1970
  let day := since % cycle
  let year := (day - day / 1460 + day / 36524 - day / 146096) / 365
  let ofYear := day - (365 * year + year / 4 - year / 100)
  let shifted := (5 * ofYear + 2) / 153
  let month := if shifted < 10 then shifted + 3 else shifted - 9
  let begun := if month ≤ 2 then 1 else 0
  (year + 400 * (since / cycle) + begun, month, ofYear - (153 * shifted + 2) / 5 + 1)

/-- The date and time of day at a number of seconds since the start of 1970. -/
def write (seconds : Nat) : Bytes :=
  let (year, month, day) := dateOf (seconds / 86400)
  let date := Bytes.join [Byte.hyphen] [Bytes.ofNat year, twoDigits month, twoDigits day]
  let time := Bytes.join [Byte.colon]
    [twoDigits (seconds % 86400 / 3600), twoDigits (seconds % 3600 / 60), twoDigits (seconds % 60)]
  date ++ 0x54 :: time ++ [0x5a]

end TemplateLint.Timestamp
