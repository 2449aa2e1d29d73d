/-!
# Points in time

A point in time is a number of nanoseconds since the beginning of the year 1970. It is shown as a date of
the Gregorian calendar with the time of day, in universal time.
-/

set_option autoImplicit false

namespace Primer.Calendar

/-- A natural number with at least `width` digits. -/
def padded (width n : Nat) : String :=
  let digits := toString n
  String.ofList (List.replicate (width - digits.length) '0') ++ digits

/-- The year, month and day of a number of days since the beginning of 1970. Years are counted from March,
so that the leap day comes last, in cycles of four hundred years. -/
def dateOfDay (day : Int) : Int × Nat × Nat :=
  let shifted := day + 719468
  let cycle := shifted.fdiv 146097
  let inCycle := (shifted.fmod 146097).toNat
  let year := (inCycle - inCycle / 1460 + inCycle / 36524 - inCycle / 146096) / 365
  let inYear := inCycle - (365 * year + year / 4 - year / 100)
  let month := (5 * inYear + 2) / 153
  let dayOfMonth := inYear - (153 * month + 2) / 5 + 1
  let calendarMonth := if month < 10 then month + 3 else month - 9
  let calendarYear := (year : Int) + 400 * cycle + (if calendarMonth ≤ 2 then 1 else 0)
  (calendarYear, calendarMonth, dayOfMonth)

/-- The seconds of a point in time. -/
def seconds (nanos : Int) : Int := nanos.fdiv 1000000000

/-- The date of a point in time. -/
def date (nanos : Int) : String :=
  let (year, month, day) := dateOfDay ((seconds nanos).fdiv 86400)
  padded 4 year.toNat ++ "-" ++ padded 2 month ++ "-" ++ padded 2 day

/-- The time of day of a point in time. -/
def clock (nanos : Int) : String :=
  let s := ((seconds nanos).fmod 86400).toNat
  padded 2 (s / 3600) ++ ":" ++ padded 2 (s / 60 % 60) ++ ":" ++ padded 2 (s % 60)

/-- The fraction of a second, without zeros at its end. -/
def fraction (nanos : Int) : String :=
  let digits := (padded 9 (nanos.fmod 1000000000).toNat).toList
  match (digits.reverse.dropWhile (· = '0')).reverse with
  | [] => ""
  | kept => "." ++ String.ofList kept

/-- Date and time with a blank between. -/
def shown (nanos : Int) : String := date nanos ++ " " ++ clock nanos

/-- Date and time in one word, exact to the nanosecond. -/
def stamp (nanos : Int) : String := date nanos ++ "T" ++ clock nanos ++ fraction nanos ++ "Z"

end Primer.Calendar
