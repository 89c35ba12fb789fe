/-!
# Calendar dates

The Gregorian calendar extended to all years, and the time of day, of a number of seconds since
the start of 1970. Years are counted from March, so that the leap day is the last of its year, and
in groups of 400, which all have the same number of days; then the year of the group, the month
and the day follow by division. Time is shown for the years -262143 to 262142 only, the range of
the clocks this library's listings are compared with.
-/

namespace OfferBook.Calendar

/-- A day of the calendar. -/
structure Date where
  year : Int
  month : Nat
  day : Nat
  deriving DecidableEq

/-- Days in 400 years. -/
def daysPerEra : Int := 146097

/-- Seconds in a day. -/
def secondsPerDay : Int := 86400

/-- The date that lies so many days after the start of 1970. -/
def Date.ofDays (days : Int) : Date :=
  let shifted := days + 719468
  let era := shifted.fdiv daysPerEra
  let dayOfEra := (shifted - era * daysPerEra).toNat
  let yearOfEra := (dayOfEra - dayOfEra / 1460 + dayOfEra / 36524 - dayOfEra / 146096) / 365
  let dayOfYear := dayOfEra - (365 * yearOfEra + yearOfEra / 4 - yearOfEra / 100)
  let monthFromMarch := (5 * dayOfYear + 2) / 153
  let day := dayOfYear - (153 * monthFromMarch + 2) / 5 + 1
  let month := if monthFromMarch < 10 then monthFromMarch + 3 else monthFromMarch - 9
  let year := (yearOfEra : Int) + era * 400 + (if month ≤ 2 then 1 else 0)
  ⟨year, month, day⟩

/-- A number in decimal, filled up with zeros to at least `width` digits. -/
def padded (width n : Nat) : String :=
  let digits := toString n
  String.ofList (List.replicate (width - digits.length) '0') ++ digits

/-- A year: four digits at least, with a sign if it is negative or takes more. -/
def yearText (year : Int) : String :=
  let sign := if year < 0 then "-" else if 9999 < year then "+" else ""
  sign ++ padded 4 year.natAbs

/-- The date and the time of day, so many seconds after the start of 1970; nothing outside the
shown years. -/
def timeText? (seconds : Int) : Option String :=
  let days := seconds.fdiv secondsPerDay
  let rest := (seconds - days * secondsPerDay).toNat
  let date := Date.ofDays days
  if -262143 ≤ date.year ∧ date.year ≤ 262142 then
    let clock := padded 2 (rest / 3600) ++ ":" ++ padded 2 (rest / 60 % 60) ++ ":" ++
      padded 2 (rest % 60)
    some (yearText date.year ++ "-" ++ padded 2 date.month ++ "-" ++ padded 2 date.day ++ " " ++
      clock)
  else none

end OfferBook.Calendar
