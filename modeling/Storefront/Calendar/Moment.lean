/-!
# Days and moments

Dates are days of the Gregorian calendar carried on in both directions, with a
year zero. A moment is a date with a time of day; its second may be 60, which is
a leap second. Days are also counted from the first of January 1970, and the two
views are converted by the usual arithmetic over eras of 400 years.
-/

namespace Storefront

/-- **A date and a time of day.** -/
structure Moment where
  /-- The year. -/
  year : Int
  /-- The month, from 1. -/
  month : Nat
  /-- The day of the month, from 1. -/
  day : Nat
  /-- The hour. -/
  hour : Nat
  /-- The minute. -/
  minute : Nat
  /-- The second; 60 is a leap second. -/
  second : Nat
  deriving DecidableEq

namespace Calendar

/-- The first and the last year that dates have. -/
def firstYear : Int := -262143

/-- The last year that dates have. -/
def lastYear : Int := 262142

/-- Whether a year has a 29th of February. -/
def isLeap (year : Int) : Bool := year % 4 == 0 && (year % 100 != 0 || year % 400 == 0)

/-- How many days a month has. -/
def daysIn (year : Int) (month : Nat) : Nat :=
  if month = 2 then (if isLeap year then 29 else 28)
  else if month = 4 ∨ month = 6 ∨ month = 9 ∨ month = 11 then 30
  else 31

/-- Whether a year, month and day are a date. -/
def isDate (year : Int) (month day : Nat) : Bool :=
  firstYear ≤ year && year ≤ lastYear && 1 ≤ month && month ≤ 12 && 1 ≤ day && day ≤ daysIn year month

/-- The number of a date, counted in days from the first of January 1970. -/
def dayNumber (year : Int) (month day : Nat) : Int :=
  let y := if month ≤ 2 then year - 1 else year
  let era := y.fdiv 400
  let yearOfEra := y - era * 400
  let shifted : Int := if month > 2 then month - 3 else month + 9
  let dayOfYear := (153 * shifted + 2).fdiv 5 + day - 1
  let dayOfEra := yearOfEra * 365 + yearOfEra.fdiv 4 - yearOfEra.fdiv 100 + dayOfYear
  era * 146097 + dayOfEra - 719468

/-- The year, month and day with a number. -/
def dateOf (number : Int) : Int × Nat × Nat :=
  let z := number + 719468
  let era := z.fdiv 146097
  let dayOfEra := z - era * 146097
  let yearOfEra :=
    (dayOfEra - dayOfEra.fdiv 1460 + dayOfEra.fdiv 36524 - dayOfEra.fdiv 146096).fdiv 365
  let dayOfYear := dayOfEra - (365 * yearOfEra + yearOfEra.fdiv 4 - yearOfEra.fdiv 100)
  let shifted := (5 * dayOfYear + 2).fdiv 153
  let day := dayOfYear - (153 * shifted + 2).fdiv 5 + 1
  let month := if shifted < 10 then shifted + 3 else shifted - 9
  let year := yearOfEra + era * 400 + (if month ≤ 2 then 1 else 0)
  (year, month.toNat, day.toNat)

end Calendar

namespace Moment

/-- The moment some minutes and seconds after the start of 1970, if its year is one that dates
have. -/
def ofMinutes? (minutes : Int) (second : Nat) : Option Moment :=
  let (year, month, day) := Calendar.dateOf (minutes.fdiv 1440)
  let ofDay := (minutes.fmod 1440).toNat
  if Calendar.firstYear ≤ year && year ≤ Calendar.lastYear then
    some ⟨year, month, day, ofDay / 60, ofDay % 60, second⟩
  else none

/-- How many minutes after the start of 1970 a moment's minute begins. -/
def minutes (m : Moment) : Int :=
  Calendar.dayNumber m.year m.month m.day * 1440 + m.hour * 60 + m.minute

/-- The moment some milliseconds after the start of 1970. -/
def ofMilliseconds? (ms : Int) : Option Moment :=
  let seconds := ms.fdiv 1000
  ofMinutes? (seconds.fdiv 60) (seconds.fmod 60).toNat

/-- The same moment read off a clock that is `offset` minutes behind. -/
def earlier? (m : Moment) (offset : Int) : Option Moment := ofMinutes? (m.minutes - offset) m.second

end Moment

end Storefront
