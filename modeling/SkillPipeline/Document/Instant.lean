import SkillPipeline.Text.Basic

namespace SkillPipeline

/-- A point in time, in milliseconds since the start of 1970. -/
structure Instant where
  millis : Int
  deriving DecidableEq, Repr

/-- A day of the calendar. Months and days of the month count from one, days of the week from
Sunday. -/
structure CalendarDay where
  year : Int
  month : Nat
  day : Nat
  weekday : Nat
  deriving DecidableEq, Repr

def epochOffset : Int := 719468

/-- The number of the day, counted from the start of 1970, that stands `day - 1` days after the
first of a month. Years are taken to begin in March, so a leap day is the last of its year. -/
def dayNumber (year : Int) (month day : Nat) : Int :=
  let months := 12 * year + month - 3
  let y := months.fdiv 12
  let m := months.fmod 12
  365 * y + y.fdiv 4 - y.fdiv 100 + y.fdiv 400 + (153 * m + 2).fdiv 5 + day - 1 - epochOffset

def CalendarDay.ofNumber (n : Int) : CalendarDay :=
  let z := n + epochOffset
  let era := z.fdiv 146097
  let dayOfEra := (z.fmod 146097).toNat
  let yearOfEra := (dayOfEra - dayOfEra / 1460 + dayOfEra / 36524 - dayOfEra / 146096) / 365
  let dayOfYear := dayOfEra - (365 * yearOfEra + yearOfEra / 4 - yearOfEra / 100)
  let m := (5 * dayOfYear + 2) / 153
  let month := if m < 10 then m + 3 else m - 9
  { year := yearOfEra + era * 400 + (if month ≤ 2 then 1 else 0)
    month
    day := dayOfYear - (153 * m + 2) / 5 + 1
    weekday := ((n + 4).fmod 7).toNat }

namespace Instant

def millisPerDay : Int := 86400000

/-- The start of a day. A year below 100 is one of the twentieth century. -/
def startOfDay (year month day : Nat) : Instant :=
  let year : Nat := if year < 100 then 1900 + year else year
  ⟨millisPerDay * dayNumber year month day⟩

def later (t : Instant) (millis : Int) : Instant := ⟨t.millis + millis⟩

def calendarDay (t : Instant) : CalendarDay := .ofNumber (t.millis.fdiv millisPerDay)

def millisOfDay (t : Instant) : Nat := (t.millis.fmod millisPerDay).toNat

def padded (width n : Nat) : String :=
  let digits := toString n
  String.ofList (List.replicate (width - digits.length) '0') ++ digits

def clock (t : Instant) : String :=
  let seconds := t.millisOfDay / 1000
  Text.join ":" [padded 2 (seconds / 3600), padded 2 (seconds / 60 % 60), padded 2 (seconds % 60)]

/-- A year in the international form: four digits, or a sign and six. -/
def yearText (year : Int) : String :=
  if 0 ≤ year ∧ year ≤ 9999 then padded 4 year.toNat
  else (if year < 0 then "-" else "+") ++ padded 6 year.natAbs

def isoText (t : Instant) : String :=
  let d := t.calendarDay
  yearText d.year ++ "-" ++ padded 2 d.month ++ "-" ++ padded 2 d.day ++ "T" ++ t.clock ++ "."
    ++ padded 3 (t.millisOfDay % 1000) ++ "Z"

def weekdayNames : List String := ["Sun", "Mon", "Tue", "Wed", "Thu", "Fri", "Sat"]

def monthNames : List String :=
  ["Jan", "Feb", "Mar", "Apr", "May", "Jun", "Jul", "Aug", "Sep", "Oct", "Nov", "Dec"]

def text (t : Instant) : String :=
  let d := t.calendarDay
  let year := (if d.year < 0 then "-" else "") ++ padded 4 d.year.natAbs
  Text.join " " [weekdayNames.getD d.weekday "", monthNames.getD (d.month - 1) "", padded 2 d.day,
    year, t.clock, "GMT+0000 (Coordinated Universal Time)"]

end Instant

end SkillPipeline
