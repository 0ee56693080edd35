import ScriptShell.Number.Integer

/-!
# Calendar times

A time in seconds since the start of 1970 as the day and the clock show it in universal time.
Days are counted in eras of four hundred years, each of which has the same number of days; the year
is taken to start in March, so that the day a leap year adds is its last.
-/

namespace ScriptShell.Calendar

/-- A day of the calendar. -/
structure Day where
  year : Int
  month : Nat
  day : Nat
  deriving DecidableEq, Repr

/-- The number of days in four hundred years. -/
def daysInEra : Int := 146097

/-- The days from March 1 of the year 0 to January 1 of 1970. -/
def daysBeforeEpoch : Int := 719468

/-- The day a number of days after January 1 of 1970. -/
def dayOf (days : Int) : Day :=
  let shifted := days + daysBeforeEpoch
  let era := shifted.fdiv daysInEra
  let dayOfEra := (shifted.fmod daysInEra).toNat
  let yearOfEra := (dayOfEra - dayOfEra / 1460 + dayOfEra / 36524 - dayOfEra / 146096) / 365
  let dayOfYear := dayOfEra - (365 * yearOfEra + yearOfEra / 4 - yearOfEra / 100)
  let shiftedMonth := (5 * dayOfYear + 2) / 153
  let day := dayOfYear - (153 * shiftedMonth + 2) / 5 + 1
  let month := if shiftedMonth < 10 then shiftedMonth + 3 else shiftedMonth - 9
  let year := (yearOfEra : Int) + era * 400
  ⟨if month ≤ 2 then year + 1 else year, month, day⟩

/-- The names of the days of the week from the first day of 1970 on. -/
def weekdays : List String := ["Thu", "Fri", "Sat", "Sun", "Mon", "Tue", "Wed"]

/-- The names of the months. -/
def months : List String :=
  ["Jan", "Feb", "Mar", "Apr", "May", "Jun", "Jul", "Aug", "Sep", "Oct", "Nov", "Dec"]

/-- A number in at least `width` characters, `fill` standing before its digits. -/
def padded (fill : Char) (width n : Nat) : String :=
  let digits := Integer.naturalDigits n
  String.ofList (List.replicate (width - digits.length) fill ++ digits)

/-- A year in at least four digits. -/
def yearText (year : Int) : String :=
  if year < 0 then "-" ++ padded '0' 4 year.natAbs
  else if 9999 < year then "+" ++ padded '0' 4 year.natAbs
  else padded '0' 4 year.natAbs

/-- The clock at a number of seconds after midnight. -/
def clockText (seconds : Nat) : String :=
  padded '0' 2 (seconds / 3600) ++ ":" ++ padded '0' 2 (seconds / 60 % 60) ++ ":" ++
    padded '0' 2 (seconds % 60)

/-- A time as day of the week, month, day, clock and year. -/
def text (seconds : Int) : String :=
  let days := seconds.fdiv 86400
  let day := dayOf days
  weekdays.getD (days.fmod 7).toNat "" ++ " " ++ months.getD (day.month - 1) "" ++ " " ++
    padded ' ' 2 day.day ++ " " ++ clockText (seconds.fmod 86400).toNat ++ " " ++
    yearText day.year

/-- A time as year, month, day and clock, in numbers only. -/
def stamp (seconds : Int) : String :=
  let day := dayOf (seconds.fdiv 86400)
  yearText day.year ++ "-" ++ padded '0' 2 day.month ++ "-" ++ padded '0' 2 day.day ++ "T" ++
    clockText (seconds.fmod 86400).toNat

end ScriptShell.Calendar
