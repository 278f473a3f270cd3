/-!
# Instants

A point in time is a count of seconds since the start of 1970 in universal time and a count of nanoseconds.
`Instant.render` writes the calendar form to the millisecond, rounded down. A calendar year is counted from
March, so that the leap day comes last: `Date.ofDays` splits the days into eras of 400 years, each of which has
the same number of days.
-/

namespace MediaQuery

/-- A point in time. -/
structure Instant where
  seconds : Int
  nanos : Nat
  deriving DecidableEq, Repr, Inhabited

/-- A day of the calendar. -/
structure Date where
  year : Int
  month : Nat
  day : Nat
  deriving DecidableEq, Repr

/-- The days of 400 years. -/
def daysPerEra : Nat := 146097

/-- The number of days from the first of March of year 0 to the start of 1970. -/
def daysBefore1970 : Int := 719468

/-- The day that lies so many days after the start of 1970. -/
def Date.ofDays (days : Int) : Date :=
  let shifted := days + daysBefore1970
  let era := shifted.fdiv daysPerEra
  let dayOfEra := (shifted.fmod daysPerEra).toNat
  let yearOfEra := (dayOfEra - dayOfEra / 1460 + dayOfEra / 36524 - dayOfEra / 146096) / 365
  let dayOfYear := dayOfEra - (365 * yearOfEra + yearOfEra / 4 - yearOfEra / 100)
  let monthFromMarch := (5 * dayOfYear + 2) / 153
  let month := if monthFromMarch < 10 then monthFromMarch + 3 else monthFromMarch - 9
  { year := yearOfEra + era * 400 + (if month ≤ 2 then 1 else 0)
    month
    day := dayOfYear - (153 * monthFromMarch + 2) / 5 + 1 }

/-- A number with zeros in front up to the given width. -/
def padded (width n : Nat) : String :=
  let digits := Nat.toDigits 10 n
  String.ofList (List.replicate (width - digits.length) '0' ++ digits)

/-- A year: four digits from 0 to 9999, with a sign and at least four digits otherwise. -/
def renderYear (year : Int) : String :=
  if 0 ≤ year ∧ year ≤ 9999 then padded 4 year.toNat
  else (if year < 0 then "-" else "+") ++ padded 4 year.natAbs

/-- The calendar form in universal time, to the millisecond. -/
def Instant.render (t : Instant) : String :=
  let date := Date.ofDays (t.seconds.fdiv 86400)
  let clock := (t.seconds.fmod 86400).toNat
  renderYear date.year ++ "-" ++ padded 2 date.month ++ "-" ++ padded 2 date.day ++ "T" ++
    padded 2 (clock / 3600) ++ ":" ++ padded 2 (clock / 60 % 60) ++ ":" ++ padded 2 (clock % 60) ++ "." ++
    padded 3 (t.nanos / 1000000) ++ "Z"

/-- The first and the last day of a leap year's February stand where they should. -/
example : Date.ofDays 0 = ⟨1970, 1, 1⟩ ∧ Date.ofDays 11016 = ⟨2000, 2, 29⟩ ∧ Date.ofDays (-719468) = ⟨0, 3, 1⟩ := by
  decide

end MediaQuery
