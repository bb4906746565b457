import FunctionDocs.Text.Basic

/-!
# Moments

A moment is a number of seconds since the start of 1970. Dates follow the calendar of today at all times, and the day begins at
midnight in universal time.
-/

namespace FunctionDocs

/-- Seconds since the start of 1970. -/
abbrev Moment := Int

namespace Moment

def daySeconds : Int := 86400

def days (m : Moment) : Int := m.fdiv daySeconds

def secondOfDay (m : Moment) : Int := m.fmod daySeconds

/-- The year, month and day of a number of days since the start of 1970. A year is taken to begin in March, so that the leap
day comes last; 400 such years have 146097 days. -/
def civil (days : Int) : Int × Int × Int :=
  let z := days + 719468
  let era := z.fdiv 146097
  let dayOfEra := z.fmod 146097
  let yearOfEra :=
    (dayOfEra - dayOfEra.fdiv 1460 + dayOfEra.fdiv 36524 - dayOfEra.fdiv 146096).fdiv 365
  let dayOfYear := dayOfEra - (365 * yearOfEra + yearOfEra.fdiv 4 - yearOfEra.fdiv 100)
  let shifted := (5 * dayOfYear + 2).fdiv 153
  let day := dayOfYear - (153 * shifted + 2).fdiv 5 + 1
  let month := if shifted < 10 then shifted + 3 else shifted - 9
  (yearOfEra + era * 400 + (if month ≤ 2 then 1 else 0), month, day)

/-- The day of the week, where Monday is zero. -/
def weekday (m : Moment) : Int := (m.days + 3).fmod 7

def year (m : Moment) : Int := (civil m.days).1

def twoDigits (n : Int) : Text := Text.padNat 2 n.toNat

def date (m : Moment) : Text :=
  let (y, mo, d) := civil m.days
  Text.padNat 4 y.toNat ++ "-" ++ twoDigits mo ++ "-" ++ twoDigits d

def hour (m : Moment) : Int := m.secondOfDay / 3600

def minute (m : Moment) : Int := m.secondOfDay / 60 % 60

def second (m : Moment) : Int := m.secondOfDay % 60

def stamp (m : Moment) : Text :=
  m.date ++ " " ++ twoDigits m.hour ++ ":" ++ twoDigits m.minute ++ ":" ++ twoDigits m.second

end Moment

end FunctionDocs
