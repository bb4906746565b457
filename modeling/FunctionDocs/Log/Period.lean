import FunctionDocs.Failure
import FunctionDocs.Text.Case
import FunctionDocs.Time

/-!
# Periods of a log

How long a log file is written before it is put aside, and the date that its name then gets.
-/

namespace FunctionDocs.Log

/-- The kinds of periods; weekdays are counted from Monday. -/
inductive Period where
  | second
  | minute
  | hour
  | day
  | midnight
  | weekday (day : Nat)
  deriving DecidableEq, Repr

namespace Period

/-- The period with a name, where case does not count. -/
def ofName (name : Text) : Except Failure Period :=
  let word := name.flatMap titleChars
  if word == "S" then .ok .second
  else if word == "M" then .ok .minute
  else if word == "H" then .ok .hour
  else if word == "D" then .ok .day
  else if word == "MIDNIGHT" then .ok .midnight
  else
    match word with
    | ['W', d] => if '0' ≤ d && d ≤ '6' then .ok (.weekday (d.toNat - 48)) else .error (.unknownDay word)
    | 'W' :: _ => .error (.dayMissing word)
    | _ => .error (.unknownPeriod word)

def seconds : Period → Int
  | .second => 1
  | .minute => 60
  | .hour => 3600
  | .day => 86400
  | .midnight => 86400
  | .weekday _ => 604800

/-- How finely a period is written: a letter stands for a digit. -/
def shape : Period → Text
  | .second => "dddd-dd-dd_dd-dd-dd"
  | .minute => "dddd-dd-dd_dd-dd"
  | .hour => "dddd-dd-dd_dd"
  | _ => "dddd-dd-dd"

def stamp (p : Period) (m : Moment) : Text :=
  let all := m.date ++ "_" ++ Moment.twoDigits m.hour ++ "-" ++ Moment.twoDigits m.minute ++ "-" ++
    Moment.twoDigits m.second
  all.take p.shape.length

def hasShape : Text → Text → Bool
  | [], [] => true
  | s :: ss, c :: cs => (if s == 'd' then isAsciiDigit c else s == c) && hasShape ss cs
  | _, _ => false

/-- The end of the period that a moment lies in, where `interval` is the length of the period in seconds. -/
def next (p : Period) (interval : Int) (m : Moment) : Moment :=
  let midnight := m + (Moment.daySeconds - m.secondOfDay)
  match p with
  | .midnight => midnight
  | .weekday d => midnight + ((d : Int) - m.weekday).fmod 7 * Moment.daySeconds
  | _ => m + interval

end Period

end FunctionDocs.Log
