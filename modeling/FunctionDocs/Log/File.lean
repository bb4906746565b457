import FunctionDocs.Log.Period
import FunctionDocs.Run
import FunctionDocs.World

/-!
# Log files

A log file grows line by line. When its period is over or when it has reached its size, it is put aside under the date of the
period, in place of an older file of that date, and only a number of such files is kept. What goes wrong while a line is
written costs that line only.
-/

namespace FunctionDocs.Log

open FunctionDocs.Run (FilesM look change)

/-- How a log file is kept. -/
structure Policy where
  period : Period
  /-- The length of the period in seconds. -/
  interval : Int
  /-- How many old files are kept; all of them if it is not positive. -/
  keep : Int
  /-- The size at which a file is put aside; none if it is not positive. -/
  limit : Int
  deriving DecidableEq, Repr

/-- A log file in use. -/
structure File where
  path : Text
  policy : Policy
  /-- When the current period ends. -/
  due : Moment
  deriving DecidableEq, Repr

def touch (path : Text) : FilesM Unit := change (·.appendBytes path [])

/-- The part of a file name before its ending; a name of points only has no ending. -/
def stem (name : Text) : Text :=
  match name.reverse.dropWhile (· != '.') with
  | [] => name
  | _ :: before => if before.all (· == '.') then name else before.reverse

def isOld (p : Period) (base name : Text) : Bool :=
  let start := stem base ++ "."
  Text.startsWith name base && Text.startsWith name start &&
    (Text.splitOnChar '.' (name.drop start.length)).any (Period.hasShape p.shape)

def surplus (f : File) (t : Tree) : List Text :=
  let dir := Path.directory f.path
  let names := match t.resolve dir with
    | .ok p => t.names p
    | .error _ => []
  let old := names.filter (isOld f.policy.period (Path.base f.path))
  (old.take (old.length - f.policy.keep.toNat)).map (Path.join dir)

def rollOver (f : File) (delay : Bool) (now : Moment) : FilesM File := do
  let aside := f.path ++ "." ++ f.policy.period.stamp (f.due - f.policy.interval)
  if (← get).pathExists aside then change (·.removeFile aside)
  if (← get).pathExists f.path then change (·.moveFile f.path aside)
  if 0 < f.policy.keep then
    for old in surplus f (← get) do
      change (·.removeFile old)
  if !delay then touch f.path
  return { f with due := f.policy.period.next f.policy.interval now }

def isFull (f : File) (t : Tree) : Bool :=
  match t.readBytes f.path with
  | .ok bs => 0 < f.policy.limit && f.policy.limit ≤ bs.length
  | .error _ => false

def line (now : Moment) (level : Level) (message : Text) : Text :=
  now.stamp ++ ",000 - " ++ level.name ++ " - " ++ message ++ "\n"

/-- It is time to put the file aside; a directory in its place stays where it is. -/
def isTime (f : File) (now : Moment) (t : Tree) : Bool := (f.due ≤ now && !t.isDir f.path) || isFull f t

def append (f : File) (delay : Bool) (now : Moment) (level : Level) (message : Text) : FilesM File := do
  let f ← if isTime f now (← get) then rollOver f delay now else pure f
  change (·.appendBytes f.path (Bytes.ofText (line now level message)))
  return f

/-- Writes a line; if that fails, the line is lost. -/
def write (f : File) (delay : Bool) (now : Moment) (level : Level) (message : Text) (t : Tree) : File × Tree :=
  match (append f delay now level message).run.run t with
  | (.ok f, t) => (f, t)
  | (.error _, t) => (f, t)

/-- Opens a log file at an absolute path, which is made unless `delay` is set. Its period counts from when a file found there
was last written, `age` seconds ago. -/
def openFile (path : Text) (period : Text) (count keep limit : Int) (delay : Bool) (now : Moment) (age : Int) : FilesM File := do
  let found := (← get).pathExists path
  if !delay then touch path
  let p ← Run.settle (Period.ofName period)
  let interval := p.seconds * count
  let written := if found then now - age else now
  return ⟨path, ⟨p, interval, keep, limit⟩, p.next interval written⟩

/-- Opens the log file of the program in a directory, which is made if it does not exist. -/
def openIn (dir name : Text) (absolute : Text → Text) (now : Moment) (age : Int) : FilesM File := do
  change (·.ensureDirs dir)
  openFile (absolute (Path.join dir name)) "midnight" 1 0 1048576 false now age

/-- A message with the failure that is being handled, which is none. -/
def withFailure (message : Text) : Text :=
  (if Text.endsWith message "\n" then message else message ++ "\n") ++ "NoneType: None"

/-- The level and the text that a message is logged with, by the name of the way to log it. -/
def entryFor (name message : Text) : Except Failure (Level × Text) :=
  if name == "debug" then .ok (.debug, message)
  else if name == "info" then .ok (.info, message)
  else if name == "warning" || name == "warn" then .ok (.warning, message)
  else if name == "error" then .ok (.error, message)
  else if name == "exception" then .ok (.error, withFailure message)
  else if name == "critical" || name == "fatal" then .ok (.critical, message)
  else if (["NOTSET", "DEBUG", "INFO", "WARN", "WARNING", "ERROR", "CRITICAL", "FATAL"] : List Text).contains name then
    .error (.notCallable "int")
  else .error (.unknownLevel name)

end FunctionDocs.Log
