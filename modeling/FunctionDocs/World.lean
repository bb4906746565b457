import FunctionDocs.Files.Tree
import FunctionDocs.Json.Value
import FunctionDocs.Time

/-!
# The world of a program

What a program reads and changes outside itself: files, the console, the log, the clock, processes it starts and web requests
it sends. The answers of processes and of the web are given in advance, in order; all that the program asked for is kept.
-/

namespace FunctionDocs

/-- How serious a logged message is. -/
inductive Level where
  | debug
  | info
  | warning
  | error
  | critical
  deriving DecidableEq, Repr

def Level.name : Level → Text
  | .debug => "DEBUG"
  | .info => "INFO"
  | .warning => "WARNING"
  | .error => "ERROR"
  | .critical => "CRITICAL"

inductive ProcessAnswer where
  | done (code : Int) (out err : Text)
  | refused (kind message : Text)

inductive WebAnswer where
  | response (status : Int) (json : Value) (text : Text)
  | refused (message : Text)

/-- What a program asked of the world outside. -/
inductive Call where
  /-- A process, with its working directory and the text of a file it is handed. -/
  | process (command : List Text) (directory handed : Option Text)
  /-- A web request. -/
  | web (method url : Text) (headers json : Value) (data : Option Text) (timeout : Value)

/-- The world outside a program. -/
structure World where
  tree : Tree := {}
  now : Moment := 0
  processes : List ProcessAnswer := []
  web : List WebAnswer := []
  /-- The modules that can be loaded. -/
  loadable : List Text := []
  /-- The modules that can be loaded once an installation was started. -/
  installable : List Text := []
  /-- The name of a fresh directory. -/
  scratch : Text := []
  /-- All that was printed. -/
  printed : Text := []
  log : List (Level × Text) := []
  calls : List Call := []

/-- The number that a program ends with; zero may be the share of a documentation. -/
inductive ExitCode where
  | number (n : Int)
  | noShare
  deriving DecidableEq, Repr

def ExitCode.text : ExitCode → Text
  | .number n => Text.ofInt n
  | .noShare => "0.0"

/-- Why a program stops before its end. -/
inductive Stop where
  | failed (f : Failure)
  | exited (code : ExitCode)

/-- Steps of a program in the world; what was done stays when a step fails. -/
abbrev WorldM := ExceptT Stop (StateM World)

namespace WorldM

def fail {α : Type} (f : Failure) : WorldM α := throw (.failed f)

def settle {α : Type} : Except Failure α → WorldM α
  | .ok a => return a
  | .error f => fail f

def look {α : Type} (f : Tree → Except Failure α) : WorldM α := do settle (f (← get).tree)

def change (f : Tree → Except Failure Tree) : WorldM Unit := do
  let t ← settle (f (← get).tree)
  modify fun w => { w with tree := t }

def onFiles {α : Type} (m : ExceptT Failure (StateM Tree) α) : WorldM α := do
  let (r, t) := m.run.run (← get).tree
  modify fun w => { w with tree := t }
  settle r

def printRaw (t : Text) : WorldM Unit := modify fun w => { w with printed := w.printed ++ t }

def print (t : Text) : WorldM Unit := printRaw (t ++ "\n")

/-- Logs a message, which is also printed. -/
def logMessage (level : Level) (message : Text) : WorldM Unit := do
  modify fun w => { w with log := w.log ++ [(level, message)] }
  print ("[LOG] " ++ message)

def exit {α : Type} (code : Int) : WorldM α := throw (.exited (.number code))

/-- Goes on after a failure; an exit is no failure. -/
def recover {α : Type} (m : WorldM α) (handle : Failure → WorldM α) : WorldM α :=
  tryCatch m fun
    | .failed f => handle f
    | stop => throw stop

def ask (c : Call) : WorldM Unit := modify fun w => { w with calls := w.calls ++ [c] }

/-- The answer of the next process; without one it succeeds and says nothing. -/
def nextProcess : WorldM ProcessAnswer := do
  let w ← get
  match w.processes with
  | [] => return .done 0 [] []
  | a :: rest =>
    set { w with processes := rest }
    return a

/-- Starts a process and waits for its code, its output and its error output. -/
def start (command : List Text) (directory handed : Option Text) : WorldM (Int × Text × Text) := do
  ask (.process command directory handed)
  match ← nextProcess with
  | .done code out err => return (code, out, err)
  | .refused kind message => fail (.refused kind message)

def startChecked (command : List Text) (directory handed : Option Text) : WorldM (Text × Text) := do
  let (code, out, err) ← start command directory handed
  if code != 0 then fail (.processFailed command code) else return (out, err)

def request (method url : Text) (headers json : Value) (data : Option Text) (timeout : Value) :
    WorldM (Int × Value × Text) := do
  ask (.web method url headers json data timeout)
  let w ← get
  match w.web with
  | [] => fail (.unreachable "no answer")
  | a :: rest =>
    set { w with web := rest }
    match a with
    | .response status json text => return (status, json, text)
    | .refused message => fail (.unreachable message)

end WorldM

end FunctionDocs
