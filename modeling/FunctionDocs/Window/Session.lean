import FunctionDocs.Log.File
import FunctionDocs.Window.View

/-!
# A session with the window

The window together with the world outside it and its user, whose choices in dialogs are given in advance, in order. A message
that is logged appears in the window when the step is over.
-/

namespace FunctionDocs.Window

/-- The system that shows the window. -/
inductive Platform where
  | linux
  | mac
  | windows
  deriving DecidableEq, Repr

def Platform.explorer : Platform → Text
  | .linux => "xdg-open"
  | .mac => "open"
  | .windows => "explorer"

/-- The answer to a message box. -/
inductive Answer where
  | ok
  | yes
  | no
  deriving DecidableEq, Repr

def Answer.number : Answer → Nat
  | .ok => 1024
  | .yes => 16384
  | .no => 65536

/-- The sign in a message box. -/
inductive Sign where
  | information
  | warning
  | critical
  deriving DecidableEq, Repr

/-- The kind of a file dialog. -/
inductive Chooser where
  | openFile
  | saveFile
  | directory
  deriving DecidableEq, Repr

/-- What the user was shown. -/
inductive Box where
  | message (sign : Sign) (title text : Value) (icon : Option Text) (buttons default : Value)
  | chooser (kind : Chooser) (caption : Text) (filter : Option Text)

/-- A session with the window. -/
structure Session where
  installation : App.Installation
  /-- The directory of the program. -/
  programDir : Text
  platform : Platform := .linux
  world : World
  /-- What is kept from one session to the next. -/
  preferences : List (Text × Value) := []
  view : View := {}
  /-- The paths that the user will choose. -/
  picks : List Text := []
  /-- The buttons that the user will press. -/
  answers : List Answer := []
  boxes : List Box := []
  urls : List Text := []
  /-- The messages that are logged but not shown yet. -/
  pending : List Text := []

/-- Steps of a session; what was done stays when a step fails. -/
abbrev WindowM := ExceptT Stop (StateM Session)

def WindowM.inWorld {α : Type} (m : WorldM α) : WindowM α := fun s =>
  let (r, w) := m.run.run s.world
  (r, { s with world := w })

namespace WindowM

def fail {α : Type} (f : Failure) : WindowM α := throw (.failed f)

def settle {α : Type} : Except Failure α → WindowM α
  | .ok a => return a
  | .error f => fail f

def recover {α : Type} (m : WindowM α) (handle : Failure → WindowM α) : WindowM α :=
  tryCatch m fun
    | .failed f => handle f
    | stop => throw stop

def view : WindowM View := return (← get).view

def modifyView (f : View → View) : WindowM Unit := modify fun s => { s with view := f s.view }

def tree : WindowM Tree := return (← get).world.tree

def resource (place bundled : Text) : WindowM Text := return (← get).installation.resource place (some bundled)

/-- Logs a message, which the window will show. -/
def log (level : Level) (message : Text) : WindowM Unit := do
  inWorld (WorldM.logMessage level message)
  modify fun s => { s with pending := s.pending ++ [message] }

def logNamed (name message : Text) : WindowM Unit := do
  let (level, _) ← settle (Log.entryFor name message)
  log level message

def showLine (message : Text) : WindowM Unit := do
  let stamp := (← get).world.now.stamp
  modifyView fun w => { w with lines := w.lines ++ Text.splitOnChar '\n' ("[" ++ stamp ++ "] " ++ message) }

def showPending : WindowM Unit := do
  let messages := (← get).pending
  modify fun s => { s with pending := [] }
  messages.forM showLine

def phrase (key : Text) : WindowM Value := do settle ((← view).book.phrase key)

def setStatus (t : Text) : WindowM Unit := modifyView (·.put (.label .status) (.str t))

/-- Shows a file dialog; the path is empty if nothing is chosen. -/
def choosePath (kind : Chooser) (caption : Text) (filter : Option Text) : WindowM Text := do
  let s ← get
  set { s with boxes := s.boxes ++ [Box.chooser kind caption filter], picks := s.picks.drop 1 }
  return s.picks.head?.getD []

def answerTo (box : Box) : WindowM Answer := do
  let s ← get
  set { s with boxes := s.boxes ++ [box], answers := s.answers.drop 1 }
  return s.answers.head?.getD .ok

end WindowM

/-- What a message box asks for. -/
structure Prompt where
  text : Value
  title : Value := .str "Info"
  level : Value := .str "info"
  icon : Value := .null
  buttons : Value := .null
  default : Value := .null

def signOf (level : Text) : Sign :=
  let name := Text.toLower level
  if name == "warning" then .warning else if name == "error" then .critical else .information

open WindowM

/-- Logs a message and shows it in a box. A default button counts only among buttons that were asked for. -/
def prompt (p : Prompt) : WindowM Answer := do
  let level ← match p.level with
    | .str l => pure l
    | other => fail (.noOperation other.kind "lower")
  logNamed level p.text.display
  let t ← tree
  let icon := match p.icon with
    | .str path => if t.pathExists path then some path else none
    | _ => none
  let default := if p.buttons == .null then .null else p.default
  answerTo (.message (signOf level) p.title p.text icon p.buttons default)

def Session.run {α : Type} (s : Session) (m : WindowM α) : Except Stop α × Session :=
  let (r, s) := ExceptT.run m |>.run s
  (r, (ExceptT.run showPending |>.run s).2)

end FunctionDocs.Window
