import FunctionDocs.App.Info
import FunctionDocs.App.Phrasebook
import FunctionDocs.App.Settings
import FunctionDocs.Window.Widget

/-!
# What the window shows

The state of the window: the texts and choices in its widgets, the lines of its log, and what the program keeps with it. A
change that the user could have made marks the settings as edited.
-/

namespace FunctionDocs.Window

/-- A window of its own that shows a page. -/
structure Dialog where
  title : Text
  icon : Option Text
  content : Text
  deriving DecidableEq, Repr

def Dialog.size : Nat × Nat := (800, 600)

def Notice.text : Notice → Text
  | .darkMode => "Toggle Dark/Light Mode"
  | .repository =>
    "Repository: <a href=\"" ++ App.repositoryPage ++ "\">" ++ App.repositoryPage ++ "</a>"
  | .changelog => "Changelog: <a href=\"#\">Changelog</a>"

def replaced {α β : Type} [DecidableEq α] (f : α → β) (a : α) (b : β) : α → β := fun x => if x = a then b else f x

/-- The state of the window. -/
structure View where
  /-- The phrases it shows. -/
  captions : Caption → Value := fun _ => .str []
  /-- The contents of the text fields. -/
  texts : Field → Value := fun _ => .str []
  ticked : Check → Bool := fun _ => false
  /-- The number of the chosen entry. -/
  chosen : Combo → Nat := fun _ => 0
  unfolded : Fold → Bool := fun _ => false
  hidden : List Widget := [.button .openReports]
  /-- The paths of the pictures that were found. -/
  pictures : Picture → Option Text := fun _ => none
  icon : Option Text := none
  dialog : Option Dialog := none
  /-- The page with the help. -/
  help : Text := []
  /-- The lines of the log. -/
  lines : List Text := []
  settings : Option App.Settings := none
  /-- The settings carry the program's particulars. -/
  branded : Bool := false
  /-- The settings were changed and may have to be saved. -/
  edited : Bool := false
  dark : Bool := false
  book : App.Phrasebook := ⟨"en", .obj []⟩

namespace View

def entries (w : View) (k : Combo) : List Value :=
  (List.range k.keys.length).map fun i => w.captions (.entry k i)

def current (w : View) (k : Combo) : Value := w.captions (.entry k (w.chosen k))

def put (w : View) (c : Caption) (v : Value) : View := { w with captions := replaced w.captions c v }

/-- Shows another text at a place; a new name of a chosen entry is a change of the settings. -/
def rename (w : View) (c : Caption) (v : Value) : View :=
  let chosen := match c with
    | .entry k i => w.chosen k = i && w.captions c != v
    | _ => false
  { w.put c v with edited := w.edited || chosen }

/-- What a text field holds if it is given a value; nothing is the empty text. -/
def held : Value → Value
  | .null => .str []
  | v => v

def setText (w : View) (f : Field) (v : Value) : View :=
  if w.texts f == held v then w else { w with texts := replaced w.texts f (held v), edited := true }

def tick (w : View) (c : Check) (b : Bool) : View :=
  if w.ticked c = b then w else { w with ticked := replaced w.ticked c b, edited := true }

def turn (w : View) (k : Combo) (i : Nat) : View := { w with chosen := replaced w.chosen k i }

def choose (w : View) (k : Combo) (i : Nat) : View :=
  let w' := w.turn k i
  { w' with edited := w.edited || w'.current k != w.current k }

def entryNumber? (w : View) (k : Combo) (v : Value) : Option Nat := (w.entries k).findIdx? (· == v)

/-- Chooses an entry of the settings by its text; a text that is no entry changes nothing. -/
def chooseText (w : View) (k : Combo) (v : Value) : View :=
  match w.entryNumber? k v with
  | some i => w.choose k i
  | none => w

def settled (w : View) : View := { w with edited := false }

def isVisible (w : View) (x : Widget) : Bool := !w.hidden.contains x

def setVisible (w : View) (x : Widget) (shown : Bool) : View :=
  let others := w.hidden.filter (· != x)
  { w with hidden := if shown then others else x :: others }

def foldSign (w : View) (g : Fold) : Text := if w.unfolded g then "▾" else "▸"

/-- The settings as fields of an object; nothing if there are none. -/
def config (w : View) : Value :=
  match w.settings with
  | none => .null
  | some s =>
    match s.toValue with
    | .obj fields => .obj (if w.branded then fields ++ [(("app_info" : Text), App.particulars)] else fields)
    | v => v

end View

end FunctionDocs.Window
