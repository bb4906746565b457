import FunctionDocs.Window.Build

/-!
# What the user does

Each thing that the user can do with the widgets, and what follows from it.
-/

namespace FunctionDocs.Window

open WindowM

/-- Something that the user does. -/
inductive Event where
  | type (f : Field) (v : Value)
  | tick (c : Check) (b : Bool)
  /-- An entry of a list is chosen by its text. -/
  | choose (k : Combo) (v : Value)
  | click (b : Button)
  | unfold (g : Fold)
  | press (p : Picture)
  | follow (n : Notice)
  | helpKey
  | close

def clicked : Button → WindowM Unit
  | .selectConfig => selectPath "config" "file"
  | .saveConfig => saveSettings
  | .selectSourceFile => selectPath "source" "file"
  | .selectSourceDir => selectPath "source" "dir"
  | .generate => do let _ ← generate
  | .openReports => openDirectory "doc"
  | .selectBackup => selectPath "backup" "dir"
  | .selectOutput => selectPath "output" "dir"
  | .openLog => openDirectory "log"
  | .darkMode => toggleDark

/-- Chooses a language by its name in the list; a name that is no entry changes nothing. -/
def chooseLanguage (v : Value) : WindowM Unit := do
  let w ← view
  match w.entryNumber? .language v with
  | none => return
  | some i =>
    modifyView (·.turn .language i)
    let new := (← view).current .language
    if new != w.current .language then changeLanguage new.display

def perform : Event → WindowM Unit
  | .type f v => modifyView (·.setText f v)
  | .tick c b => modifyView (·.tick c b)
  | .choose .language v => chooseLanguage v
  | .choose k v => modifyView (·.chooseText k v)
  | .click b => clicked b
  | .unfold g => modifyView fun w => { w with unfolded := replaced w.unfolded g (!w.unfolded g) }
  | .press p =>
    match p.url with
    | some url => openUrl (.str url)
    | none => return
  | .follow .changelog => showChangelog
  | .follow _ => return
  | .helpKey => showHelp
  | .close => close

/-- Hides a widget or shows it again; tells whether it is visible then. -/
def toggleVisible (x : Widget) : WindowM Bool := do
  modifyView fun w => w.setVisible x (!w.isVisible x)
  return (← view).isVisible x

end FunctionDocs.Window
