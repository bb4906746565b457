import FunctionDocs.Window.Action

/-!
# Opening the window

The window is filled with the phrases of the language that was kept, its pictures are looked for, and the settings are loaded:
those that the command line names, those that were kept, or those that come with the program.
-/

namespace FunctionDocs.Window

open WindowM

def title : Text := App.title ++ " v" ++ App.version ++ " by " ++ App.author

def darkModeIcon (i : App.Installation) : Text := i.resource "../generator/img/DarkMode.svg" (some "assets/DarkMode.svg")

def Picture.places : Picture → Text × Text
  | .logo => ("../generator/img/Reference.png", "assets/Reference.png")
  | .paypal => ("../generator/img/paypal.svg", "assets/paypal.svg")
  | .kofi => ("../generator/img/Ko-fi.svg", "assets/Ko-fi.svg")
  | .github => ("../generator/img/github.svg", "assets/github.svg")

def fillCaptions (cs : List Caption) : WindowM Unit :=
  cs.forM fun c => do
    let v ← phrase c.key
    modifyView (·.put c v)

def fillIcon : WindowM Unit := do
  let icon ← iconPath
  inWorld (WorldM.print ("Icon Path: " ++ icon))
  if (← tree).pathExists icon then modifyView fun w => { w with icon := some icon }
  else log .warning ("Icon Path can't be found: " ++ icon)

/-- Turns the list of languages to the language of the window; other languages count as the first one. -/
def fillLanguage : WindowM Unit := do
  let book := (← view).book
  if !book.isKnown then log .warning ("Unsupported language: " ++ book.language ++ ". Defaulting to English.")
  modifyView (·.turn .language book.index)

/-- Shows a picture, if it is found. -/
def fillPicture (p : Picture) : WindowM Unit := do
  let (place, bundled) := p.places
  let path ← resource place bundled
  if (← tree).pathExists path then modifyView fun w => { w with pictures := replaced w.pictures p (some path) }
  else
    let what : Text := if p = .logo then "Logo" else "Icon"
    log .warning (what ++ " Path can't be found: " ++ path)

/-- Fills the window with phrases and pictures; gives the configuration that was kept. -/
def furnish : WindowM Value := do
  log .info "Application started"
  let kept ← preference "config_file" (.str [])
  let language ← preference "language" (.str "en")
  let dark ← preference "dark_mode" (.bool false)
  let book ← loadBook language.display
  modifyView fun w => { w with book, dark := dark.isTrue }
  fillIcon
  fillCaptions pageCaptions
  fillLanguage
  let help ← helpPage (← resource "../../help.md" "assets/help.md")
  modifyView fun w => { w with help }
  fillCaptions tabCaptions
  log .info "App started (GUI Mode)"
  [Picture.logo, Picture.paypal, Picture.kofi, Picture.github].forM fillPicture
  return kept

def build (config : Option Text) : WindowM Unit := do
  let kept ← furnish
  match config with
  | some (c :: cs) => loadSettings (c :: cs)
  | _ => loadSettings (if kept.isTrue then kept.display else [])

/-- The program with its window: false if the command line asks for something else. -/
def start (arguments : List Text) : WindowM Bool := do
  let s ← get
  match ← inWorld (App.launch s.installation s.programDir arguments) with
  | none => return false
  | some options =>
    build options.config
    return true

end FunctionDocs.Window
