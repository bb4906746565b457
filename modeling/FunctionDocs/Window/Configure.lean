import FunctionDocs.Window.Session

/-!
# The settings in the window

The settings go from a configuration file into the widgets, and back from the widgets into the settings of a run. The latter
starts from the file anew; a field of the window that is empty leaves what the file says.
-/

namespace FunctionDocs.Window

open WindowM

/-- Shows the messages about a configuration file, one by one. -/
def showNotes (notes : List Text) : WindowM Unit := do
  let icon ← resource "../utils/icon/icon.ico" "assets/icon.ico"
  notes.forM fun n => do
    let _ ← prompt {
      text := .str ("Error while parsing/loading config file: " ++ n), title := .str "Update config file failed!",
      level := .str "warning", icon := .str icon }

/-- The settings in a file, and the messages about it. -/
def readSettings (path : Text) : WindowM (Option App.Settings × List Text) := do
  let s ← get
  return App.Settings.load s.installation s.world.now s.world.tree path

/-- The entry of the list of formats that stands for the formats of the settings; nothing if it stays as it is. -/
def formatEntry (formats : Value) : Except Failure (Option Nat) :=
  match formats with
  | .list [] => .error .noSuchItem
  | .list [f] => .ok (if f == .str "html" then some 0 else if f == .str "md" then some 1 else none)
  | .list _ => .ok (some 2)
  | .obj fields => if fields.length < 2 then .error (.noEntry 0) else .ok (some 2)
  | other => .error (.noLength other.kind)

/-- Puts the settings into the widgets. What was not done by the user does not count as edited. -/
def fillWidgets (s : App.Settings) : WindowM Unit := do
  modifyView fun w => ((w.tick .readOnly s.readOnly.isTrue).settled.tick .recursive s.recursive).settled
  match ← settle (formatEntry s.formats) with
  | some i => modifyView (·.choose .formats i)
  | none => pure ()
  let d := s.document
  modifyView fun w =>
    ((((w.chooseText .headerStyle s.headerStyle).setText .output s.output).setText .source s.source).setText .config
      (.str s.path)).setText .backup s.backup
  modifyView fun w =>
    ((((w.setText .title d.title).setText .version d.version).setText .author d.author).setText .date d.date).setText .logo
      d.logo
  modifyView fun w =>
    ((w.tick .highlightTodo d.highlightTodo.isTrue).settled.tick .showProgress d.showProgress.isTrue).settled

def loadSettings (path : Text) : WindowM Unit := do
  let (settings?, notes) ← readSettings path
  modifyView fun w => { w with settings := settings?, branded := false }
  match settings? with
  | none => fail .noConfig
  | some s =>
    modifyView fun w => { w with branded := true }
    showNotes notes
    log .info ("Config loaded from: " ++ s.path)
    fillWidgets s

def stripped : Value → Except Failure Text
  | .str t => .ok (Text.trim t)
  | other => .error (.noOperation other.kind "strip")

def modifySettings (f : App.Settings → App.Settings) : WindowM Unit :=
  modifyView fun w => { w with settings := w.settings.map f }

def modifyDocument (f : App.Document → App.Document) : WindowM Unit :=
  modifySettings fun s => { s with document := f s.document }

def takeFormats : WindowM Unit := do
  match (← view).current .formats with
  | .str [] => return
  | .str t =>
    let formats := (Text.splitOnChar ',' t).map fun f => Value.str (Text.trim f)
    let all ← phrase "settingsTab.Allprefix"
    let formats := if formats.contains all then [.str "html", .str "md"] else formats
    modifySettings fun s => { s with formats := .list formats }
  | other => if other.isTrue then fail (.noOperation other.kind "split") else return

def takeHeaderStyle : WindowM Unit := do
  let v := (← view).current .headerStyle
  if v.isTrue then
    let style ← settle (stripped v)
    modifySettings fun s => { s with headerStyle := .str style }

/-- Takes over the path of the report; false if it cannot be one. -/
def takeOutput : WindowM Bool := do
  let path ← settle (stripped ((← view).texts .output))
  if path.isEmpty then return true
  if Path.looksLikeDirectory path then
    modifySettings fun s => { s with output := .str path }
    return true
  log .warning ("Output Path is not valid - abort: " ++ path)
  setStatus ("ERROR: Invalid Output Path: '" ++ path ++ "'")
  return false

def takePlaces : WindowM Unit := do
  let source := (← view).texts .source
  if source.isTrue then modifySettings fun s => { s with source := source }
  let backup ← settle (stripped ((← view).texts .backup))
  modifySettings fun s => { s with backup := if backup.isEmpty then .null else .str backup }

def takeDocument : WindowM Unit := do
  let w ← view
  let given (f : Field) (old : Value) : Value := if (w.texts f).isTrue then w.texts f else old
  modifyDocument fun d =>
    { d with title := given .title d.title, version := given .version d.version, author := given .author d.author,
             date := given .date d.date }

def takeLogo : WindowM Unit := do
  let path ← settle (stripped ((← view).texts .logo))
  if path.isEmpty then return
  if (← tree).isFile path then modifyDocument fun d => { d with logo := .str path }
  else
    log .warning ("Logo Path can't be found: " ++ path)
    modifyDocument fun d => { d with logo := .null }

def takeChecks : WindowM Unit := do
  let w ← view
  modifySettings fun s => { s with readOnly := .bool (w.ticked .readOnly), recursive := w.ticked .recursive }
  modifyDocument fun d =>
    { d with highlightTodo := .bool (w.ticked .highlightTodo), showProgress := .bool (w.ticked .showProgress) }

/-- The path of the configuration in the window; empty, with a warning, if there is no such file. -/
def configPath : WindowM Text := do
  let path ← settle (stripped ((← view).texts .config))
  if (← tree).isFile path then return path
  log .warning ("Config Path is not valid or does not exist: " ++ path)
  return []

/-- Makes the settings of a run from the widgets. The check boxes count only if something was edited. -/
def takeSettings : WindowM Unit := do
  let path ← configPath
  if (← view).settings.isNone then fail .noConfig
  let (settings?, notes) ← readSettings path
  modifyView fun w => { w with settings := settings?, branded := false }
  showNotes notes
  if settings?.isNone then
    log .warning "No Config file found or path invalid!"
    setStatus "State: No Config File found or path invalid!"
    return
  takeFormats
  takeHeaderStyle
  if ← takeOutput then
    takePlaces
    takeDocument
    takeLogo
    if (← view).edited then takeChecks

end FunctionDocs.Window
