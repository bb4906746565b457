import FunctionDocs.Json.Write
import FunctionDocs.Window.Generate
import FunctionDocs.Window.Help

/-!
# What the window can do

Saving settings, choosing files, opening pages and directories, looking for a newer version, changing the language and the
look, and closing.
-/

namespace FunctionDocs.Window

open WindowM

def iconPath : WindowM Text := resource "../utils/icon/icon.ico" "assets/icon.ico"

def saveSettings : WindowM Unit := do
  takeSettings
  let path ← choosePath .saveFile "Save Configuration" (some ("CPPCodeDoc files (*" ++ App.fileEnding ++ ")"))
  if path.isEmpty then log .info "No file selected. Configuration not saved."
  else
    recover (do
      let s ← get
      let text := App.licenseHeader s.world.now ++ "\n\n" ++ Json.write s.view.config
      inWorld (WorldM.change (·.writeText path text))
      log .info ("New configuration saved to " ++ path))
      fun f => log .warning ("File error while saving configuration: " ++ f.message)

/-- Opens an address of the web; other addresses are refused. -/
def openUrl (url : Value) : WindowM Unit := do
  match url with
  | .str u =>
    if Text.startsWithAny u ["http://", "https://"] then modify fun s => { s with urls := s.urls ++ [u] }
    else log .warning ("Invalid URL executed: " ++ u)
  | other => log .warning ("Invalid URL executed: " ++ other.display)

def Picture.url : Picture → Option Text
  | .logo => none
  | .paypal => some "https://paypal.me/jojos1220"
  | .kofi => some "https://ko-fi.com/jojo1220"
  | .github => some App.repositoryPage

def helpPage (path : Text) : WindowM Text := do
  if (← tree).pathExists path then return Help.page (← settle ((← tree).readText path)) else return Help.missing

def showPage (title place bundled : Text) : WindowM Unit := do
  log .info ("Opening " ++ title ++ " window")
  let content ← helpPage (← resource place bundled)
  let icon ← iconPath
  let found := (← tree).pathExists icon
  if found then inWorld (WorldM.print ("Icon Path: " ++ icon))
  else log .warning ("Icon Path can't be found: " ++ icon)
  modifyView fun w => { w with dialog := some ⟨title, if found then some icon else none, content⟩ }

def showHelp : WindowM Unit := showPage "Help" "../../help.md" "assets/help.md"

def showChangelog : WindowM Unit := showPage "Changelog" "../../changelog.md" "assets/changelog.md"

/-- The path that the user chooses for a target; nothing if there is no dialog for it. -/
def askForPath (target mode : Text) : WindowM (Option Text) := do
  if mode == "file" then
    let caption := "Select " ++ Text.capitalize target ++ " file"
    if target == "source" then return some (← choosePath .openFile caption (some "C++ Files (*.cpp *.h *.hpp *.cxx *.ino)"))
    else if target == "config" then
      return some (← choosePath .openFile caption (some ("CppCodeDoc Files (*" ++ App.fileEnding ++ ")")))
    else
      log .warning ("Invalid target/mode selected: " ++ target ++ " / " ++ mode)
      return none
  else if mode == "dir" then
    return some (← choosePath .directory ("Select " ++ Text.capitalize target ++ " Directory") none)
  else
    log .warning ("Invalid mode selected: " ++ mode)
    return none

/-- Puts a chosen path where it belongs; a configuration is loaded at once. -/
def usePath (target path : Text) : WindowM Unit := do
  if target == "source" then modifyView (·.setText .source (.str path))
  else if target == "output" then modifyView (·.setText .output (.str path))
  else if target == "backup" then modifyView (·.setText .backup (.str path))
  else if target == "config" then
    modifyView (·.setText .config (.str path))
    loadSettings path
  else log .warning ("Unknown target: " ++ target)

def selectPath (target mode : Text) : WindowM Unit := do
  let name := Text.capitalize target
  let path? ← askForPath target mode
  let path := path?.getD []
  if path.isEmpty then
    log .info ("No " ++ name ++ " File/Directory selected: " ++ path?.getD "None".toList)
  else if (← tree).isDir path then
    log .info (name ++ " Directory selected: " ++ path)
    usePath target path
  else if (← tree).isFile path then
    log .info (name ++ " File selected: " ++ path)
    usePath target path
  else log .warning (name ++ " file is whether file or directory: " ++ path)

def openDirectoryOf (path : Text) : WindowM Unit := do
  let s ← get
  let dir := Path.directory (s.world.tree.absolute path)
  if s.world.tree.pathExists dir then
    let _ ← inWorld (WorldM.start [s.platform.explorer, dir] none none)
  else showLine ("⚠️ Output directory not found: " ++ dir)

def openDirectory (which : Text) : WindowM Unit := do
  let path ← if which == "log" then
      pure (.str (Path.join (Path.join (← get).programDir "log") "CppCodeDoc.log"))
    else if which == "doc" then pure ((← view).texts .output)
    else do
      log .info (which ++ " not supported!")
      pure (.str [])
  match path with
  | .str [] => showLine "⚠️ Output path is empty."
  | .str p => openDirectoryOf p
  | other => if other.isTrue then fail (.notPath other.kind) else showLine "⚠️ Output path is empty."

def renewCaptions : WindowM Unit := do
  for c in renewedCaptions do
    let v ← phrase c.key
    modifyView (·.rename c v)

/-- The phrases of a language, which may be none. -/
def loadBook (language : Text) : WindowM App.Phrasebook := do
  inWorld (WorldM.print ("Try to open and load language file: lang/" ++ language ++ ".json"))
  let (book, message?) ← settle (App.Phrasebook.load (← get).installation (← tree) language)
  match message? with
  | some message => log .error message
  | none => pure ()
  return book

def changeLanguage (language : Text) : WindowM Unit := do
  let book ← loadBook language
  modifyView fun w => { w with book }
  renewCaptions

/-- Looks for a newer version on the web. Versions are compared as texts. -/
def checkForUpdate : WindowM Unit := do
  let icon := Value.str (← iconPath)
  recover (do
    let url := "https://api.github.com/repos/" ++ App.repository ++ "/releases/latest"
    let (status, json, _) ← inWorld (WorldM.request "GET" url .null .null none (.int 5))
    if 400 ≤ status then fail (.webStatus status)
    let latest ← match ← settle (json.fieldOf "tag_name") with
      | .str t => pure (Text.dropLeft (· == 'v') t)
      | other => fail (.noOperation other.kind "lstrip")
    if !Text.le latest App.version then
      let text := "A newer version (" ++ latest ++ ") is available on GitHub!\n\nYou're using " ++ App.version ++
        ".\n\nVisit:\n" ++ App.repositoryPage ++ "/releases"
      let _ ← prompt { text := .str text, title := .str "Update Available", icon }
    else
      let text := "You are already using the latest version (" ++ App.version ++ ")."
      let _ ← prompt { text := .str text, title := .str "Up to Date", icon })
    fun f => do
      let text := "Could not check for updates: " ++ f.message
      let _ ← prompt { text := .str text, title := .str "Update Check Failed", level := .str "warning", icon }

def toggleDark : WindowM Unit := modifyView fun w => { w with dark := !w.dark }

def keep (name : Text) (v : Value) : WindowM Unit :=
  modify fun s => { s with preferences := Value.setField name v s.preferences }

def savePreferences (config language dark : Value) : WindowM Unit := do
  keep "config_file" config
  keep "language" language
  keep "dark_mode" dark

def preference (name : Text) (default : Value) : WindowM Value := do
  return (Value.lookup name (← get).preferences).getD default

/-- Closes the window; settings that were edited can be saved before. -/
def close : WindowM Unit := do
  if (← view).edited then
    let answer ← prompt {
      text := .str "Configuration has been changed.\nDo you want to save it?", title := .str "Unsaved Changes detected",
      level := .str "warning", icon := .str (← iconPath), buttons := .int 81920, default := .int Answer.no.number }
    if answer = .yes then saveSettings
  let w ← view
  savePreferences (w.texts .config) (.str w.book.language) (.bool w.dark)

end FunctionDocs.Window
