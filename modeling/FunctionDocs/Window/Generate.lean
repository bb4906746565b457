import FunctionDocs.App.CommandLine
import FunctionDocs.Window.Configure

/-!
# Documenting from the window

The run that the window starts: with the settings from its widgets, over the source that they name. What went wrong is told in
the line of state.
-/

namespace FunctionDocs.Window

open WindowM

/-- What a value names. -/
inductive Named where
  | file (path : Text)
  | directory
  | other

def named (t : Tree) : Value → Except Failure Named
  | .str p => .ok (if t.isFile p then .file p else if t.isDir p then .directory else .other)
  | .bool _ | .int _ => .ok .other
  | v => .error (.notStatable v.kind)

/-- The source files at a place, as the settings say. -/
def filesAt (place : Value) : WindowM (List Text) := do
  match (← view).settings with
  | none => fail (.notIndexable "NoneType")
  | some s => settle (sourceFilesAt (← tree) place s.recursive)

/-- The source files that the window names; without a name, those of the settings. -/
def sourcesInWindow : WindowM (List Text) := do
  let source := (← view).texts .source
  if source.isTrue then
    match ← settle (named (← tree) source) with
    | .file path => return [path]
    | .directory => filesAt source
    | .other =>
      log .warning ("Input file is whether file or directory: " ++ source.display)
      return []
  else
    let files ← filesAt (((← view).settings.map (·.source)).getD .null)
    log .info "Using Doc. Source form config-File: None"
    return files

def tellFailure (f : Failure) : WindowM App.Share := do
  let what := match f with
    | .unknownFormat _ => "Invalid Report Output Format: '" ++ f.message ++ "'"
    | _ => "Unexpected Behaviour: '" ++ f.message ++ "'"
  log .error what
  setStatus ("ERROR: " ++ what)
  return .none

def writeReports (entries : List Entry) : WindowM App.Share :=
  recover (do
    let (file, stats) ← inWorld (WorldM.onFiles (Run.save (← view).config entries))
    if file.isEmpty then
      setStatus "STATE: Documentation was not created successfull!"
      log .warning "Documentation was not created successfull!"
      return .none
    let percent := Coverage.percentOf stats.done stats.functions
    setStatus ("STATE: " ++ Text.ofNat percent ++ "% of Documentation created successfull!")
    modifyView (·.setVisible (.button .openReports) true)
    log .info ("Documentation created successfull at " ++ file)
    return .percent percent) tellFailure

/-- Tells what a run gave, and writes the report of documented functions. -/
def conclude : Run.Outcome → WindowM App.Share
  | .refused reason => do
    log .warning ("Documentation was not created successfull: " ++ reason)
    setStatus reason
    return .none
  | .documented [] => do
    log .info "No Functions to Document found"
    setStatus "STATE: No Functions to Document found"
    return .none
  | .documented entries => writeReports entries

def document (files : List Text) : WindowM App.Share := do
  conclude (← inWorld (WorldM.onFiles (Run.generate (← view).config files)))

/-- Documents the source that the window names; gives the share that is done. -/
def generate : WindowM App.Share := do
  log .info "Start Documentation"
  modifyView (·.setVisible (.button .openReports) false)
  setStatus "State: Generating Documentation..."
  takeSettings
  let files ← sourcesInWindow
  if files.isEmpty then
    log .warning "no source files found or not valid!"
    setStatus "STATE: Source file is neither file nor directory!"
    return .none
  document files

end FunctionDocs.Window
