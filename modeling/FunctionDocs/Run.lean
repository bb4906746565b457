import FunctionDocs.DocBlock.Compose
import FunctionDocs.Files.Tree
import FunctionDocs.Header.Insert
import FunctionDocs.Report.Html
import FunctionDocs.Report.Markdown

/-!
# A documentation run

The steps of a run over files: back up a source file, put headers into it, read its functions, compose their comments, put these
in place, and write the report. A step that fails leaves what was written before it.
-/

namespace FunctionDocs.Run

open Coverage (Stats)

/-- Steps over a tree of files; what was written stays when a step fails. -/
abbrev FilesM := ExceptT Failure (StateM Tree)

def look {α : Type} (f : Tree → Except Failure α) : FilesM α := do
  match f (← get) with
  | .ok a => return a
  | .error e => throw e

def change (f : Tree → Except Failure Tree) : FilesM Unit := do
  match f (← get) with
  | .ok t => set t
  | .error e => throw e

def settle {α : Type} : Except Failure α → FilesM α
  | .ok a => return a
  | .error e => throw e

def extract (path : Text) : FilesM (List Source.Function) := do
  settle (Source.functionsOf (← look (·.readText path)) path)

def insertInto (path : Text) (style : Option Value) : FilesM Unit := do
  let content ← look (·.readText path)
  let new ← settle (Header.insertComments content style)
  change (·.writeText path new)

/-- The entries with their new lines, as far as these can be found, and the failure that ended the search. -/
def updateStarts (ls : List Text) : List Entry → List Entry × Option Failure
  | [] => ([], none)
  | e :: es =>
    match Header.newStartLine ls e with
    | .error f => (e :: es, some f)
    | .ok i =>
      let (rest, failure) := updateStarts ls es
      ({ e with startLine := some i } :: rest, failure)

/-- Puts the comments of entries into a file, and gives the lines of the file as they are now. -/
def replaceIn (path : Text) (es : List Entry) : FilesM (List Text) := do
  let content ← look (·.readText path)
  let ls ← settle (Header.replaceHeaders content es)
  change (·.writeText path (Text.unlines ls ++ "\n"))
  return ls

/-- Copies a file into a directory for backups, which is made if it does not exist; refuses a text that does not look like a
directory. -/
def backUp (path : Text) (directory : Value) : FilesM Bool := do
  match directory with
  | .str dir =>
    if Path.looksLikeDirectory dir then
      change (·.ensureDirs dir)
      change (·.copyFile path (Path.join dir (Path.base path ++ ".bak")))
      return true
    else return false
  | _ => return false

/-- What a run gives: the documented functions, or the reason why it was refused. -/
inductive Outcome where
  | documented (entries : List Entry)
  | refused (reason : Text)

/-- What a run is asked for. -/
structure Request where
  readOnly : Bool
  style : Value
  backup : Value

def Request.ofArguments (arguments : Value) : Except Failure Request := do
  let readOnly ← Value.fieldOf arguments "readonly"
  let style ← Value.fieldOf arguments "headerCommentStyle"
  let backup ← Value.fieldOf arguments "backup_path"
  return ⟨readOnly.isTrue, style, backup⟩

/-- Documents one file; `none` if its backup was refused. -/
def documentFile (r : Request) (path : Text) : FilesM (Option (List Entry)) := do
  if !r.readOnly then
    if r.backup != .null then
      if !(← backUp path r.backup) then return none
    insertInto path (some r.style)
  let found ← extract path
  let es ← settle ((found.map Entry.ofFunction).mapM DocBlock.document)
  if r.style == .str "doxygen" && !r.readOnly then
    let ls ← replaceIn path es
    match updateStarts ls es with
    | (es, none) => return some es
    | (_, some f) => throw f
  else return some es

def documentFiles (r : Request) : List Text → FilesM Outcome
  | [] => return .documented []
  | path :: paths => do
    match ← documentFile r path with
    | none => return .refused ("ERROR while creating Backupdir: " ++ r.backup.display)
    | some es =>
      match ← documentFiles r paths with
      | .documented more => return .documented (es ++ more)
      | refused => return refused

def generate (arguments : Value) (paths : List Text) : FilesM Outcome := do
  documentFiles (← settle (Request.ofArguments arguments)) paths

/-- Writes a draft into a file, up to its first failure. -/
def writeDraft (path : Text) (draft : Except Failure Report.Draft) : FilesM Unit := do
  let d ← settle draft
  change (·.writeText path d.written)
  match d.failure? with
  | some f => throw f
  | none => return

def writeReport (output : Text) (es : List Entry) (arguments : Value) (s : Stats) (format : Value) : FilesM Text := do
  if format == .str "markdown" || format == .str "md" then
    let path := output ++ ".md"
    writeDraft path (Report.Markdown.page es arguments s.figures)
    return path
  else if format == .str "html" then
    let path := output ++ ".html"
    writeDraft path (Report.Html.page es arguments s.figures)
    return path
  else throw (.unknownFormat format.display)

/-- Where reports go, without the ending; the directory is made if it does not exist. -/
def outputPath (arguments : Value) : FilesM Text := do
  let output ← match ← settle (Value.fieldOf arguments "output_path") with
    | .str t => pure t
    | other => throw (.notPath other.kind)
  change (·.ensureDirs (Path.directory output))
  return output

/-- Writes the report in all wanted formats; gives the path of the last file and the stats. -/
def save (arguments : Value) (es : List Entry) : FilesM (Text × Stats) := do
  let output ← outputPath arguments
  let stats ← settle (Stats.ofEntries es)
  let formats ← settle (do Value.itemsOf (← Value.fieldOf arguments "output_format"))
  let paths ← formats.mapM (writeReport output es arguments stats)
  return (paths.getLast?.getD [], stats)

end FunctionDocs.Run
