import FunctionDocs.App.Resources
import FunctionDocs.Files.Tree
import FunctionDocs.Json.Read
import FunctionDocs.Text.Case
import FunctionDocs.Time

/-!
# Settings

The settings of a documentation run, read from a configuration file. A key that is missing takes a default and is reported. A
file that cannot be read or understood is reported, and the configuration that comes with the program takes its place.
-/

namespace FunctionDocs.App

/-- What the settings say of the document. -/
structure Document where
  title : Value
  version : Value
  author : Value
  date : Value
  logo : Value
  highlightTodo : Value
  showProgress : Value
  deriving BEq, Repr

/-- The settings of a documentation run. -/
structure Settings where
  document : Document
  path : Text
  source : Value
  recursive : Bool
  formats : Value
  output : Value
  backup : Value
  readOnly : Value
  headerStyle : Value
  deriving BEq, Repr

def Document.toValue (d : Document) : Value :=
  .obj [("title", d.title), ("version", d.version), ("author", d.author), ("date", d.date), ("logoPath", d.logo),
    ("highlightTodo", d.highlightTodo), ("showDocProgress", d.showProgress)]

def Settings.toValue (s : Settings) : Value :=
  .obj [("document", s.document.toValue), ("config_path", .str s.path), ("source_dir", s.source),
    ("recursive", .bool s.recursive), ("output_format", s.formats), ("output_path", s.output), ("backup_path", s.backup),
    ("readonly", s.readOnly), ("headerCommentStyle", s.headerStyle)]

namespace Settings

/-- Steps of reading settings, with the messages so far; these stay when a step fails. -/
abbrev ReadM := ExceptT Failure (StateM (List Text))

def note (message : Text) : ReadM Unit := modify (· ++ [message])

/-- The fields of a value, which has to be an object. -/
def fieldsOf : Value → ReadM (List (Text × Value))
  | .obj fs => return fs
  | other => throw (.noOperation other.kind "get")

/-- A field of a section, or its default, which is noted. -/
def fieldOr (sec : Value) (key : Text) (default : Value) (name : Text) : ReadM Value := do
  match Value.lookup key (← fieldsOf sec) with
  | some v => return v
  | none =>
    note ("[configSetup] Missing key '" ++ key ++ "' in section '" ++ name ++ "', using fallback: " ++ default.shown)
    return default

/-- The date of the document: today, if the settings leave it open. -/
def dateOf (now : Moment) (v : Value) : Value :=
  let word := Text.toLower (Text.trim v.display)
  if word == "auto" || word == "today" || word.isEmpty then .str now.date else v

def versionWord : Value → ReadM Text
  | .str t => return Text.replaceAll t "." "_"
  | other => throw (.noOperation other.kind "replace")

def formatList : Value → Value
  | .str t => .list [.str t]
  | v => v

/-- What a configuration says of the document; nothing, which is noted, if it has no such section. -/
def documentOf (path : Text) (fields : List (Text × Value)) : ReadM Value := do
  match Value.lookup "document" fields with
  | some doc => return doc
  | none =>
    note ("[configSetup] Missing key 'document' in section 'root' in config file '" ++ path ++ "'")
    return .obj []

def logoOf (i : Installation) (place : Value) : ReadM Text :=
  match i.resourceAt place "assets/logo.svg" with
  | .ok p => return p
  | .error f => throw f

def ofConfig (i : Installation) (now : Moment) (path : Text) (config : Value) : ReadM Settings := do
  let fields ← fieldsOf config
  let doc ← documentOf path fields
  let date ← fieldOr doc "date" (.str "auto") "document"
  let word ← versionWord (← fieldOr doc "version" (.str "1.0") "document")
  let formats ← fieldOr config "output_format" (.list [.str "md"]) "root"
  let title ← fieldOr doc "title" (.str "📄 Documentation") "document"
  let version ← fieldOr doc "version" (.str "1.0") "document"
  let author ← fieldOr doc "author" (.str "Unknown") "document"
  let logo ← logoOf i (← fieldOr doc "logoPath" (.str "../generator/img/logo.svg") "document")
  let highlightTodo ← fieldOr doc "highlightTodo" (.bool true) "document"
  let showProgress ← fieldOr doc "showDocProgress" (.bool true) "document"
  let examples := i.resource "../fileExamples" (some "./assets/fileExamples")
  let source ← fieldOr config "source_dir" (.str examples) "root"
  let recursive ← fieldOr config "recursive" (.bool true) "root"
  let output ← fieldOr config "output_path" (.str ("./docs/Documentation_" ++ word)) "root"
  let backup ← fieldOr config "backup_path" .null "root"
  let readOnly ← fieldOr config "readonly" (.bool true) "root"
  let headerStyle ← fieldOr config "headerCommentStyle" .null "root"
  return {
    document := ⟨title, version, author, dateOf now date, .str logo, highlightTodo, showProgress⟩
    path, source, recursive := recursive.isTrue, formats := formatList formats, output, backup, readOnly, headerStyle }

/-- The configuration in a file: nothing if it is blank. -/
def readConfig (t : Tree) (path : Text) : Except Failure Value := do
  let text ← t.readText path
  if Text.isBlankLine text then return .null
  match Json.read text with
  | .ok v => return v
  | .error _ => .error .malformedConfig

def defaultPath (i : Installation) : Text := i.resource "../config.yaml" (some "assets/config.yaml")

def tryFile (i : Installation) (now : Moment) (t : Tree) (path : Text) (before : List Text) :
    Option Settings × List Text :=
  match readConfig t path with
  | .error f => (none, before ++ ["[configSetup] Error loading config file '" ++ path ++ "': " ++ f.message])
  | .ok config =>
    match (ofConfig i now path config).run.run before with
    | (.ok s, notes) => (some s, notes)
    | (.error f, notes) =>
      (none, notes ++ ["[configSetup] Error parsing config file '" ++ path ++ "': " ++ f.message])

/-- The settings in a file, or in the file that comes with the program, and all messages. An empty path stands for the latter
file, which is then tried once only. -/
def load (i : Installation) (now : Moment) (t : Tree) (path : Text) : Option Settings × List Text :=
  if path.isEmpty then tryFile i now t (defaultPath i) []
  else
    match tryFile i now t path [] with
    | (some s, notes) => (some s, notes)
    | (none, notes) => tryFile i now t (defaultPath i) notes

end Settings

end FunctionDocs.App
