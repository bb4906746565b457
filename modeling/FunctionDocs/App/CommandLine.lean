import FunctionDocs.App.Info
import FunctionDocs.App.Settings
import FunctionDocs.Files.Search
import FunctionDocs.Run
import FunctionDocs.World

/-!
# The command line

The options of the program, and the run that documents source files without a window. A long option may be shortened as far as
it stays clear, and its value may follow an equals sign. What is no option is kept for later.
-/

namespace FunctionDocs.App

/-- The options of the program. -/
structure Options where
  license : Bool := false
  noGui : Bool := false
  file : Option Text := none
  config : Option Text := none
  deriving DecidableEq, Repr

def Options.shown (o : Options) : Text :=
  let flag (b : Bool) : Text := if b then "True" else "False"
  let text : Option Text → Text
    | some t => Text.quoted t
    | none => "None"
  "Namespace(license=" ++ flag o.license ++ ", NoGui=" ++ flag o.noGui ++ ", file=" ++ text o.file ++ ", config=" ++
    text o.config ++ ")"

/-- What an option does. -/
inductive Switch where
  | help
  | license
  | noGui
  | file
  | config
  deriving DecidableEq, Repr

namespace CommandLine

def names : List (Text × Switch) :=
  [("-h", .help), ("--help", .help), ("--license", .license), ("--NoGui", .noGui), ("--file", .file),
   ("--config", .config)]

/-- One argument, read by itself. -/
inductive Argument where
  /-- No option. -/
  | plain (t : Text)
  /-- An option with the value it carries itself. -/
  | option (s : Switch) (value : Option Text)
  | unknown (t : Text)
  /-- The mark after which there are no options. -/
  | separator
  /-- A shortened option that could be several. -/
  | unclear
  deriving DecidableEq, Repr

def isNegativeNumber (t : Text) : Bool :=
  match t with
  | '-' :: r =>
    let whole := r.takeWhile isDecimalDigit
    match r.dropWhile isDecimalDigit with
    | [] => !whole.isEmpty
    | '.' :: frac => !frac.isEmpty && frac.all isDecimalDigit
    | _ => false
  | _ => false

def shortened (t : Text) : List (Switch × Option Text) :=
  if Text.startsWith t "--" then
    let (head, value) := match Text.cutFirst "=" t with
      | some (a, b) => (a, some b)
      | none => (t, none)
    (names.filter fun n => Text.startsWith n.1 head).map fun n => (n.2, value)
  else
    names.filterMap fun n =>
      if n.1 == t.take 2 then some (n.2, some (t.drop 2))
      else if Text.startsWith n.1 t then some (n.2, none)
      else none

def readArgument (t : Text) : Argument :=
  if t == "--" then .separator
  else if !Text.startsWith t "-" || t.length == 1 then .plain t
  else
    match names.find? (·.1 == t) with
    | some n => .option n.2 none
    | none =>
      match (Text.cutFirst "=" t).bind fun (a, b) => (names.find? (·.1 == a)).map fun n => (n.2, b) with
      | some (s, value) => .option s (some value)
      | none =>
        match shortened t with
        | [(s, value)] => .option s value
        | _ :: _ :: _ => .unclear
        | [] => if isNegativeNumber t || List.elem ' ' t then .plain t else .unknown t

/-- Reads the arguments; after the separator there are no options. -/
def readArguments : List Text → List Argument
  | [] => []
  | t :: ts =>
    match readArgument t with
    | .separator => .separator :: ts.map .plain
    | a => a :: readArguments ts

/-- What the arguments ask for. -/
inductive Command where
  | run (options : Options) (rest : List Text)
  | help
  | misuse
  deriving DecidableEq, Repr

def Options.setValue (o : Options) (s : Switch) (value : Text) : Options :=
  if s = .file then { o with file := some value } else { o with config := some value }

/-- Goes through the arguments in order; the first one that cannot be used ends it. -/
def apply (o : Options) (rest : List Text) : List Argument → Command
  | [] => .run o rest
  | .plain t :: as => apply o (rest ++ [t]) as
  | .unknown t :: as => apply o (rest ++ [t]) as
  | .separator :: as => apply o (rest ++ [("--" : Text)]) as
  | .unclear :: _ => .misuse
  | .option .help value :: _ => if (value.getD []).all (· == 'h') then .help else .misuse
  | .option .license none :: as => apply { o with license := true } rest as
  | .option .noGui none :: as => apply { o with noGui := true } rest as
  | .option .license (some _) :: _ => .misuse
  | .option .noGui (some _) :: _ => .misuse
  | .option s (some value) :: as => apply (Options.setValue o s value) rest as
  | .option s none :: .plain t :: as => apply (Options.setValue o s t) rest as
  | .option _ none :: _ => .misuse

def parse (arguments : List Text) : Command :=
  let as := readArguments arguments
  if as.contains .unclear then .misuse else apply {} [] as

def helpText : Text :=
  "usage: CppCodeDoc.py [-h] [--license] [--NoGui] [--file FILE]\n                     [--config CONFIG]\n\n" ++ description ++
  " (GUI or CLI)\n\noptions:\n  -h, --help       show this help message and exit\n  --license        show full license information\n  --NoGui          Launch with GUI instead of CLI\n  --file FILE      Optional: specific source file\n  --config CONFIG  Optional: path to custom config file\n"

end CommandLine

def separatorLine : Text := "============================================================================"

open WorldM

def printIntro : WorldM Unit := do
  print separatorLine
  print (title ++ " v" ++ version)
  print (licenseHeader (← get).now)
  print "This program comes with ABSOLUTELY NO WARRANTY; for details type `--license`."
  print separatorLine

def printLicense : WorldM Unit := do
  print separatorLine
  print (licenseText (← get).now)
  print separatorLine

/-- How much of the documentation is done; no share if there is no documentation. -/
inductive Share where
  | percent (n : Nat)
  | none
  deriving DecidableEq, Repr

def Share.text : Share → Text
  | .percent n => Text.ofNat n
  | .none => "0.0"

def Share.number : Share → Nat
  | .percent n => n
  | .none => 0

/-- The configuration that the options name; without one, that in the directory of the program. -/
def Options.configPath (o : Options) (programDir : Text) : Text :=
  match o.config with
  | some c => if c.isEmpty then Path.join programDir "config.yaml" else c
  | none => Path.join programDir "config.yaml"

def sourcesFor (o : Options) (s : Settings) (t : Tree) : Except Failure (List Text) :=
  match o.file with
  | some f => if f.isEmpty then sourceFilesAt t s.source s.recursive else .ok [f]
  | none => sourceFilesAt t s.source s.recursive

def Settings.arguments (s : Settings) : Value :=
  match s.toValue with
  | .obj fields => .obj (fields ++ [(("app_info" : Text), particulars)])
  | v => v

/-- The settings in a file; the messages about them are logged. -/
def loadSettings (i : Installation) (path : Text) : WorldM Settings := do
  let w ← get
  match Settings.load i w.now w.tree path with
  | (none, _) => fail .noConfig
  | (some s, notes) =>
    notes.forM fun n => logMessage .warning ("Error while parsing/loading config file: " ++ n)
    return s

/-- Writes the report on what a run gave; gives the share that is done. A report that cannot be written is a failure of its own. -/
def report (s : Settings) : Run.Outcome → WorldM Share
  | .refused _ => do
    -- The reason is no documentation: making its report fails, and so does the attempt to log that.
    recover (do let _ ← onFiles (Run.outputPath s.arguments)) fun _ => return
    fail (.unknownLevel "Error")
  | .documented [] => do
    logMessage .info "No Functions to Document found"
    return .none
  | .documented es => do
    let saved ← recover (do return some (← onFiles (Run.save s.arguments es))) fun _ => return none
    match saved with
    | none => fail (.unknownLevel "Error")
    | some (file, stats) =>
      if file.isEmpty then
        logMessage .warning "Documentation was not created successfull!"
        return .none
      else
        logMessage .info ("Documentation created successfull at " ++ file)
        return .percent (Coverage.percentOf stats.done stats.functions)

def runWithoutWindow (i : Installation) (programDir : Text) (o : Options) : WorldM Share := do
  logMessage .info "CLI Mode started"
  let s ← loadSettings i (o.configPath programDir)
  let files ← look (sourcesFor o s)
  report s (← onFiles (Run.generate s.arguments files))

/-- The first of the remaining arguments that names a configuration, if none was given, and the others. -/
def takeConfig (o : Options) (rest : List Text) : Option Text × List Text :=
  if o.config.any (!·.isEmpty) then (none, rest)
  else
    match rest.find? fun t => Text.endsWith (Text.toLower t) fileEnding with
    | some t => (some t, rest.erase t)
    | none => (none, rest)

def Options.withConfig (o : Options) (rest : List Text) : Options :=
  match (takeConfig o rest).1 with
  | some c => { o with config := some c }
  | none => o

/-- Reads the command line: the options to run with, or nothing if the work is done. -/
def readCommand (arguments : List Text) : WorldM (Option Options) := do
  printIntro
  match CommandLine.parse arguments with
  | .misuse => exit 2
  | .help =>
    printRaw CommandLine.helpText
    exit 0
  | .run o rest =>
    logMessage .info (title ++ " " ++ version ++ " by " ++ author)
    logMessage .info ("Input arguments: " ++ o.shown)
    let (config, unknown) := takeConfig o rest
    match config with
    | some c => logMessage .info ("Treating " ++ fileEnding ++ " file '" ++ c ++ "' as config file.")
    | none => pure ()
    if o.license then
      printLicense
      return none
    if !unknown.isEmpty then
      logMessage .warning ("Unknown Input Arguments: " ++ Text.quotedList unknown)
    return some (o.withConfig rest)

/-- Ends the program with a share, unless nearly all is done. -/
def endWith (share : Share) : WorldM Unit := do
  print ("Total Documentation done: " ++ share.text ++ "%")
  match share with
  | .none => throw (.exited .noShare)
  | .percent n => if n < 99 then exit n else return

/-- The program up to the point where it opens its window: the options, or nothing if the work is done. -/
def launch (i : Installation) (programDir : Text) (arguments : List Text) : WorldM (Option Options) := do
  match ← readCommand arguments with
  | none => return none
  | some o =>
    if o.noGui then
      endWith (← runWithoutWindow i programDir o)
      return none
    else return some o

end FunctionDocs.App
