import FunctionDocs.App.Languages
import FunctionDocs.App.Program
import FunctionDocs.Window.Build

/-!
# The command line

Reads the files below the current directory, runs the program on them, and brings the outcome back: changed files, the log,
printed text and the exit code. There is no screen here, so a window that is asked for is opened and closed again.
-/

namespace FunctionDocs.Main

def placeOf (path : String) : Place := Path.steps path.toList

def depth : Nat := 32

def addEntry : Nat → Tree → IO.FS.DirEntry → IO Tree
  | 0, t, _ => return t
  | n + 1, t, e => do
    let p := placeOf e.path.toString
    if ← e.path.isDir then
      let mut t := t.set p .dir
      for inner in ← e.path.readDir do
        t ← addEntry n t inner
      return t
    else
      let bytes ← IO.FS.readBinFile e.path
      return t.set p (.file bytes.toList)

def readTree : IO Tree := do
  let here ← IO.currentDir
  let p := placeOf here.toString
  let mut t : Tree := { here := p }
  t := (t.withParents p).set p .dir
  for e in ← here.readDir do
    t ← addEntry depth t e
  return t

def pathOf (p : Place) : String := String.ofList ("/" ++ Text.joinWith "/" p)

def writeChanges (old new : Tree) : IO Unit := do
  for (p, n) in new.nodes do
    if old.at? p != some n then
      match n with
      | .dir => IO.FS.createDirAll (pathOf p)
      | .file bytes =>
        IO.FS.createDirAll (pathOf p.dropLast)
        IO.FS.writeBinFile (pathOf p) ⟨bytes.toArray⟩
  for (p, n) in old.nodes do
    if new.at? p == none then
      match n with
      | .file _ => IO.FS.removeFile (pathOf p)
      | .dir => pure ()

/-- Adds the phrases that come with the program, unless there are other ones. -/
def addPhrases (home : Place) (t : Tree) : Tree :=
  let add (t : Tree) (name : Text) (v : Value) : Tree :=
    let p := home ++ [("lang" : Text), name]
    if (t.at? p).isSome then t else (t.withParents p).set p (.file (Bytes.ofText (Json.write v)))
  add (add t "en.json" App.Languages.english) "de.json" App.Languages.german

/-- The code for the system; a code that is no small number is told as text. -/
def codeOf : ExitCode → UInt32
  | .number n => (n % 256).toNat.toUInt32
  | .noShare => 1

def statusOf : Except Stop Unit → UInt32
  | .ok () => 0
  | .error (.exited code) => codeOf code
  | .error (.failed _) => 1

def logged (dir : Text) (w : World) : Tree :=
  match (Log.openIn dir "CppCodeDoc.log" w.tree.absolute w.now 0).run.run w.tree with
  | (.error _, t) => t
  | (.ok f, t) => (w.log.foldl (fun (f, t) (level, message) => Log.write f false w.now level message t) (f, t)).2

/-- The current time: when a file that is made now was made. -/
def now : IO Moment := do
  let (_, path) ← IO.FS.createTempFile
  let data ← path.metadata
  IO.FS.removeFile path
  return data.modified.sec

def installed (dir : Text) : App.Installation := ⟨Path.join dir "configSetup", none⟩

/-- Runs the program in a world with the given arguments; gives how it ended and the world afterwards. -/
def run (w : World) (dir : Text) (arguments : List Text) : Except Stop Unit × World :=
  match (App.program (installed dir) dir arguments).run.run w with
  | (.error stop, w) => (.error stop, w)
  | (.ok none, w) => (.ok (), w)
  | (.ok (some options), w) =>
    let s : Window.Session := { installation := installed dir, programDir := dir, world := w }
    let (r, s) := s.run (Window.build options.config)
    (r, s.world)

end FunctionDocs.Main

open FunctionDocs in
def main (arguments : List String) : IO UInt32 := do
  let tree ← Main.readTree
  let dir : Text := "/" ++ Text.joinWith "/" tree.here
  let world : World := {
    tree := Main.addPhrases tree.here tree, now := ← Main.now, loadable := App.neededModules.map (·.module) }
  let (r, w) := Main.run world dir (arguments.map String.toList)
  Main.writeChanges world.tree (Main.logged (Path.join dir "log") w)
  IO.print (String.ofList w.printed)
  if let .error (.failed f) := r then IO.eprintln (String.ofList f.message)
  return Main.statusOf r
