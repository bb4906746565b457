import FunctionDocs.Files.Bytes
import FunctionDocs.Files.Path
import FunctionDocs.Text.Order

/-!
# Trees of files

A tree of directories and files. A place in the tree is the list of names that leads to it from the root; the root is always a
directory. A path is walked step by step from the working directory, and every step but the last must lead to a directory.
-/

namespace FunctionDocs

/-- What stands at a place of a tree. -/
inductive Node where
  | dir
  | file (bytes : List UInt8)
  deriving DecidableEq, Repr

/-- The names that lead to a place from the root. -/
abbrev Place := List Text

/-- Directories and files, with the place of each, and the working directory. -/
structure Tree where
  nodes : List (Place × Node) := []
  here : Place := []
  deriving DecidableEq, Repr

namespace Tree

def at? (t : Tree) (p : Place) : Option Node :=
  if p.isEmpty then some .dir else (t.nodes.find? (·.1 == p)).map (·.2)

def setNode (p : Place) (n : Node) : List (Place × Node) → List (Place × Node)
  | [] => [(p, n)]
  | e :: es => if e.1 == p then (p, n) :: es else e :: setNode p n es

def set (t : Tree) (p : Place) (n : Node) : Tree := { t with nodes := setNode p n t.nodes }

def erase (t : Tree) (p : Place) : Tree := { t with nodes := t.nodes.filter (·.1 != p) }

def withParents (t : Tree) (p : Place) : Tree :=
  ((List.range p.length).map p.take).foldl
    (fun t q => if q.isEmpty || (t.at? q).isSome then t else t.set q .dir) t

/-- A step from a place: the failure names the path as it was given. -/
def stepTo (t : Tree) (path : Text) (p : Place) (s : Text) : Except Failure Place :=
  match t.at? p with
  | some .dir => .ok (if s == ".." then p.dropLast else p ++ [s])
  | some (.file _) => .error (.notDirectory path)
  | none => .error (.notFound path)

/-- The place that a path leads to, whether something stands there or not. A path that ends with a slash leads to a
directory. -/
def resolve (t : Tree) (path : Text) : Except Failure Place := do
  if path.isEmpty then .error (.notFound path)
  else
    let p ← (Path.steps path).foldlM (t.stepTo path) (if Path.isAbsolute path then [] else t.here)
    if Text.endsWithAny path ["/", "/."] then
      match t.at? p with
      | some (.file _) => .error (.notDirectory path)
      | _ => return p
    else return p

def absolute (t : Tree) (path : Text) : Text := Path.normalize (Path.join ("/" ++ Text.joinWith "/" t.here) path)

def stat (t : Tree) (path : Text) : Except Failure Node := do
  match t.at? (← t.resolve path) with
  | some n => return n
  | none => .error (.notFound path)

def pathExists (t : Tree) (path : Text) : Bool := (t.stat path).isOk

def isFile (t : Tree) (path : Text) : Bool :=
  match t.stat path with
  | .ok (.file _) => true
  | _ => false

def isDir (t : Tree) (path : Text) : Bool :=
  match t.stat path with
  | .ok .dir => true
  | _ => false

def readBytes (t : Tree) (path : Text) : Except Failure (List UInt8) := do
  match ← t.stat path with
  | .file bs => return bs
  | .dir => .error (.isDirectory path)

/-- The text of a file, with unified line ends. -/
def readText (t : Tree) (path : Text) : Except Failure Text := do
  return Bytes.unifyLineEnds (← Bytes.toText (← t.readBytes path))

/-- The tree with the bytes of a file replaced or with a new file in an existing directory. -/
def writeBytes (t : Tree) (path : Text) (bs : List UInt8) : Except Failure Tree := do
  let p ← t.resolve path
  match t.at? p with
  | some .dir => .error (.isDirectory path)
  | some (.file _) => return t.set p (.file bs)
  | none =>
    if Text.endsWith path "/" then .error (.isDirectory path)
    else
      match t.at? p.dropLast with
      | some .dir => return t.set p (.file bs)
      | some (.file _) => .error (.notDirectory path)
      | none => .error (.notFound path)

def writeText (t : Tree) (path text : Text) : Except Failure Tree := t.writeBytes path (Bytes.ofText text)

def makeDir (t : Tree) (path : Text) : Except Failure Tree := do
  if path.isEmpty then .error (.notFound path)
  else
    let p ← (Path.steps path).foldlM (t.stepTo path) (if Path.isAbsolute path then [] else t.here)
    match t.at? p with
    | some _ => .error (.alreadyExists path)
    | none =>
      match t.at? p.dropLast with
      | some .dir => return t.set p .dir
      | some (.file _) => .error (.notDirectory path)
      | none => .error (.notFound path)

/-- The path that leads to the last part of a path and that part, where slashes at the end do not count. -/
def headAndTail (path : Text) : Text × Text :=
  if (Path.base path).isEmpty then
    let head := Path.directory path
    (Path.directory head, Path.base head)
  else (Path.directory path, Path.base path)

def makeDirs : Nat → Text → Tree → Except Failure Tree
  | 0, path, t => t.makeDir path
  | fuel + 1, path, t => do
    let (head, tail) := headAndTail path
    if !head.isEmpty && !tail.isEmpty && !t.pathExists head then
      let t ← match makeDirs fuel head t with
        | .ok t => pure t
        | .error (.alreadyExists _) => pure t
        | .error f => .error f
      if tail == "." then return t else t.makeDir path
    else t.makeDir path

/-- The tree with a directory at the path, if nothing stood there. -/
def ensureDirs (t : Tree) (path : Text) : Except Failure Tree :=
  if t.pathExists path then .ok t else makeDirs path.length path t

def copyFile (t : Tree) (source target : Text) : Except Failure Tree := do
  let same :=
    match t.resolve source, t.resolve target with
    | .ok a, .ok b => a == b && (t.at? a).isSome
    | _, _ => false
  if same then .error (.sameFile source target)
  else t.writeBytes target (← t.readBytes source)

def removeFile (t : Tree) (path : Text) : Except Failure Tree := do
  let p ← t.resolve path
  match t.at? p with
  | some (.file _) => return t.erase p
  | some .dir => .error (.isDirectory path)
  | none => .error (.notFound path)

def moveFile (t : Tree) (source target : Text) : Except Failure Tree := do
  let bs ← t.readBytes source
  (← t.removeFile source).writeBytes target bs

/-- The tree with bytes added to the end of a file, which is made if it does not exist. -/
def appendBytes (t : Tree) (path : Text) (bs : List UInt8) : Except Failure Tree :=
  match t.readBytes path with
  | .ok old => t.writeBytes path (old ++ bs)
  | .error (.notFound _) => t.writeBytes path bs
  | .error f => .error f

def names (t : Tree) (p : Place) : List Text :=
  Text.sort (t.nodes.filterMap fun (q, _) =>
    if q.length == p.length + 1 && p.isPrefixOf q then q.getLast? else none)

def fileNames (t : Tree) (p : Place) : List Text :=
  (t.names p).filter fun n => (t.at? (p ++ [n])) != some .dir

def dirNames (t : Tree) (p : Place) : List Text :=
  (t.names p).filter fun n => (t.at? (p ++ [n])) == some .dir

/-- The files below a directory, each with the path of its directory, top down: first the files of a directory, then what its
directories hold. -/
def walkFrom (t : Tree) : Nat → Text → Place → List (Text × Text)
  | 0, _, _ => []
  | fuel + 1, path, p =>
    (t.fileNames p).map (path, ·) ++
      (t.dirNames p).flatMap fun d => walkFrom t fuel (Path.join path d) (p ++ [d])

def walk (t : Tree) (path : Text) : List (Text × Text) :=
  match t.resolve path with
  | .ok p => t.walkFrom (t.nodes.length + 1) path p
  | .error _ => []

end Tree

end FunctionDocs
