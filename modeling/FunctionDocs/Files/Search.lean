import FunctionDocs.Files.Tree
import FunctionDocs.Json.Value

/-!
# Source files

The source files to document: the one that was named, or all in a directory.
-/

namespace FunctionDocs

/-- The source files at a path: the file itself, or those in the directory and, if `deep`, in all directories below it. -/
def sourceFiles (t : Tree) (path : Text) (deep : Bool) : List Text :=
  if t.isFile path then (if Path.isSource path then [path] else [])
  else if t.isDir path then
    if deep then ((t.walk path).filter fun f => Path.isSource f.2).map fun f => Path.join f.1 f.2
    else
      match t.resolve path with
      | .ok p => ((t.fileNames p).filter Path.isSource).map (Path.join path)
      | .error _ => []
  else []

def sourceFilesAt (t : Tree) (place : Value) (deep : Bool) : Except Failure (List Text) :=
  match place with
  | .str path => .ok (sourceFiles t path deep)
  | .bool _ | .int _ => .ok []
  | other => .error (.notStatable other.kind)

end FunctionDocs
