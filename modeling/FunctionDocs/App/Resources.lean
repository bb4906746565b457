import FunctionDocs.Failure
import FunctionDocs.Files.Path
import FunctionDocs.Json.Value

/-!
# Resources

Where the files that come with the program are found: next to the program's own modules, or in the bundle that it was unpacked
from, where they have places of their own.
-/

namespace FunctionDocs.App

/-- Where the program is installed. -/
structure Installation where
  /-- The directory that resource paths start from. -/
  home : Text
  /-- The directory of the bundle, if the program runs from one. -/
  bundle : Option Text

/-- The path of a resource, given its place next to the modules and its place in a bundle. -/
def Installation.resource (i : Installation) (place : Text) (bundled : Option Text) : Text :=
  match i.bundle with
  | some dir =>
    let target := match bundled with
      | some b => if b.isEmpty then place else b
      | none => place
    Path.normalize (Path.join dir target)
  | none => Path.normalize (Path.join i.home place)

def Installation.resourceAt (i : Installation) (place : Value) (bundled : Text) : Except Failure Text :=
  match place with
  | .str p => .ok (i.resource p (some bundled))
  | other =>
    match i.bundle with
    | some _ => .ok (i.resource [] (some bundled))
    | none => .error (.notJoinable other.kind)

end FunctionDocs.App
