import FunctionDocs.Source.Function

/-!
# Entries

What is known of a function while it is documented. An entry made from a function of a source text has all fields of that
function; the documentation comes later. An entry from elsewhere may lack any field, and a step that needs a
field it lacks fails.
-/

namespace FunctionDocs

/-- What is known of a function. -/
structure Entry where
  name : Option Text := none
  returnType : Option Text := none
  params : Option Text := none
  isConst : Option Bool := none
  comment : Option Text := none
  isDoxygen : Option Bool := none
  file : Option Text := none
  startLine : Option Int := none
  count : Option Int := none
  isTemplate : Option Bool := none
  /-- The template parameters, where the inner option tells an unknown list. -/
  templateParams : Option (Option Text) := none
  /-- The documentation, where the inner option tells an empty place for one. -/
  doxygen : Option (Option Text) := none
  deriving DecidableEq, Repr

def Entry.ofFunction (f : Source.Function) : Entry where
  name := some f.name
  returnType := some f.returnType
  params := some f.params
  isConst := some f.isConst
  comment := some f.comment
  isDoxygen := some f.isDoxygen
  file := some f.file
  startLine := some f.startLine
  count := some f.count
  isTemplate := some f.isTemplate
  templateParams := some f.templateParams

def require {α : Type} (key : Text) : Option α → Except Failure α
  | some a => .ok a
  | none => .error (.missingKey key)

namespace Entry

def name! (e : Entry) : Except Failure Text := require "name" e.name

def returnType! (e : Entry) : Except Failure Text := require "return_type" e.returnType

def params! (e : Entry) : Except Failure Text := require "params" e.params

def count! (e : Entry) : Except Failure Int := require "count" e.count

def file! (e : Entry) : Except Failure Text := require "file" e.file

def startLine! (e : Entry) : Except Failure Int := require "startLine" e.startLine

/-- The documentation as it is searched: empty if there is none yet, and a failure if its place is empty. -/
def doxygenText (e : Entry) (failure : Failure) : Except Failure Text :=
  match e.doxygen with
  | none => .ok []
  | some none => .error failure
  | some (some t) => .ok t

end Entry

end FunctionDocs
