import FunctionDocs.Entry
import FunctionDocs.Json.Value

/-!
# Entries as records

An entry as an object of a data file, which has a field for each thing that is known of the function.
-/

namespace FunctionDocs.Entry

def textOrNull : Option Text → Value
  | some t => .str t
  | none => .null

def toValue (e : Entry) : Value :=
  let fields : List (String × Option Value) :=
    [("name", e.name.map .str), ("return_type", e.returnType.map .str), ("params", e.params.map .str),
     ("const", e.isConst.map .bool), ("comment", e.comment.map .str), ("isDoxygenComment", e.isDoxygen.map .bool),
     ("file", e.file.map .str), ("startLine", e.startLine.map .int), ("count", e.count.map .int),
     ("isTemplate", e.isTemplate.map .bool), ("templateParams", e.templateParams.map textOrNull),
     ("doxygen", e.doxygen.map textOrNull)]
  .obj (fields.filterMap fun f => f.2.map (f.1.toList, ·))

def textIn? : Value → Option Text
  | .str t => some t
  | _ => none

/-- The text in a value; other values count as empty. -/
def textIn (v : Value) : Text := (textIn? v).getD []

/-- The number in a value; other values count as zero. -/
def numberIn : Value → Int
  | .int i => i
  | .bool b => if b then 1 else 0
  | _ => 0

def ofValue (v : Value) : Entry where
  name := (v.field? "name").map textIn
  returnType := (v.field? "return_type").map textIn
  params := (v.field? "params").map textIn
  isConst := (v.field? "const").map Value.isTrue
  comment := (v.field? "comment").map textIn
  isDoxygen := (v.field? "isDoxygenComment").map Value.isTrue
  file := (v.field? "file").map textIn
  startLine := (v.field? "startLine").map numberIn
  count := (v.field? "count").map numberIn
  isTemplate := (v.field? "isTemplate").map Value.isTrue
  templateParams := (v.field? "templateParams").map textIn?
  doxygen := (v.field? "doxygen").map textIn?

end FunctionDocs.Entry
