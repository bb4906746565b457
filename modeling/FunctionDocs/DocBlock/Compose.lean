import FunctionDocs.DocBlock.Params
import FunctionDocs.DocBlock.Tags
import FunctionDocs.Entry

/-!
# Composing a comment

The Doxygen comment of a function, composed from its signature and from what its present comment says. What the comment does
not say is marked as open by the word TODO.
-/

namespace FunctionDocs.DocBlock

/-- The line of a comment without the stars at its start and one blank after them. -/
def dropStars (line : Text) : Text :=
  let rest := line.dropWhile (· == '*')
  if rest.length < line.length && rest.head?.any isBlank then rest.drop 1 else rest

/-- The parts of a Doxygen comment: all lines but the first and the last, without their stars. -/
def partsOfDoxygen (comment : Text) : Texts :=
  (Parts.ofLines ((comment.lines.drop 1).dropLast.map fun l => dropStars (Text.trim l))).texts

def isFrame (c : Char) : Bool := c == '/' || c == '*' || c == '-' || isBlank c

def plainLines (comment : Text) : List Text :=
  (comment.lines.map fun l => (Text.trim l).dropWhile isFrame).filter (!·.isEmpty)

def todo : Text := "TODO"

def todoDescription (name : Text) : Text := "TODO " ++ name ++ " description."

/-- What the present comment says: the description, and the other parts if it is a Doxygen comment. -/
def described (e : Entry) (comment : Text) (isDoxygen : Bool) : Except Failure Texts := do
  let nothing : Texts := ⟨[], [], [], [], [], []⟩
  let said :=
    if comment.isEmpty then nothing
    else if isDoxygen then partsOfDoxygen comment
    else { nothing with brief := Text.joinWith "\n * " (plainLines comment) }
  if said.brief.isEmpty then return { said with brief := todoDescription (← e.name!) }
  else return said

/-- The line of one parameter, if it is to be documented: the comment's description or an open place, and hints at its default
value and at the parameters of a function pointer. -/
def paramLine? (docs : List (Text × Text)) (p : Text) : Option Text :=
  let name := paramName p
  if name == "void" then none
  else
    let (bare, default) := splitDefault p
    let text := ((docs.find? (·.1 == name)).map (·.2)).getD todo
    let line := dropHints (" * @param " ++ name ++ " " ++ text)
    let line :=
      match default with
      | some d => if d.isEmpty then line else line ++ defaultHint ++ d
      | none => line
    match functionPointer? bare with
    | some (_, inner) => if inner.isEmpty then some line else some (line ++ pointerHint ++ inner ++ ")")
    | none => some line

def paramLines (docs : List (Text × Text)) (params : Text) : List Text :=
  ((splitParams params).filter (!·.isEmpty)).filterMap (paramLine? docs)

def dropBrackets (t : Text) : Text :=
  if Text.startsWith t "<" && Text.endsWith t ">" then Text.trim (t.drop 1).dropLast else t

def lastWord (t : Text) : Text := (Text.words t).getLast?.getD []

/-- The names of the template parameters, each as an open place. -/
def openTparams (t : Text) : List (Text × Text) :=
  (((splitParams (dropBrackets t)).filter (!·.isEmpty)).foldl
    (fun ns p => setLines (lastWord p) [todo] ns) []).map fun n => (n.1, todo)

/-- The template parameters to document: those of the comment, or else those of the function. -/
def tparamsOf (e : Entry) (docs : List (Text × Text)) : List (Text × Text) :=
  if !docs.isEmpty then docs
  else if e.isTemplate == some true then
    match e.templateParams.join with
    | some t => openTparams t
    | none => []
  else []

def tparamLine (n : Text × Text) : Text :=
  let text := Text.trim n.2
  dropHints (" * @tparam " ++ n.1 ++ " " ++ (if text.isEmpty then todo else text))

/-- Lines below the first, each on a line of its own. -/
def below (ls : List Text) : Text := ls.flatMap ('\n' :: ·)

/-- The line of the result; a function that returns nothing has none. -/
def resultText (returnType doc : Text) : Text :=
  if Text.contains returnType "void" || returnType.isEmpty then []
  else "\n * @return " ++ (if doc.isEmpty then todo else doc)

def notesText (notes : Text) : Text :=
  let text := Text.trim notes
  if text.isEmpty then [] else "\n * @note " ++ text

def otherLines (n : Text × List Text) : List Text :=
  match n.2 with
  | [] => []
  | l :: ls => (" * @" ++ n.1 ++ " " ++ Text.trim l) :: ls.map fun l => margin ++ Text.trim l

def compose (e : Entry) : Except Failure Text := do
  let comment := Text.trim (e.comment.getD [])
  let isDoxygen ← require "isDoxygenComment" e.isDoxygen
  let said ← described e comment isDoxygen
  let params ← e.params!
  let returnType ← e.returnType!
  return "/**\n * @brief " ++ said.brief ++ below ((tparamsOf e said.tparams).map tparamLine) ++
    below (paramLines said.params params) ++ resultText returnType said.result ++ notesText said.notes ++
    below (said.others.flatMap otherLines) ++ "\n */"

def document (e : Entry) : Except Failure Entry := do
  return { e with doxygen := some (some (← compose e)) }

end FunctionDocs.DocBlock
