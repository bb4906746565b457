import FunctionDocs.Text.Basic

/-!
# Tags of a comment

Reads the lines of a Doxygen comment into its parts. A line with a tag begins a part, and the lines after it continue the part
until the next tag. A parameter that is named again starts afresh and keeps its place.
-/

namespace FunctionDocs.DocBlock

/-- Named texts, each of several lines, in the order of first mention. -/
abbrev Notes := List (Text × List Text)

/-- The notes with the lines of a name set; a new name comes last. -/
def setLines (name : Text) (ls : List Text) : Notes → Notes
  | [] => [(name, ls)]
  | n :: ns => if n.1 == name then (name, ls) :: ns else n :: setLines name ls ns

def addLine (name line : Text) : Notes → Notes
  | [] => [(name, [line])]
  | n :: ns => if n.1 == name then (name, n.2 ++ [line]) :: ns else n :: addLine name line ns

/-- The part that lines without a tag belong to. -/
inductive Part where
  | none
  | brief
  | param (name : Text)
  | tparam (name : Text)
  | result
  | note
  | other (tag : Text)
  deriving DecidableEq, Repr

/-- The parts of a comment, as lines. -/
structure Parts where
  brief : List Text := []
  params : Notes := []
  tparams : Notes := []
  result : List Text := []
  notes : List (List Text) := []
  others : Notes := []
  deriving DecidableEq, Repr

def addToLast (line : Text) : List (List Text) → List (List Text)
  | [] => []
  | [n] => [n ++ [line]]
  | n :: ns => n :: addToLast line ns

def Parts.continueWith (p : Parts) (part : Part) (line : Text) : Parts :=
  match part with
  | .none => p
  | .brief => { p with brief := p.brief ++ [line] }
  | .param name => { p with params := addLine name line p.params }
  | .tparam name => { p with tparams := addLine name line p.tparams }
  | .result => { p with result := p.result ++ [line] }
  | .note => { p with notes := addToLast line p.notes }
  | .other tag => { p with others := addLine tag line p.others }

def firstLine (t : Text) : Text := t.takeWhile (· != '\n')

/-- A name, with a leading sign if it is one of `signs`, after white space, and the text that follows it. -/
def nameAndText? (signs : List Char) (rest : Text) : Option (Text × Text) :=
  if !rest.head?.any isBlank then none
  else
    let body := rest.dropWhile isBlank
    let sign := (body.take 1).filter signs.contains
    let word := (body.drop sign.length).takeWhile isWordChar
    if word.isEmpty then none
    else
      let after := (body.drop sign.length).dropWhile isWordChar
      some (sign ++ word, firstLine (after.dropWhile isBlank))

def ownLines (text : Text) : List Text := if text.isEmpty then [] else [Text.trim text]

/-- The text with the first `@returns` written as `@return`. -/
def returnsAsReturn (line : Text) : Text :=
  match Text.cutFirst "@returns" line with
  | some (before, after) => before ++ "@return" ++ after
  | none => line

/-- One trimmed line: the parts with it and the part that the next lines continue. -/
def Parts.read (p : Parts) (part : Part) (line : Text) : Parts × Part :=
  if Text.startsWith line "@brief" then
    ({ p with brief := p.brief ++ [Text.trim (line.drop 6)] }, .brief)
  else if Text.startsWith line "@param" then
    match nameAndText? ['*', '&'] (line.drop 6) with
    | some (name, text) => ({ p with params := setLines name (ownLines text) p.params }, .param name)
    | none => (p, .none)
  else if Text.startsWith line "@tparam" then
    match nameAndText? [] (line.drop 7) with
    | some (name, text) => ({ p with tparams := setLines name (ownLines text) p.tparams }, .tparam name)
    | none => (p, .none)
  else if Text.startsWith line "@return" then
    let text := Text.trim ((returnsAsReturn line).drop 7)
    ({ p with result := p.result ++ (if text.isEmpty then [] else [text]) }, .result)
  else if Text.startsWith line "@note" then
    ({ p with notes := p.notes ++ [ownLines (Text.trim (line.drop 5))] }, .note)
  else if Text.startsWith line "@" then
    let tag := (line.drop 1).takeWhile isWordChar
    if tag.isEmpty then (p, .none)
    else
      let text := firstLine (((line.drop 1).dropWhile isWordChar).dropWhile isBlank)
      ({ p with others := addLine tag (Text.trim text) p.others }, .other tag)
  else (p.continueWith part line, part)

def Parts.ofLines (ls : List Text) : Parts :=
  (ls.foldl (fun (p, part) l => Parts.read p part (Text.trim l)) (({} : Parts), Part.none)).1

/-- Lines below the first are indented by `margin`. -/
def layOut (margin : Text) : List Text → Text
  | [] => []
  | l :: ls => Text.trim (Text.unlines (Text.trim l :: ls.map fun l => margin ++ Text.trim l))

def margin : Text := " *        "

/-- The margin of the second and later lines of a result, which is one blank wider. -/
def resultMargin : Text := " *         "

/-- The parts of a comment as they are written again. -/
structure Texts where
  brief : Text
  params : List (Text × Text)
  result : Text
  notes : Text
  tparams : List (Text × Text)
  others : Notes
  deriving DecidableEq, Repr

def Parts.texts (p : Parts) : Texts where
  brief := layOut margin p.brief
  params := p.params.map fun n => (n.1, layOut margin n.2)
  result := layOut resultMargin p.result
  notes := Text.unlines (p.notes.map (layOut margin))
  tparams := p.tparams.map fun n => (n.1, layOut margin n.2)
  others := p.others

end FunctionDocs.DocBlock
