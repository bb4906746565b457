import FunctionDocs.Source.Block
import FunctionDocs.Source.Head
import FunctionDocs.Source.Joined
import FunctionDocs.Source.Template

/-!
# Functions of a source text

The functions that a source text defines, in the order of their lines. Each comes with the comment above it, the line its
definition starts on, and a count that tells apart definitions with one name and one parameter list.
-/

namespace FunctionDocs.Source

/-- A function found in a source text. -/
structure Function where
  name : Text
  returnType : Text
  params : Text
  isConst : Bool
  comment : Text
  isDoxygen : Bool
  file : Text
  startLine : Nat
  count : Nat
  isTemplate : Bool
  templateParams : Option Text
  deriving DecidableEq, Repr

/-- The template head seen last: none, or one whose parameter list is known or not. -/
abbrev PendingTemplate := Option (Option Text)

/-- Reads a template head at the start of a masked line: the template now pending and the line without the head. -/
def readTemplate (m : Masked) (pending : PendingTemplate) : PendingTemplate × Text :=
  if Text.startsWith m.text "template" then
    match templateHead.match? (Text.trim m.text) with
    | some found => (some (some (m.restore (Text.trim (found.part "params")))), templateHeadInside.erase m.text)
    | none => (some none, m.text)
  else (pending, m.text)

def headText (line : Text) : Text := Text.trimRight (beforeSlashes (dropInline line))

/-- A body follows, as far as the lines after the head can tell: the first line that is neither blank nor a comment opens with
a brace, or there is no such line. -/
def bodyFollows : List Joined → Bool
  | [] => true
  | j :: js =>
    let next := Text.trim (dropInline j.text)
    if Text.startsWith next ['{'] then true
    else if next.isEmpty || Text.startsWith next "//" || Text.startsWith next "/*" then bodyFollows js
    else false

/-- The head on a line, if any: constructors first. A head with a return type and no brace on its line needs a body below. -/
def readHead (line : Text) (below : List Joined) : Except Failure (Option Head) :=
  match constructorHead? line with
  | some h => .ok (some h)
  | none =>
    match functionHead? line with
    | none => .ok none
    | some h =>
      if Text.endsWith (Text.trim line) ['{'] || bodyFollows below then .ok (some h)
      else .error .danglingHead

def isDoxygenComment (comment : Text) : Bool :=
  Text.startsWith comment "/**" || Text.contains comment "@brief"

def countSame (name params : Text) (fs : List Function) : Nat :=
  fs.countP fun f => f.name == name && f.params == params

/-- The lines of a text and its block comments, and the file they are reported for. -/
structure Sheet where
  file : Text
  lines : List Text
  blocks : List Block

/-- The function with a head found on a joined line, after the functions found before. -/
def Sheet.function (s : Sheet) (before : List Function) (m : Masked) (template : PendingTemplate) (j : Joined)
    (h : Head) : Except Failure Function := do
  let comment ← commentAbove s.lines j.first s.blocks
  let params := m.restore h.params
  return {
    name := h.name
    returnType := m.restore h.returnType
    params
    isConst := h.isConst
    comment
    isDoxygen := isDoxygenComment comment
    file := s.file
    startLine := j.first
    count := countSame h.name params before + 1
    isTemplate := template.isSome
    templateParams := template.join }

/-- The functions on the joined lines from line `i` on, after the functions found before; lines of `hidden` blocks are passed
over. -/
def Sheet.functionsFrom (s : Sheet) (hidden : List Block) (i : Nat) (template : PendingTemplate)
    (before : List Function) : List Joined → Except Failure (List Function)
  | [] => .ok before
  | j :: below => do
    if inBlocks i hidden then s.functionsFrom hidden (i + 1) template before below
    else
      let m := mask j.text
      let (template, line) := readTemplate m template
      if isControl line then s.functionsFrom hidden (i + 1) template before below
      else
        match ← readHead (headText line) below with
        | none => s.functionsFrom hidden (i + 1) template before below
        | some h =>
          let f ← s.function before m template j h
          s.functionsFrom hidden (i + 1) none (before ++ [f]) below

def functionsOf (content file : Text) : Except Failure (List Function) :=
  let ls := content.lines
  let bs := blocks ls
  let joined := joinLines ls
  let onJoined := blocksOnJoined ls.length (joined.map fun j => (j.first : Int)) bs
  let hidden := onJoined.filter fun b => b.first != b.last
  (⟨file, ls, bs⟩ : Sheet).functionsFrom hidden 0 none [] joined

end FunctionDocs.Source
