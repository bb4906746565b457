import FunctionDocs.Pattern

/-!
# Parameters

The parameters of a list, split at the commas outside all brackets, and the name of each. A pointer to a function carries its
name within its own parentheses, together with the parameters it takes.
-/

namespace FunctionDocs.DocBlock

/-- The open brackets of the three kinds; a closing bracket without an opening one counts as less than none. -/
structure Depths where
  angle : Int := 0
  round : Int := 0
  square : Int := 0
  deriving DecidableEq, Repr

def Depths.step (d : Depths) (c : Char) : Depths :=
  if c == '<' then { d with angle := d.angle + 1 }
  else if c == '>' then { d with angle := d.angle - 1 }
  else if c == '(' then { d with round := d.round + 1 }
  else if c == ')' then { d with round := d.round - 1 }
  else if c == '[' then { d with square := d.square + 1 }
  else if c == ']' then { d with square := d.square - 1 }
  else d

def Depths.isFlat (d : Depths) : Bool := d.angle == 0 && d.round == 0 && d.square == 0

/-- The parameters from here on, where `current` is the one under way, reversed. -/
def splitParamsFrom (d : Depths) (current : Text) : Text → List Text
  | [] =>
    let last := Text.trim current.reverse
    if last.isEmpty then [] else [last]
  | c :: r =>
    if c == ',' && d.isFlat then Text.trim current.reverse :: splitParamsFrom d [] r
    else splitParamsFrom (d.step c) (c :: current) r

def splitParams (t : Text) : List Text := splitParamsFrom {} [] t

/-- A pointer to a function: its name and the parameters it takes. -/
def functionPointer : Pattern :=
  .all [.few (· != '\n') 0, .lit "(*", .blanks, .named "name" (.many isWordChar 1), .blanks, .lit ")", .blanks,
    .lit "(", .named "params" (.few (· != '\n') 0), .lit ")"]

def functionPointer? (t : Text) : Option (Text × Text) :=
  (functionPointer.match? t).map fun m => (m.part "name", m.part "params")

/-- The text before the first `=`, trimmed, and the text after it, if there is one. -/
def splitDefault (p : Text) : Text × Option Text :=
  match Text.cutFirst "=" p with
  | some (before, after) => (Text.trim before, some (Text.trim after))
  | none => (Text.trim p, none)

def paramToken : Pattern :=
  .firstOf [.many (fun c => isWordChar c || c == ':') 1, .many (· == '*') 1, .many (· == '&') 1]

/-- A name: it begins with a letter of ASCII or an underscore and holds word characters only. -/
def isIdentifier : Text → Bool
  | [] => false
  | c :: r => (isAsciiLetter c || c == '_') && r.all isWordChar

def paramName (p : Text) : Text :=
  let bare := (splitDefault p).1
  match functionPointer? bare with
  | some (name, _) => name
  | none =>
    let tokens := (paramToken.findAll bare).1.map fun (_, m) => m.text
    (tokens.reverse.find? isIdentifier).getD []

def defaultHint : Text := " – default value if not overloaded: "

def pointerHint : Text := " (internal function parameter: "

/-- A hint at a default value with its text, up to the next opening parenthesis. -/
def defaultHintPattern : Pattern := .seq (.lit defaultHint) (.many (· != '(') 1)

def pointerHintPattern : Pattern := .all [.lit pointerHint, .many (· != ')') 1, .lit ")"]

/-- The text without hints, and without white space at its end. -/
def dropHints (t : Text) : Text := Text.trimRight (pointerHintPattern.erase (defaultHintPattern.erase t))

end FunctionDocs.DocBlock
