import FunctionDocs.Failure
import FunctionDocs.Position
import FunctionDocs.Source.Literal
import FunctionDocs.Source.Signature
import FunctionDocs.Text.Case

/-!
# Finding a definition

Where a definition with a given name and parameter list starts, and where the function that starts on a line ends. The search
reads line by line, passes over comments, and collects the lines of a declaration until its opening brace.
-/

namespace FunctionDocs.Source

/-- Where a definition was seen. -/
inductive Sighting where
  /-- It starts on this line. -/
  | line (index : Nat)
  /-- There is no such definition. -/
  | nowhere
  /-- It was counted after its line had been given up. -/
  | unplaced
  deriving DecidableEq, Repr

/-- The line as a number, `-1` for none; an unplaced definition has no number. -/
def Sighting.index? : Sighting → Option Int
  | .line i => some i
  | .nowhere => some (-1)
  | .unplaced => none

/-- What is looked for: a name, its parameters in normal form, and which of the matching definitions. -/
structure Wanted where
  name : Text
  params : Option Text
  occurrence : Int

def isNameHere (name t : Text) : Bool :=
  name.isPrefixOf t && ((t.drop name.length).dropWhile isBlank).head? == some '('

def mentions (name : Text) : Text → Bool
  | [] => isNameHere name []
  | c :: r => isNameHere name (c :: r) || mentions name r

def isLeadChar (c : Char) : Bool :=
  isWordChar c || isBlank c || List.elem c (":<>[],*&" : Text)

/-- The name with an opening parenthesis stands after characters of a type only. -/
def looksDefined (name : Text) : Text → Bool
  | [] => isNameHere name []
  | c :: r => isNameHere name (c :: r) || (isLeadChar c && looksDefined name r)

def isInLine (c : Char) : Bool := c != '\n'

/-- The name without parameters and with a closed body that a semicolon ends, all on one line. -/
def closedDefinition (name : Text) : Pattern :=
  .all [.blanks, .lit name, .blanks, .lit "(", .blanks, .lit ")", .blanks, .lit ['{'], .many isInLine 0, .lit ['}'],
    .blanks, .lit ";"]

def callStatement (name : Text) : Pattern :=
  .all [.many isInLine 0, .edge, .lit name, .edge, .blanks, .lit "(", .many isInLine 0, .lit ")", .blanks, .lit ";"]

/-- Two parameter lists, the wanted one normalised once already, are the same up to letter case. -/
def sameParams (wanted actual : Text) : Bool :=
  Text.toLower (normalizeSignature actual) == Text.toLower (normalizeSignature wanted)

/-- The state of the search: a block comment is open, a declaration is being collected, and so many matches were seen. -/
structure Search where
  inComment : Bool
  pending : Option (Nat × Text)
  seen : Int

/-- A match was seen; it is the wanted one, or the search goes on without a declaration. -/
def Search.count (s : Search) (w : Wanted) (place : Sighting) : Search ⊕ Sighting :=
  if s.seen + 1 = w.occurrence then .inr place
  else .inl { s with pending := none, seen := s.seen + 1 }

def Search.tryClosed (s : Search) (w : Wanted) (i : Nat) (bare : Text) : Search ⊕ Sighting :=
  if (closedDefinition w.name).matchesAt bare then
    if w.params.all (sameParams · (paramSignature bare)) then s.count w (.line i) else .inl s
  else .inl s

/-- The declaration under way is compared at its opening brace; `free` parameters match any. -/
def Search.tryOpen (s : Search) (w : Wanted) (free : Text → Bool) : Search ⊕ Sighting :=
  let buffer := (s.pending.map (·.2)).getD []
  if w.params.all (fun p => free p || sameParams p (paramSignature buffer)) then
    s.count w (match s.pending with | some (i, _) => .line i | none => .unplaced)
  else .inl { s with pending := none }

def Search.beginOn (s : Search) (w : Wanted) (i : Nat) (bare : Text) : Search ⊕ Sighting :=
  if mentions w.name bare && looksDefined w.name bare && !(callStatement w.name).matchesAt bare then
    match ({ s with pending := some (i, bare) } : Search).tryClosed w i bare with
    | .inr found => .inr found
    | .inl s => if List.elem '{' bare then s.tryOpen w (fun _ => false) else .inl s
  else .inl s

/-- One line of the search: it is part of a comment, begins a declaration or continues one. -/
def Search.step (s : Search) (w : Wanted) (i : Nat) (line : Text) : Search ⊕ Sighting :=
  let bare := Text.trim line
  if Text.startsWith bare "/*" then
    .inl (if Text.contains bare "*/" then s else { s with inComment := true })
  else if s.inComment then
    .inl (if Text.contains bare "*/" then { s with inComment := false } else s)
  else if Text.startsWith bare "//" then .inl s
  else
    match s.pending with
    | none => s.beginOn w i bare
    | some (start, buffer) =>
      let s := { s with pending := some (start, buffer ++ " " ++ bare) }
      if List.elem '{' bare then s.tryOpen w List.isEmpty else .inl s

/-- The search over the lines from line `i` on. -/
def Search.over (w : Wanted) (i : Nat) (s : Search) : List Text → Sighting
  | [] => .nowhere
  | l :: ls =>
    match s.step w i l with
    | .inr found => found
    | .inl s => Search.over w (i + 1) s ls

/-- Where the definition with a name, a parameter list (any, if none is given) and a number starts in a text. -/
def locate (content name : Text) (params : Option Text) (occurrence : Int) : Sighting :=
  Search.over ⟨name, params.map normalizeSignature, occurrence⟩ 0 ⟨false, none, 0⟩ content.lines

def braceBalance (t : Text) : Int := Int.ofNat (t.count '{') - Int.ofNat (t.count '}')

/-- The first of the positions on whose line a closing brace stands and after which all braces are closed. -/
def endFrom (code : List Text) (depth : Int) : List Int → Except Failure (Option Int)
  | [] => .ok none
  | i :: is =>
    match itemAt? code i with
    | none => .error .noSuchItem
    | some l =>
      let depth := depth + braceBalance l
      if depth = 0 && List.elem '}' l then .ok (some i) else endFrom code depth is

def endLine (ls : List Text) (start : Int) : Except Failure (Option Int) :=
  endFrom (codeLines ls) 0 (integersFrom start ls.length)

end FunctionDocs.Source
