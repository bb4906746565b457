import FunctionDocs.Source.Inline

/-!
# Joined lines

A declaration that runs over several lines is joined into one, and a line that holds several definitions, or a definition with
its body, is split. Every resulting line knows the first and the last of the lines it came from.
-/

namespace FunctionDocs.Source

/-- A line of joined text and the lines it came from. -/
structure Joined where
  text : Text
  first : Nat
  last : Nat
  deriving DecidableEq, Repr

/-- A declaration that may go on: its text so far, its open parentheses and the lines it came from. -/
structure OpenLine where
  text : Text
  depth : Int
  first : Nat
  last : Nat

def OpenLine.close (o : OpenLine) : Joined := ⟨o.text, o.first, o.last⟩

def parenBalance (t : Text) : Int := Int.ofNat (t.count '(') - Int.ofNat (t.count ')')

/-- A trimmed line that is never joined: blank, a comment line or an access label. -/
def standsAlone (raw : Text) : Bool :=
  raw.isEmpty || Text.startsWithAny raw ["//", "/*", "*"] ||
    raw == "public:" || raw == "private:" || raw == "protected:"

def isWholeDefinition (raw : Text) : Bool :=
  List.elem '(' raw && List.elem '{' raw && Text.endsWith raw ['}']

def mayGoOn (raw : Text) : Bool :=
  List.elem '(' raw && !Text.endsWith raw ";" && !Text.startsWith raw "#"

/-- A fresh line is finished as it is, or opens a declaration that wants more lines. -/
def beginLine (i : Nat) (line : Text) : Joined ⊕ OpenLine :=
  let raw := Text.trim line
  if standsAlone raw || isWholeDefinition raw then .inl ⟨line, i, i⟩
  else if mayGoOn raw then
    if 0 < parenBalance raw || !Text.endsWith raw ['{'] then .inr ⟨raw, parenBalance raw, i, i⟩
    else .inl ⟨raw, i, i⟩
  else .inl ⟨line, i, i⟩

/-- The text before the first comment mark, without trailing white space; all of the text if there is no mark. -/
def beforeComment (t : Text) : Text :=
  let mark := Pattern.firstOf [.lit "//", .lit "/*"]
  match mark.search? t with
  | some m => Text.trimRight m.before
  | none => t

/-- The open declaration with one more line, unless a blank line, a comment or a directive ends it. -/
def OpenLine.absorb? (o : OpenLine) (i : Nat) (line : Text) : Option OpenLine :=
  let next := Text.trim line
  if next.isEmpty || Text.startsWithAny next ["//", "/*", "*", "#"] then none
  else
    let text := if Text.startsWith next ['{'] then beforeComment o.text else o.text
    some ⟨text ++ " " ++ next, o.depth + parenBalance next, o.first, i⟩

def OpenLine.isComplete (o : OpenLine) : Bool :=
  Text.endsWithAny (Text.trimRight o.text) [['{'], ";"]

/-- Joins the lines from line `i` on, with a declaration that may be open. -/
def joinFrom (i : Nat) (pending : Option OpenLine) : List Text → List Joined
  | [] => (pending.map OpenLine.close).toList
  | l :: ls =>
    match pending.bind (·.absorb? i l) with
    | some o =>
      if o.isComplete then o.close :: joinFrom (i + 1) none ls else joinFrom (i + 1) (some o) ls
    | none =>
      (pending.map OpenLine.close).toList ++
        match beginLine i l with
        | .inl done => done :: joinFrom (i + 1) none ls
        | .inr o => joinFrom (i + 1) (some o) ls

def isNameChar (c : Char) : Bool := isWordChar c || c == ':' || c == '~'

def definitionBreak : Pattern :=
  .all [.lit ['}'], .blanks,
    .ahead (.all [.repeated (.seq inlineComment .blanks),
      .many isNameChar 1, .blanks1, .many isNameChar 1, .blanks, .lit "("])]

def closePieces : List Text → List Text
  | [] => []
  | [p] => [p]
  | p :: ps => (p ++ ['}']) :: closePieces ps

/-- The definitions on one line, each on a line of its own, without inline comments and blank pieces. -/
def Joined.splitDefinitions (j : Joined) : List Joined :=
  let pieces := closePieces (definitionBreak.split (Text.trim (dropInline j.text)))
  ((pieces.map Text.trim).filter (!·.isEmpty)).map fun p => { j with text := p }

/-- The head and the body of a definition on one line: the text before the first opening brace, and the text between it and
the closing brace that ends the line. -/
def headAndBody? (t : Text) : Option (Text × Text) :=
  let clean := Text.trim (dropInline t)
  if clean.count '{' == 1 && clean.count '}' == 1 then
    match Text.cutFirst ['{'] t with
    | some (head, tail) =>
      let tail := Text.trim tail
      if Text.endsWith tail ['}'] then
        let body := Text.trim tail.dropLast
        if body.isEmpty || Text.contains body "return" || Text.contains body ";" then
          some (Text.trim head, body)
        else none
      else none
    | none => none
  else none

def Joined.splitBody (j : Joined) : List Joined :=
  match headAndBody? j.text with
  | some (head, body) => [{ j with text := head ++ [' ', '{'] }, { j with text := body ++ [' ', '}'] }]
  | none => [j]

def joinLines (ls : List Text) : List Joined :=
  ((joinFrom 0 none ls).flatMap Joined.splitDefinitions).flatMap Joined.splitBody

end FunctionDocs.Source
