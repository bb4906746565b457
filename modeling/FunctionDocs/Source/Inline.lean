import FunctionDocs.Pattern

/-!
# Comments within a line

A comment within a line begins with `/*` and ends with the next `*/` on the same line. Several operations look at a line
without these comments.
-/

namespace FunctionDocs.Source

/-- The number of characters up to and with the next `*/`, if no line feed stands before it. -/
def closeLength : Text → Option Nat
  | [] => none
  | '*' :: '/' :: _ => some 2
  | c :: r => if c == '\n' then none else (closeLength r).map (· + 1)

def inlineLength : Text → Option Nat
  | '/' :: '*' :: r => (closeLength r).map (· + 2)
  | _ => none

/-- The text without inline comments, where `skip` more characters belong to the comment under way. -/
def dropInlineAfter : Nat → Text → Text
  | _, [] => []
  | skip + 1, _ :: r => dropInlineAfter skip r
  | 0, c :: r =>
    match inlineLength (c :: r) with
    | some n => dropInlineAfter (n - 1) r
    | none => c :: dropInlineAfter 0 r

def dropInline (t : Text) : Text := dropInlineAfter 0 t

/-- An inline comment, as a pattern. -/
def inlineComment : Pattern :=
  .all [.lit "/*", .few (· != '\n') 0, .lit "*/"]

/-- The text before the first `//`. -/
def beforeSlashes : Text → Text
  | [] => []
  | '/' :: '/' :: _ => []
  | c :: r => c :: beforeSlashes r

end FunctionDocs.Source
