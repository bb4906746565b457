import FunctionDocs.Source.Locate

/-!
# Post comments

A comment after the closing brace of a function that tells its name. A `//` comment that stands there becomes a block comment
on the same line, and a block comment stays as it is.
-/

namespace FunctionDocs.Header

open Source (isInLine endLine)

def insideBlock (ls : List Text) (i : Int) : Bool :=
  let upTo := Text.unlines (itemsBefore ls (i + 1))
  Text.occurrences upTo "*/" < Text.occurrences upTo "/*"

/-- A line with a `//` comment. -/
def slashComment : Pattern :=
  .all [.named "code" (.few isInLine 0), .lit "//", .blanks, .named "text" (.many isInLine 0), .finish]

def closedComment : Pattern := .all [.lit "/*", .many isInLine 0, .lit "*/"]

/-- The line that ends a function, with a comment that tells its name. -/
def postLine (name line : Text) : Text :=
  match slashComment.match? line with
  | some m => Text.trimRight (m.part "code") ++ " /* " ++ Text.trim (m.part "text") ++ " */"
  | none => if closedComment.occursIn line then line else line ++ " /* " ++ name ++ "() */"

def addPost (ls : List Text) (name : Text) (start : Int) : Except Failure (List Text) := do
  match ← endLine ls start with
  | none => return ls
  | some last =>
    let line ← match itemAt? ls last with
      | some l => pure l
      | none => .error .noSuchItem
    if insideBlock ls last then return ls
    let bare := Text.trimRight line
    let new := postLine name bare
    return if new = bare then ls else putAt ls last new

end FunctionDocs.Header
