import FunctionDocs.Text.Basic

/-!
# Lines without literals and comments

To count braces, the content of string and character literals and all comments are taken out of the lines. Literals are
emptied first, line by line and only where the line begins outside a block comment; comments are then dropped by a scan that
carries an open block comment over to the next line.
-/

namespace FunctionDocs.Source

/-- The number of characters up to and with the quote that closes a string literal. -/
def stringLength : Text → Option Nat
  | [] => none
  | '\\' :: c :: r => if c == '\n' then none else (stringLength r).map (· + 2)
  | c :: r =>
    if c == '"' then some 1
    else if c == '\\' then none
    else (stringLength r).map (· + 1)

/-- The number of characters up to and with the quote that closes a character literal. -/
def charLength : Text → Option Nat
  | '\\' :: c :: '\'' :: _ => if c == '\n' then none else some 3
  | c :: '\'' :: _ => if c == '\'' || c == '\\' then none else some 2
  | _ => none

/-- Empties the literals between `quote`s, whose remaining length `size` gives, after `skip` more characters. -/
def emptyLiteralsAfter (quote : Char) (size : Text → Option Nat) : Nat → Text → Text
  | _, [] => []
  | skip + 1, _ :: r => emptyLiteralsAfter quote size skip r
  | 0, c :: r =>
    if c == quote then
      match size r with
      | some n => quote :: quote :: emptyLiteralsAfter quote size n r
      | none => c :: emptyLiteralsAfter quote size 0 r
    else c :: emptyLiteralsAfter quote size 0 r

/-- The line with its string literals and then its character literals emptied. -/
def emptyLiterals (line : Text) : Text :=
  emptyLiteralsAfter '\'' charLength 0 (emptyLiteralsAfter '"' stringLength 0 line)

/-- What a line holds outside comments, and whether a block comment is open at its end. -/
def dropComments : Bool → Text → Text × Bool
  | inBlock, [] => ([], inBlock)
  | true, '*' :: '/' :: r => dropComments false r
  | true, _ :: r => dropComments true r
  | false, '/' :: '*' :: r => dropComments true r
  | false, '/' :: '/' :: _ => ([], false)
  | false, c :: r =>
    let (code, inBlock) := dropComments false r
    (c :: code, inBlock)

/-- The code of the lines, where `inBlock` tells that a block comment is open before them. -/
def codeLinesFrom : Bool → List Text → List Text
  | _, [] => []
  | inBlock, l :: ls =>
    let (code, inBlock) := dropComments inBlock (if inBlock then l else emptyLiterals l)
    code :: codeLinesFrom inBlock ls

def codeLines (ls : List Text) : List Text := codeLinesFrom false ls

end FunctionDocs.Source
