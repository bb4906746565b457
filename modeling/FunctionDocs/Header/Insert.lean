import FunctionDocs.Entry
import FunctionDocs.Header.Basic
import FunctionDocs.Header.Plain
import FunctionDocs.Header.Post
import FunctionDocs.Json.Value

/-!
# Headers for all functions of a text

Every function of a text gets a header and a comment after its closing brace. Functions are treated from the last to the first,
so that the lines above stay where they are; each is looked up again by its name, its parameters and its number, since the
lines have moved.
-/

namespace FunctionDocs.Header

open Source (Function locate functionsOf lineAt)

/-- The line of a definition, `-1` for none; a line that is not known fails in the way it is used. -/
def lineOf (ls : List Text) (name params : Text) (count : Int) (use : LineUse) : Except Failure Int :=
  match (locate (Text.unlines ls) name (some params) count).index? with
  | some i => .ok i
  | none => .error (.unplaced use)

def wantsDoxygen (style : Option Value) : Except Failure Bool := do
  match ← require "headerCommentStyle" style with
  | .str t => return t == "doxygen"
  | _ => return false

/-- The nearest line above a position that is not blank is a `//` line. -/
def slashAbove (ls : List Text) (start : Int) : Bool :=
  ((ls.take start.toNat).reverse.dropWhile Text.isBlankLine).head?.any isSlashLine

/-- The lines with a header for one function: a new one if there is none, a plain one for a Doxygen comment in another style,
and a block for a run of `//` lines. -/
def headerFor (style : Option Value) (ls : List Text) (f : Function) : Except Failure (List Text) := do
  let start ← lineOf ls f.name f.params f.count .subtraction
  if start = -1 then return ls
  let said := !Text.isBlankLine f.comment
  if !said then addHeader ls f.name start none
  else if !(← headerExists ls start) then addHeader ls f.name start none
  else
    let restyle ← if f.isDoxygen then do pure (!(← wantsDoxygen style)) else pure false
    if restyle then
      let ls ← removeHeader ls start
      let start ← lineOf ls f.name f.params f.count .subtraction
      addHeader ls f.name start (some (plainText f.comment))
    else if slashAbove ls start then slashToBlock ls start
    else return ls

def postFor (ls : List Text) (f : Function) : Except Failure (List Text) := do
  let start ← lineOf ls f.name f.params f.count .range
  if start = -1 then return ls else addPost ls f.name start

/-- The text with a header and a closing comment for every function it defines. -/
def insertComments (content : Text) (style : Option Value) : Except Failure Text := do
  let fs ← functionsOf content []
  let ls ← fs.reverse.foldlM (headerFor style) content.lines
  let ls ← fs.foldlM postFor ls
  return Text.unlines ls ++ "\n"

/-- The lines where the comment of an entry is to be put: above its function and the blank lines before it. -/
def insertionPoint (ls : List Text) (start : Int) : Int :=
  if 0 < start then
    start - Int.ofNat ((ls.take start.toNat).reverse.takeWhile Text.isBlankLine).length
  else start

def isFilled (ls : List Text) (i : Int) : Bool := !((itemAt? ls i).getD []).all isBlank

/-- The first position from `i` on whose line is not blank. -/
def skipBlankFrom (ls : List Text) : Nat → Int → Except Failure Int
  | 0, i => .ok i
  | fuel + 1, i =>
    if i < ls.length then do
      if Text.isBlankLine (← lineAt ls i) then skipBlankFrom ls fuel (i + 1) else return i
    else .ok i

def replaceFor (ls : List Text) (e : Entry) : Except Failure (List Text) := do
  let name ← e.name!
  let params ← e.params!
  let count ← e.count!
  let start ← lineOf ls name params count .subtraction
  if start = -1 then return ls
  let hadHeader ← headerExists ls start
  let ls ← if hadHeader then removeHeader ls start else pure ls
  let again := (locate (Text.unlines ls) name (some params) count).index?
  let doc ← match ← require "doxygen" e.doxygen with
    | some t => pure t
    | none => .error (.noOperation "NoneType" "splitlines")
  let start ← match (if hadHeader then again else some start) with
    | some i => pure i
    | none => .error (.unplaced .comparison)
  let i := insertionPoint ls start
  let gap : List Text :=
    if 2 ≤ i && isFilled ls (i - 2) then [[], []]
    else if 1 ≤ i && isFilled ls (i - 1) then [[]]
    else []
  let comment := gap ++ Text.lines doc
  let ls := itemsBefore ls i ++ comment ++ itemsFrom ls i
  let after := i + Int.ofNat comment.length
  let next ← skipBlankFrom ls (ls.length + 1) after
  return itemsBefore ls after ++ itemsFrom ls next

/-- The lines with the documentation of all entries in place of their headers. -/
def replaceHeaders (content : Text) (es : List Entry) : Except Failure (List Text) :=
  es.reverse.foldlM replaceFor content.lines

def newStartLine (ls : List Text) (e : Entry) : Except Failure Int := do
  let name ← e.name!
  let params ← e.params!
  let count ← e.count!
  return (← lineOf ls name params count .addition) + 1

end FunctionDocs.Header
