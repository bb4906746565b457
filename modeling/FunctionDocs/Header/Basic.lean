import FunctionDocs.Source.Block

/-!
# Header comments

The comment that stands directly above a function, and how it is put in place, taken away and converted. A header is a block
comment or a run of `//` lines that touches the function; what closes the function above is not part of it.
-/

namespace FunctionDocs.Header

open Source (lineAt)

/-- A line at which the search for a header stops: it is blank or closes a function. -/
def stopsHeader (l : Text) : Bool :=
  let bare := Text.trim l
  bare.isEmpty || Text.endsWithAny bare [['}'], ['}', ';'], ['}', '/', '*']] || Text.startsWith bare ['}']

def candidate (above : List Text) : List Text := (above.reverse.takeWhile (!stopsHeader ·)).reverse

/-- A line whose text is a `//` comment. -/
def isSlashLine (l : Text) : Bool := Text.startsWith (Text.trim l) "//"

def headerExists (ls : List Text) (start : Int) : Except Failure Bool := do
  if start = 0 then return false
  if Text.isBlankLine (← lineAt ls (start - 1)) then return false
  let found := if 0 < start then candidate (ls.take start.toNat) else []
  if 2 ≤ start then
    if Text.endsWith (Text.trim (← lineAt ls (start - 2))) ['}'] then return false
  return Text.startsWith (Text.trim (Text.unlines found)) "/*" || (!found.isEmpty && found.all isSlashLine)

def openingLine : Text := "/*-----------------------------------------------------------------------------"

def closingLines : List Text :=
  [" * ----------------------------------------------------------------------------", "*/"]

def dropBlankTail (ls : List Text) : List Text := (ls.reverse.dropWhile Text.isBlankLine).reverse

/-- The lines without blank lines at their end, and then two empty lines. -/
def withGap (ls : List Text) : List Text := dropBlankTail ls ++ [[], []]

def headerBlock (texts : List Text) : List Text :=
  openingLine :: (texts.map fun t => " * " ++ t) ++ closingLines

def placeholderText (name : Text) : Text := name ++ " -->> TODO: Add your description here"

/-- Puts a header above the function that starts on a line, unless it has one. -/
def addHeader (ls : List Text) (name : Text) (start : Int) (text : Option Text) : Except Failure (List Text) := do
  if ← headerExists ls start then return ls
  let body := headerBlock (Text.lines (text.getD (placeholderText name)))
  return withGap (itemsBefore ls start) ++ body ++ itemsFrom ls start

/-- Takes away the block above a function: from the last line above it with `/*` to the first line after that with `*/`. -/
def removeHeader (ls : List Text) (start : Int) : Except Failure (List Text) :=
  if start ≤ 0 then .ok ls
  else if ls.length < start then .error .noSuchItem
  else
    match ((ls.take start.toNat).reverse).findIdx? (Text.contains · "/*") with
    | none => .ok ls
    | some up =>
      let first := start.toNat - 1 - up
      match (ls.drop (first + 1)).findIdx? (Text.contains · "*/") with
      | none => .ok ls
      | some down => .ok (ls.take first ++ ls.drop (first + 1 + down + 1))

def slashText (l : Text) : Text := Text.trim ((Text.trim l).drop 2)

/-- A line of a header that keeps the text of a `//` line. -/
def starLine (t : Text) : Text := if t.isEmpty then " *" else " * " ++ t

/-- Turns the run of `//` lines above a function, and the blank lines between them, into a block. -/
def slashToBlock (ls : List Text) (start : Int) : Except Failure (List Text) :=
  if start ≤ 0 then .ok ls
  else if ls.length < start then .error .noSuchItem
  else
    let above := (ls.take start.toNat).reverse.dropWhile Text.isBlankLine
    let run := (above.takeWhile isSlashLine).reverse
    if run.isEmpty then .ok ls
    else
      let before := (above.dropWhile isSlashLine).reverse
      let block := openingLine :: (run.map fun l => starLine (slashText l)) ++ closingLines
      .ok (withGap before ++ block ++ ls.drop start.toNat)

end FunctionDocs.Header
