import FunctionDocs.Text.Basic

/-!
# Open places of a comment

What a Doxygen comment documents and what it leaves open. A place is open if the word TODO stands in it.
-/

namespace FunctionDocs.Coverage

/-- The documented and the open places of a comment. -/
structure Analysis where
  documented : Nat := 0
  open_ : Nat := 0
  briefOpen : Bool := false
  returnOpen : Bool := false
  tparams : Nat := 0
  tparamsOpen : Nat := 0
  params : Nat := 0
  paramsOpen : Nat := 0
  deriving DecidableEq, Repr

def hasTodo (t : Text) : Bool := Text.contains t "TODO"

/-- The description after a tag with one blank and a name: the text after the white space that follows the name. -/
def describedAs? (rest : Text) : Option Text :=
  match rest with
  | ' ' :: r =>
    let after := r.dropWhile isWordChar
    if (r.takeWhile isWordChar).isEmpty || !after.head?.any isBlank then none
    else some ((after.dropWhile isBlank).takeWhile (· != '\n'))
  | _ => none

def Analysis.addLine (a : Analysis) (line : Text) : Analysis :=
  let a' := { a with documented := a.documented + 1 }
  if Text.startsWith line "* @brief" then
    if hasTodo line then { a' with briefOpen := true, open_ := a.open_ + 1 } else a'
  else if Text.startsWith line "* @tparam" then
    let isOpen := (describedAs? (line.drop 9)).any hasTodo
    { a' with
      tparams := a.tparams + 1
      tparamsOpen := a.tparamsOpen + isOpen.toNat
      open_ := a.open_ + isOpen.toNat }
  else if Text.startsWith line "* @param" then
    let isOpen := (describedAs? (line.drop 8)).any hasTodo
    { a' with
      params := a.params + 1
      paramsOpen := a.paramsOpen + isOpen.toNat
      open_ := a.open_ + isOpen.toNat }
  else if Text.startsWith line "* @return" then
    if hasTodo line then { a' with returnOpen := true, open_ := a.open_ + 1 } else a'
  else a

def analyze (comment : Text) : Analysis :=
  comment.lines.foldl (fun a l => a.addLine (Text.trim l)) {}

end FunctionDocs.Coverage
