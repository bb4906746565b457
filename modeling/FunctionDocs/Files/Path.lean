import FunctionDocs.Text.Basic

/-!
# Paths

Paths as texts: their parts are divided by slashes, and a path that starts with a slash is absolute.
-/

namespace FunctionDocs.Path

def isAbsolute (p : Text) : Bool := Text.startsWith p "/"

/-- One path below another; an absolute one stands for itself. -/
def join (a b : Text) : Text :=
  if isAbsolute b then b
  else if a.isEmpty || Text.endsWith a "/" then a ++ b
  else a ++ "/" ++ b

/-- The last part of a path: what follows its last slash. -/
def base (p : Text) : Text := (p.reverse.takeWhile (· != '/')).reverse

/-- The path that leads to the last part, without slashes at its end unless it is nothing else. -/
def directory (p : Text) : Text :=
  let head := (p.reverse.dropWhile (· != '/')).reverse
  if head.all (· == '/') then head else Text.dropRight (· == '/') head

def steps (p : Text) : List Text := (Text.splitOnChar '/' p).filter fun s => !s.isEmpty && s != "."

/-- Steps with each step up taken back; `up` tells that a step up at the start is kept. -/
def foldUps (up : Bool) : List Text → List Text → List Text
  | taken, [] => taken.reverse
  | taken, s :: rest =>
    if s == ".." then
      match taken with
      | [] => if up then foldUps up [s] rest else foldUps up [] rest
      | t :: ts => if t == ".." then foldUps up (s :: taken) rest else foldUps up ts rest
    else foldUps up (s :: taken) rest

/-- The slashes that a normal path starts with: two if the path has exactly two, one if it has others. -/
def rootOf (p : Text) : Text :=
  if Text.startsWith p "//" && !Text.startsWith p "///" then "//"
  else if isAbsolute p then "/"
  else []

def normalize (p : Text) : Text :=
  let folded := rootOf p ++ Text.joinWith "/" (foldUps (!isAbsolute p) [] (steps p))
  if folded.isEmpty then "." else folded

/-- A text that names a directory by its look: it has three characters or more, its last part has no ending, and it has several
parts, starts in the current directory or is absolute. -/
def looksLikeDirectory (p : Text) : Bool :=
  let bare := Text.trim p
  if bare.length < 3 then false
  else
    let parts := steps bare
    let last := parts.getLast?.getD []
    if List.elem '.' last && !Text.startsWith last "." then false
    else isAbsolute bare || 2 ≤ parts.length || Text.startsWith p "./"

def isSource (p : Text) : Bool := Text.endsWithAny p [".cpp", ".h", ".hpp", ".cxx", ".ino"]

end FunctionDocs.Path
