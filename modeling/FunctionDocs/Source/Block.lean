import FunctionDocs.Failure
import FunctionDocs.Position

/-!
# Block comments

A block comment takes whole lines: it begins on a line that starts with `/*` and ends on the first line from there that ends
with `*/`. The comment of a function is the block directly above it, or else the run of `//` lines above it; blank lines and
lines that start with `#` may stand between a block and its function.
-/

namespace FunctionDocs.Source

/-- A block comment: its first and last line and the text of these lines. -/
structure Block where
  first : Int
  last : Int
  text : Text
  deriving DecidableEq, Repr

/-- The lines a block comment was opened on and those since then, last line first. -/
abbrev OpenBlock := Option (Nat × List Text)

/-- The block comments from line `i` on. -/
def blocksFrom (i : Nat) (pending : OpenBlock) : List Text → List Block
  | [] => []
  | l :: ls =>
    let bare := Text.trim l
    let pending : OpenBlock :=
      match pending with
      | some (first, body) => some (first, l :: body)
      | none => if Text.startsWith bare "/*" then some (i, [l]) else none
    match pending with
    | some (first, body) =>
      if Text.endsWith bare "*/" then ⟨first, i, Text.unlines body.reverse⟩ :: blocksFrom (i + 1) none ls
      else blocksFrom (i + 1) pending ls
    | none => blocksFrom (i + 1) none ls

def blocks (ls : List Text) : List Block := blocksFrom 0 none ls

def inBlocks (i : Int) (bs : List Block) : Bool :=
  bs.any fun b => b.first ≤ i && i ≤ b.last

def lineAt (ls : List Text) (i : Int) : Except Failure Text :=
  match itemAt? ls i with
  | some l => .ok l
  | none => .error .noSuchItem

/-- All lines at the positions pass the test; the first one that does not ends the search. -/
def allLines (ls : List Text) (test : Text → Bool) : List Int → Except Failure Bool
  | [] => .ok true
  | i :: is => do
    if test (← lineAt ls i) then allLines ls test is else return false

def isBlockLine (l : Text) : Bool :=
  let bare := Text.trim l
  Text.startsWith bare "/*" || Text.startsWith bare "*"

def isGapLine (l : Text) : Bool :=
  (Text.trim l).isEmpty || Text.startsWith (Text.trimLeft l) "#"

/-- The text of the nearest block above a line, the blocks being given from the last to the first; empty if it is not directly
above the line. -/
def blockAbove (ls : List Text) (i : Int) : List Block → Except Failure Text
  | [] => return []
  | b :: bs => do
    if b.last < i then
      if ← allLines ls isBlockLine (integersFrom b.first (b.last + 1)) then
        if ← allLines ls isGapLine (integersFrom (b.last + 1) i) then return b.text
        else return []
      else blockAbove ls i bs
    else blockAbove ls i bs

/-- The run of `//` lines that ends the given lines (last line first), in order and trimmed; lines that start with `#` are
passed over. -/
def slashRun : List Text → List Text
  | [] => []
  | l :: above =>
    let bare := Text.trim l
    if bare.isEmpty then []
    else if Text.startsWith bare "#" then slashRun above
    else if Text.startsWith bare "//" then slashRun above ++ [bare]
    else []

/-- The comment that belongs to the function on line `i`. -/
def commentAbove (ls : List Text) (i : Int) (bs : List Block) : Except Failure Text := do
  let block ← blockAbove ls i bs.reverse
  if !block.isEmpty then return block
  if i ≤ 0 then return []
  if ls.length < i then .error .noSuchItem
  else return Text.unlines (slashRun (ls.take i.toNat).reverse)

/-- The positions of a block after lines were joined, where `starts` gives the first line of each joined line and `count` the
number of lines before joining. Looks from joined line `k` on for those that hold the block's first and last line. -/
def locateBlock (count : Int) (b : Block) (k : Nat) (first last : Option Nat) : List Int → Option Nat × Option Nat
  | [] => (first, last)
  | s :: rest =>
    let next := rest.headD count
    let first := if s ≤ b.first && b.first < next then some k else first
    let last := if s ≤ b.last && b.last < next then some k else last
    if first.isSome && last.isSome then (first, last) else locateBlock count b (k + 1) first last rest

/-- The block on the joined lines: a first line that is not found is line 0, a last line that is not found is the first. -/
def Block.onJoined (count : Int) (starts : List Int) (b : Block) : Block :=
  let (first, last) := locateBlock count b 0 none none starts
  let a := first.getD 0
  ⟨a, last.getD a, b.text⟩

def blocksOnJoined (count : Int) (starts : List Int) (bs : List Block) : List Block :=
  bs.map (Block.onJoined count starts)

end FunctionDocs.Source
