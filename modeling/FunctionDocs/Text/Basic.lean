import FunctionDocs.Text.Blank
import FunctionDocs.Text.Letter

/-!
# Texts

A text is the list of its characters, so that every operation on it is a recursion over a list. Here are the operations that
the rest of the library uses: search, replacement, trimming, lines and words. Searches go from left to right and do not
overlap.
-/

namespace FunctionDocs

/-- A text: a list of characters. -/
abbrev Text := List Char

instance : Coe String Text := ⟨String.toList⟩

namespace Text

def startsWith (t head : Text) : Bool := head.isPrefixOf t

def endsWith (t tail : Text) : Bool := tail.reverse.isPrefixOf t.reverse

def startsWithAny (t : Text) (heads : List Text) : Bool := heads.any (startsWith t)

def endsWithAny (t : Text) (tails : List Text) : Bool := tails.any (endsWith t)

def hasPart (part : Text) : Text → Bool
  | [] => part.isEmpty
  | c :: r => part.isPrefixOf (c :: r) || hasPart part r

def contains (t part : Text) : Bool := hasPart part t

/-- The text before the first occurrence of the part and the text after it. -/
def cutFirst (part : Text) : Text → Option (Text × Text)
  | [] => if part.isEmpty then some ([], []) else none
  | c :: r =>
    if part.isPrefixOf (c :: r) then some ([], (c :: r).drop part.length)
    else (cutFirst part r).map fun (before, after) => (c :: before, after)

def find? (t part : Text) : Option Nat :=
  (cutFirst part t).map fun (before, _) => before.length

/-- The number of occurrences of the part after `skip` more characters. -/
def countAfter (part : Text) : Nat → Text → Nat
  | _, [] => 0
  | skip + 1, _ :: r => countAfter part skip r
  | 0, c :: r =>
    if part.isPrefixOf (c :: r) then countAfter part (part.length - 1) r + 1 else countAfter part 0 r

def occurrences (t part : Text) : Nat := countAfter part 0 t

/-- Replacement after `skip` more characters, which belong to a part already replaced. -/
def replaceAfter (part by_ : Text) : Nat → Text → Text
  | _, [] => []
  | skip + 1, _ :: r => replaceAfter part by_ skip r
  | 0, c :: r =>
    if part.isPrefixOf (c :: r) then by_ ++ replaceAfter part by_ (part.length - 1) r
    else c :: replaceAfter part by_ 0 r

def replaceAll (t part by_ : Text) : Text := replaceAfter part by_ 0 t

def dropLeft (p : Char → Bool) (t : Text) : Text := t.dropWhile p

def dropRight (p : Char → Bool) (t : Text) : Text := (t.reverse.dropWhile p).reverse

def trimLeft (t : Text) : Text := dropLeft isBlank t

def trimRight (t : Text) : Text := dropRight isBlank t

def trim (t : Text) : Text := trimRight (trimLeft t)

def trimOf (p : Char → Bool) (t : Text) : Text := dropRight p (dropLeft p t)

def isBlankLine (t : Text) : Bool := t.all isBlank

/-- The lines of a text, without their line ends. -/
def lines : Text → List Text
  | [] => []
  | '\r' :: '\n' :: r => [] :: lines r
  | c :: r =>
    if isLineEnd c then [] :: lines r
    else
      match lines r with
      | [] => [[c]]
      | l :: ls => (c :: l) :: ls

def joinWith (sep : Text) : List Text → Text
  | [] => []
  | [t] => t
  | t :: u :: r => t ++ sep ++ joinWith sep (u :: r)

/-- The lines written as one text, with a line feed between them. -/
def unlines (ls : List Text) : Text := joinWith ['\n'] ls

def splitOnChar (sep : Char) : Text → List Text
  | [] => [[]]
  | c :: r =>
    if c == sep then [] :: splitOnChar sep r
    else
      match splitOnChar sep r with
      | [] => [[c]]
      | p :: ps => (c :: p) :: ps

/-- The pieces of a text between the occurrences of a non-empty part, after `skip` more characters. -/
def splitAfter (part : Text) : Nat → Text → List Text
  | _, [] => [[]]
  | skip + 1, _ :: r => splitAfter part skip r
  | 0, c :: r =>
    if part.isPrefixOf (c :: r) then [] :: splitAfter part (part.length - 1) r
    else
      match splitAfter part 0 r with
      | [] => [[c]]
      | p :: ps => (c :: p) :: ps

def splitOn (t part : Text) : List Text := splitAfter part 0 t

/-- The words of a text, where `word` holds the word under way. -/
def wordsFrom (word : Text) : Text → List Text
  | [] => if word.isEmpty then [] else [word.reverse]
  | c :: r =>
    if isBlank c then
      if word.isEmpty then wordsFrom [] r else word.reverse :: wordsFrom [] r
    else wordsFrom (c :: word) r

/-- The words of a text: its longest parts without white space. -/
def words (t : Text) : List Text := wordsFrom [] t

/-- A first word and what stands after the white space that ends it, if both exist. -/
def firstWord? (t : Text) : Option (Text × Option Text) :=
  let body := trimLeft t
  if body.isEmpty then none
  else
    let rest := trimLeft (body.dropWhile (!isBlank ·))
    some (body.takeWhile (!isBlank ·), if rest.isEmpty then none else some rest)

def digitsRev : Nat → Nat → Text
  | 0, _ => []
  | fuel + 1, n =>
    let d := Char.ofNat (48 + n % 10)
    if n < 10 then [d] else d :: digitsRev fuel (n / 10)

def ofNat (n : Nat) : Text := (digitsRev (n + 1) n).reverse

/-- An integer in decimal digits, with a sign if it is negative. -/
def ofInt : Int → Text
  | .ofNat n => ofNat n
  | .negSucc n => '-' :: ofNat (n + 1)

/-- A number written with at least `width` digits. -/
def padNat (width n : Nat) : Text :=
  let d := ofNat n
  List.replicate (width - d.length) '0' ++ d

theorem words_nil : words [] = [] := rfl

/-- No line stands in an empty text. -/
theorem lines_nil : lines [] = [] := by rw [lines]

end Text

end FunctionDocs
