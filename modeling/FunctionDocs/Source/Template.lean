import FunctionDocs.Pattern

/-!
# Template brackets

The text between balanced angle brackets is masked by a numbered placeholder, so that the brackets do not disturb the reading
of a function's head. An opening bracket that is never closed stays, with all that follows it.
-/

namespace FunctionDocs.Source

def placeholder (n : Nat) : Text := "__TPL" ++ Text.ofNat n ++ "__"

/-- A line in which bracketed parts are masked: the text and each placeholder with what it stands for. -/
structure Masked where
  text : Text
  parts : List (Text × Text)

/-- Masks the rest of a line. Placeholders are numbered from `n`; `depth` brackets are open, and `held` is the text since the
first of them, reversed. -/
def maskFrom (n : Nat) : Nat → Text → Text → Masked
  | _, held, [] => ⟨held.reverse, []⟩
  | 0, _, c :: r =>
    if c == '<' then maskFrom n 1 [c] r
    else
      let m := maskFrom n 0 [] r
      ⟨c :: m.text, m.parts⟩
  | depth + 1, held, c :: r =>
    if c == '<' then maskFrom n (depth + 2) (c :: held) r
    else if c == '>' then
      match depth with
      | 0 =>
        let m := maskFrom (n + 1) 0 [] r
        ⟨placeholder n ++ m.text, (placeholder n, (c :: held).reverse) :: m.parts⟩
      | d + 1 => maskFrom n (d + 1) (c :: held) r
    else maskFrom n (depth + 1) (c :: held) r

def mask (line : Text) : Masked := maskFrom 0 0 [] line

def Masked.restore (m : Masked) (t : Text) : Text :=
  m.parts.foldl (fun t part => Text.replaceAll t part.1 part.2) t

def placeholderPattern : Pattern :=
  .all [.lit "__TPL", .many isDecimalDigit 1, .lit "__"]

def templateHead : Pattern :=
  .all [.lit "template", .blanks1, .named "params" placeholderPattern]

/-- A template head anywhere in a line, with the white space after it. -/
def templateHeadInside : Pattern :=
  .all [.edge, .lit "template", .blanks1, placeholderPattern, .blanks]

end FunctionDocs.Source
