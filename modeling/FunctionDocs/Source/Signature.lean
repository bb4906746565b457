import FunctionDocs.Source.Inline

/-!
# Signatures

Two parameter lists are compared in a normal form: comments are dropped, white space is reduced to single blanks, and none is
left before `*` and `&` or around `=`.
-/

namespace FunctionDocs.Source

/-- Every run of white space becomes one blank; `inRun` tells that the character before was white space. -/
def collapseFrom (inRun : Bool) : Text → Text
  | [] => []
  | c :: r =>
    if isBlank c then
      if inRun then collapseFrom true r else ' ' :: collapseFrom true r
    else c :: collapseFrom false r

def collapse (t : Text) : Text := collapseFrom false t

/-- Drops the white space around `=`; `afterEq` tells that only white space stands since the last `=`. -/
def tightenFrom (afterEq : Bool) : Text → Text
  | [] => []
  | c :: r =>
    if isBlank c then
      if afterEq || (r.dropWhile isBlank).head? == some '=' then tightenFrom afterEq r
      else c :: tightenFrom false r
    else c :: tightenFrom (c == '=') r

def tightenEquals (t : Text) : Text := tightenFrom false t

def normalizeSignature (t : Text) : Text :=
  let bare := Text.trim (dropInline t)
  tightenEquals (collapse (Text.replaceAll (Text.replaceAll bare " *" "*") " &" "&"))

/-- The text up to the parenthesis that closes the group at nesting `depth`, if there is one. -/
def groupBody : Nat → Text → Option Text
  | _, [] => none
  | depth, c :: r =>
    if c == '(' then (groupBody (depth + 1) r).map (c :: ·)
    else if c == ')' then
      match depth with
      | 0 => some []
      | d + 1 => (groupBody d r).map (c :: ·)
    else (groupBody depth r).map (c :: ·)

def firstGroup? : Text → Option Text
  | [] => none
  | c :: r => if c == '(' then groupBody 0 r else firstGroup? r

/-- The normalised parameters of a declaration, empty if it has no closed parameter list. -/
def paramSignature (t : Text) : Text :=
  match firstGroup? t with
  | some body => normalizeSignature body
  | none => []

def canonicalSignature (t : Text) : Text := normalizeSignature (normalizeSignature t)

end FunctionDocs.Source
