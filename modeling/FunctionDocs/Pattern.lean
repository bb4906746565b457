import FunctionDocs.Text.Basic

/-!
# Patterns

Patterns over texts with ordered choice. A pattern is tried at one place; of the ways it can match there the first in order of
preference counts, where `many` and `repeated` prefer to take more and `few` prefers to take less. A pattern can name parts of
what it matched. Matching hands the place it reached to the rest of the pattern and comes back for the next way if that fails.
-/

namespace FunctionDocs

/-- A pattern over texts. -/
inductive Pattern where
  | empty
  /-- One character of a class. -/
  | one (p : Char → Bool)
  | lit (t : Text)
  /-- At least `least` characters of a class, as many as possible. -/
  | many (p : Char → Bool) (least : Nat)
  /-- At least `least` characters of a class, as few as possible. -/
  | few (p : Char → Bool) (least : Nat)
  /-- One pattern after the other. -/
  | seq (a b : Pattern)
  /-- The first pattern, or else the second. -/
  | either (a b : Pattern)
  /-- The pattern as often as possible; each round takes some text. -/
  | repeated (a : Pattern)
  /-- The pattern, whose text gets a name. -/
  | named (name : String) (a : Pattern)
  /-- The pattern follows here, and none of it is taken. -/
  | ahead (a : Pattern)
  | start
  /-- The end of the text, or the place before a line feed that ends it. -/
  | finish
  /-- The place between a word character and another one or none. -/
  | edge

namespace Pattern

/-- A place in a text, with the names given so far, the latest first. -/
structure Place where
  /-- The character before the place. -/
  before : Option Char
  /-- The number of characters before the place. -/
  passed : Nat
  /-- The text from the place on. -/
  rest : Text
  /-- The named parts. -/
  parts : List (String × Text)

namespace Place

def step (s : Place) (c : Char) (r : Text) : Place :=
  { s with before := some c, passed := s.passed + 1, rest := r }

def skip : Nat → Place → Place
  | 0, s => s
  | n + 1, s =>
    match s.rest with
    | [] => s
    | c :: r => skip n (s.step c r)

def since (s earlier : Place) : Text :=
  earlier.rest.take (s.passed - earlier.passed)

/-- A word character stands before the place or after it, but not on both sides. -/
def atEdge (s : Place) : Bool :=
  (s.before.any isWordChar) != (s.rest.head?.any isWordChar)

end Place

/-- What follows a pattern: it accepts a place or refuses it. -/
abbrev Next := Place → Option Place

def manyFrom (p : Char → Bool) (next : Next) : Text → Nat → Next
  | [], least, s => if least = 0 then next s else none
  | c :: r, least, s =>
    if p c then
      match manyFrom p next r (least - 1) (s.step c r) with
      | some e => some e
      | none => if least = 0 then next s else none
    else if least = 0 then next s
    else none

def fewFrom (p : Char → Bool) (next : Next) : Text → Nat → Next
  | [], least, s => if least = 0 then next s else none
  | c :: r, least, s =>
    match (if least = 0 then next s else none) with
    | some e => some e
    | none => if p c then fewFrom p next r (least - 1) (s.step c r) else none

/-- Rounds of a pattern, as many as possible, at most `fuel` of them. -/
def roundsFrom (round : Next → Next) (next : Next) : Nat → Next
  | 0, s => next s
  | fuel + 1, s =>
    match round (fun e => if s.passed < e.passed then roundsFrom round next fuel e else none) s with
    | some e => some e
    | none => next s

/-- The place that the rest of a match reaches when the pattern is tried at a place. -/
def run : Pattern → Next → Next
  | .empty, next, s => next s
  | .one p, next, s =>
    match s.rest with
    | [] => none
    | c :: r => if p c then next (s.step c r) else none
  | .lit t, next, s => if t.isPrefixOf s.rest then next (s.skip t.length) else none
  | .many p least, next, s => manyFrom p next s.rest least s
  | .few p least, next, s => fewFrom p next s.rest least s
  | .seq a b, next, s => a.run (b.run next) s
  | .either a b, next, s =>
    match a.run next s with
    | some e => some e
    | none => b.run next s
  | .repeated a, next, s => roundsFrom (a.run ·) next s.rest.length s
  | .named name a, next, s =>
    a.run (fun e => next { e with parts := (name, e.since s) :: e.parts }) s
  | .ahead a, next, s =>
    match a.run some s with
    | some e => next { s with parts := e.parts }
    | none => none
  | .start, next, s => if s.passed = 0 then next s else none
  | .finish, next, s => if s.rest = [] || s.rest = ['\n'] then next s else none
  | .edge, next, s => if s.atEdge then next s else none

def all : List Pattern → Pattern
  | [] => .empty
  | [p] => p
  | p :: ps => .seq p (all ps)

def firstOf : List Pattern → Pattern
  | [] => .one fun _ => false
  | [p] => p
  | p :: ps => .either p (firstOf ps)

def opt (a : Pattern) : Pattern := .either a .empty

def blanks : Pattern := .many isBlank 0

def blanks1 : Pattern := .many isBlank 1

/-- A match: the text before it, its own text, the text after it and the named parts. -/
structure Match where
  before : Text
  text : Text
  after : Text
  parts : List (String × Text)

def Match.part? (m : Match) (name : String) : Option Text :=
  (m.parts.find? (·.1 == name)).map (·.2)

def Match.part (m : Match) (name : String) : Text := (m.part? name).getD []

/-- The match at a place, without the text before it. -/
def matchAt? (p : Pattern) (s : Place) : Option Match :=
  (p.run some s).map fun e => ⟨[], e.since s, e.rest, e.parts⟩

def match? (p : Pattern) (t : Text) : Option Match :=
  p.matchAt? ⟨none, 0, t, []⟩

/-- The leftmost match from a place on, where `seen` is the text passed, last character first. -/
def searchFrom (p : Pattern) (seen : Text) : Text → Place → Option Match
  | [], s => (p.matchAt? s).map fun m => { m with before := seen.reverse }
  | c :: r, s =>
    match p.matchAt? s with
    | some m => some { m with before := seen.reverse }
    | none => p.searchFrom (c :: seen) r (s.step c r)

def search? (p : Pattern) (t : Text) : Option Match :=
  p.searchFrom [] t ⟨none, 0, t, []⟩

def matchesAt (p : Pattern) (t : Text) : Bool := (p.match? t).isSome

def occursIn (p : Pattern) (t : Text) : Bool := (p.search? t).isSome

/-- The matches that take some text, from left to right without overlap, each with the text since the one before; at last the
text after all of them. `skip` characters still belong to the match before, and `gap` is the text since then, reversed. -/
def matchesFrom (p : Pattern) : Nat → Text → Text → Place → List (Text × Match) × Text
  | _, gap, [], _ => ([], gap.reverse)
  | skip + 1, gap, c :: r, s => p.matchesFrom skip gap r (s.step c r)
  | 0, gap, c :: r, s =>
    match p.matchAt? s with
    | some m =>
      if m.text.isEmpty then p.matchesFrom 0 (c :: gap) r (s.step c r)
      else
        let (ms, last) := p.matchesFrom (m.text.length - 1) [] r (s.step c r)
        ((gap.reverse, m) :: ms, last)
    | none => p.matchesFrom 0 (c :: gap) r (s.step c r)

/-- All matches that take some text, each with the text before it, and the text after the last. -/
def findAll (p : Pattern) (t : Text) : List (Text × Match) × Text :=
  p.matchesFrom 0 [] t ⟨none, 0, t, []⟩

def replace (p : Pattern) (by_ : Match → Text) (t : Text) : Text :=
  let (ms, last) := p.findAll t
  (ms.map fun (gap, m) => gap ++ by_ m).flatten ++ last

def erase (p : Pattern) (t : Text) : Text := p.replace (fun _ => []) t

def split (p : Pattern) (t : Text) : List Text :=
  let (ms, last) := p.findAll t
  ms.map (·.1) ++ [last]

end Pattern

end FunctionDocs
