import FunctionDocs.Failure

/-!
# Replacement templates

A replacement text in which a backslash starts an escape: a control character, the text of a numbered group, or a group in
angle brackets. A backslash before any other character that is no letter stands for itself.
-/

namespace FunctionDocs.Release.Template

/-- A piece of a template. -/
inductive Piece where
  | text (t : Text)
  | group (n : Nat)
  deriving DecidableEq, Repr

/-- Where and why a template is malformed. -/
inductive Fault where
  /-- A message for a position. -/
  | malformed (message : Text) (position : Nat)
  /-- A name that no group has. -/
  | unknown (name : Text)
  deriving DecidableEq, Repr

/-- The column of a position: what lies between it and the line feed before it. -/
def columnOf (passed : Text) : Nat := (passed.reverse.takeWhile (· != '\n')).length + 1

def Fault.failure (template : Text) : Fault → Failure
  | .unknown name => .unknownGroup name
  | .malformed message position =>
    let passed := template.take position
    let place : Text :=
      if List.elem '\n' template then
        " (line " ++ Text.ofNat (passed.count '\n' + 1) ++ ", column " ++ Text.ofNat (columnOf passed) ++ ")"
      else []
    .badTemplate (message ++ " at position " ++ Text.ofNat position ++ place)

/-- The template in units: single characters and escapes. -/
def units : Text → Nat → Except Fault (List Text)
  | [], _ => .ok []
  | ['\\'], n => .error (.malformed "bad escape (end of pattern)" n)
  | '\\' :: c :: r, n => do return ['\\', c] :: (← units r (n + 2))
  | c :: r, n => do return [c] :: (← units r (n + 1))

def digitValue? (c : Char) : Option Nat :=
  if isAsciiDigit c then some (c.toNat - 48)
  else (decimalRanges.find? fun r => r.1 ≤ c.toNat && c.toNat ≤ r.2).map fun r => (c.toNat - r.1) % 10

/-- The number that digits write, where single underscores may stand between digits. -/
def digitsValue? (sofar : Nat) (fresh : Bool) : Text → Option Nat
  | [] => if fresh then none else some sofar
  | c :: r =>
    if c == '_' then if fresh then none else digitsValue? sofar true r
    else (digitValue? c).bind fun d => digitsValue? (sofar * 10 + d) false r

/-- The number that a text writes, possibly between white space and with a sign; no number below zero. -/
def number? (t : Text) : Option Nat :=
  match Text.trim t with
  | '+' :: r => digitsValue? 0 true r
  | '-' :: r => (digitsValue? 0 true r).filter (· == 0)
  | r => digitsValue? 0 true r

/-- A text that can be a name: word characters, and no digit at the start. -/
def isName (t : Text) : Bool :=
  match t with
  | [] => false
  | c :: _ => !isDecimalDigit c && t.all isWordChar

def untilBracket (name : Text) : List Text → Option (Text × List Text)
  | [] => none
  | u :: us => if u == ['>'] then some (name, us) else untilBracket (name ++ u) us

def isOctal (c : Char) : Bool := '0' ≤ c && c ≤ '7'

/-- The single character that a unit is, if it is of a class. -/
def charOf (p : Char → Bool) : List Text → Option (Char × List Text)
  | [c] :: us => if p c then some (c, us) else none
  | _ => none

def octal (ds : List Char) : Nat := ds.foldl (fun n d => n * 8 + (d.toNat - 48)) 0

def decimal (ds : List Char) : Nat := ds.foldl (fun n d => n * 10 + (d.toNat - 48)) 0

def controlOf : Char → Option Char
  | 'a' => some '\x07'
  | 'b' => some '\x08'
  | 'f' => some '\x0c'
  | 'n' => some '\n'
  | 'r' => some '\r'
  | 't' => some '\t'
  | 'v' => some '\x0b'
  | '\\' => some '\\'
  | _ => none

/-- A reference to a group, which has to exist. -/
def groupPiece (groups n position : Nat) : Except Fault Piece :=
  if n ≤ groups then .ok (.group n)
  else .error (.malformed ("invalid group reference " ++ Text.ofNat n) position)

/-- The group that a name in angle brackets refers to; `position` is where the name starts. -/
def namedGroup (groups : Nat) (name : Text) (position : Nat) : Except Fault Piece :=
  if isName name then .error (.unknown name)
  else
    match number? name with
    | some n => groupPiece groups n position
    | none => .error (.malformed ("bad character in group name " ++ Text.quoted name) position)

/-- An escape with a digit and the units after it: a character by its octal number, or a group. -/
def digitEscape (groups : Nat) (c : Char) (us : List Text) (position : Nat) : Except Fault (Piece × List Text × Nat) :=
  if c == '0' then
    match charOf isOctal us with
    | none => .ok (.text [Char.ofNat 0], us, position + 2)
    | some (d, us) =>
      match charOf isOctal us with
      | none => .ok (.text [Char.ofNat (octal [d])], us, position + 3)
      | some (e, us) => .ok (.text [Char.ofNat (octal [d, e])], us, position + 4)
  else
    match charOf isAsciiDigit us with
    | none => do return (← groupPiece groups (decimal [c]) (position + 1), us, position + 2)
    | some (d, us) =>
      match (if isOctal c && isOctal d then charOf isOctal us else none) with
      | none => do return (← groupPiece groups (decimal [c, d]) (position + 1), us, position + 3)
      | some (e, us) =>
        let n := octal [c, d, e]
        if 255 < n then
          .error (.malformed ("octal escape value " ++ ['\\', c, d, e] ++ " outside of range 0-0o377") position)
        else .ok (.text [Char.ofNat n], us, position + 4)

def piecesFrom (groups : Nat) : Nat → List Text → Nat → Except Fault (List Piece)
  | 0, _, _ => .ok []
  | _ + 1, [], _ => .ok []
  | fuel + 1, u :: us, position =>
    match u with
    | ['\\', 'g'] =>
      match us with
      | ['<'] :: us =>
        match untilBracket [] us with
        | none =>
          let name := us.flatten
          if name.isEmpty then .error (.malformed "missing group name" (position + 3))
          else .error (.malformed "missing >, unterminated name" (position + 3))
        | some (name, us) => do
          if name.isEmpty then .error (.malformed "missing group name" (position + 3))
          else
            let p ← namedGroup groups name (position + 3)
            return p :: (← piecesFrom groups fuel us (position + 4 + name.length))
      | _ => .error (.malformed "missing <" (position + 2))
    | ['\\', c] =>
      if isAsciiDigit c then do
        let (p, us, position) ← digitEscape groups c us position
        return p :: (← piecesFrom groups fuel us position)
      else
        match controlOf c with
        | some d => do return .text [d] :: (← piecesFrom groups fuel us (position + 2))
        | none =>
          if isAsciiLetter c then .error (.malformed ("bad escape " ++ u) position)
          else do return .text u :: (← piecesFrom groups fuel us (position + 2))
    | _ => do return .text u :: (← piecesFrom groups fuel us (position + u.length))

def parse (groups : Nat) (template : Text) : Except Failure (List Piece) :=
  match (do let us ← units template 0; piecesFrom groups (us.length + 1) us 0) with
  | .ok ps => .ok ps
  | .error fault => .error (fault.failure template)

def expand (group : Nat → Text) (ps : List Piece) : Text :=
  ps.flatMap fun
    | .text t => t
    | .group n => group n

end FunctionDocs.Release.Template
