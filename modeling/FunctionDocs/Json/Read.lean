import FunctionDocs.Json.Value

/-!
# Reading values

Reads the written form of a value. A text that is none is refused with the place and the kind of the first fault.
-/

namespace FunctionDocs.Json

/-- A fault in a written value, at a number of characters from the start. -/
structure Fault where
  what : Text
  place : Nat
  deriving DecidableEq, Repr

def Fault.message (f : Fault) (t : Text) : Text :=
  let before := t.take f.place
  let line := before.count '\n' + 1
  let column := (before.reverse.takeWhile (· != '\n')).length + 1
  f.what ++ ": line " ++ Text.ofNat line ++ " column " ++ Text.ofNat column ++ " (char " ++ Text.ofNat f.place ++ ")"

/-- A reader of the text from a place on: what was read, the text after it and its place. -/
abbrev Reader (α : Type) := Nat → Text → Except Fault (α × Nat × Text)

def isGap (c : Char) : Bool := c == ' ' || c == '\t' || c == '\n' || c == '\r'

def skipGap (place : Nat) (t : Text) : Nat × Text :=
  (place + (t.takeWhile isGap).length, t.dropWhile isGap)

def hexValue? (c : Char) : Option Nat :=
  let n := c.toNat
  if 48 ≤ n && n ≤ 57 then some (n - 48)
  else if 97 ≤ n && n ≤ 102 then some (n - 87)
  else if 65 ≤ n && n ≤ 70 then some (n - 55)
  else none

def unit? : Text → Option (Nat × Text)
  | a :: b :: c :: d :: r => do
    let w ← hexValue? a
    let x ← hexValue? b
    let y ← hexValue? c
    let z ← hexValue? d
    return (((w * 16 + x) * 16 + y) * 16 + z, r)
  | _ => none

/-- The character of a code unit, or the replacement character for half of a pair. -/
def unitChar (n : Nat) : Char :=
  if 0xD800 ≤ n && n ≤ 0xDFFF then Char.ofNat 0xFFFD else Char.ofNat n

/-- The character that an escape stands for, if it is one letter. -/
def simpleEscape? (c : Char) : Option Char :=
  if c == '"' || c == '\\' || c == '/' then some c
  else if c == 'b' then some (Char.ofNat 8)
  else if c == 'f' then some (Char.ofNat 12)
  else if c == 'n' then some '\n'
  else if c == 'r' then some '\r'
  else if c == 't' then some '\t'
  else none

/-- The character that four digits after `\u` give, with the second half of a pair if one follows. -/
def escapedUnit (place : Nat) (t : Text) : Except Fault (Char × Nat × Text) :=
  match unit? t with
  | none => .error ⟨"Invalid \\uXXXX escape", place⟩
  | some (high, r) =>
    let alone := (unitChar high, place + 4, r)
    if 0xD800 ≤ high && high ≤ 0xDBFF then
      match r with
      | '\\' :: 'u' :: r' =>
        match unit? r' with
        | some (low, r'') =>
          if 0xDC00 ≤ low && low ≤ 0xDFFF then
            .ok (Char.ofNat (0x10000 + (high - 0xD800) * 1024 + (low - 0xDC00)), place + 10, r'')
          else .ok alone
        | none => .ok alone
      | _ => .ok alone
    else .ok alone

/-- The rest of a text between quotes that began at `start`. -/
def readChars (start : Nat) : Nat → Reader Text
  | 0, _, _ => .error ⟨"Unterminated string starting at", start⟩
  | fuel + 1, place, t =>
    match t with
    | [] => .error ⟨"Unterminated string starting at", start⟩
    | '"' :: r => .ok ([], place + 1, r)
    | '\\' :: [] => .error ⟨"Unterminated string starting at", start⟩
    | '\\' :: 'u' :: r => do
      let (c, place, r) ← escapedUnit (place + 2) r
      let (cs, place, r) ← readChars start fuel place r
      return (c :: cs, place, r)
    | '\\' :: e :: r =>
      match simpleEscape? e with
      | some c => do
        let (cs, place, r) ← readChars start fuel (place + 2) r
        return (c :: cs, place, r)
      | none => .error ⟨"Invalid \\escape", place⟩
    | c :: r =>
      if c.toNat < 32 then .error ⟨"Invalid control character at", place⟩
      else do
        let (cs, place, r) ← readChars start fuel (place + 1) r
        return (c :: cs, place, r)

def digitsValue (t : Text) : Nat := t.foldl (fun n c => n * 10 + (c.toNat - 48)) 0

/-- A fraction: a point and at least one digit. -/
def fraction (t : Text) : Text :=
  match t with
  | '.' :: r =>
    let ds := r.takeWhile isAsciiDigit
    if ds.isEmpty then [] else '.' :: ds
  | _ => []

/-- An exponent: its letter, possibly a sign, and at least one digit. -/
def exponent (t : Text) : Text :=
  match t with
  | e :: r =>
    if e == 'e' || e == 'E' then
      let sign := (r.take 1).filter fun c => c == '+' || c == '-'
      let ds := (r.drop sign.length).takeWhile isAsciiDigit
      if ds.isEmpty then [] else e :: (sign ++ ds)
    else []
  | [] => []

def number? (t : Text) : Option (Value × Nat) :=
  let sign := (t.take 1).filter (· == '-')
  let body := t.drop sign.length
  let whole :=
    match body with
    | '0' :: _ => ['0']
    | _ => body.takeWhile isAsciiDigit
  if whole.isEmpty then none
  else
    let rest := body.drop whole.length
    let frac := fraction rest
    let expo := exponent (rest.drop frac.length)
    let written := sign ++ whole ++ frac ++ expo
    if frac.isEmpty && expo.isEmpty then
      let n := Int.ofNat (digitsValue whole)
      some (.int (if sign.isEmpty then n else -n), written.length)
    else some (.real written, written.length)

/-- The words that stand for values, with their values. -/
def wordValues : List (Text × Value) :=
  [("null", .null), ("true", .bool true), ("false", .bool false), ("NaN", .real "nan"),
   ("Infinity", .real "inf"), ("-Infinity", .real "-inf")]

def readScalar (place : Nat) (t : Text) : Except Fault (Value × Nat × Text) :=
  match wordValues.find? fun w => w.1.isPrefixOf t with
  | some w => .ok (w.2, place + w.1.length, t.drop w.1.length)
  | none =>
    match number? t with
    | some (v, n) => .ok (v, place + n, t.drop n)
    | none => .error ⟨"Expecting value", place⟩

mutual

/-- A value; nesting and the number of items are bounded by the fuel. -/
def readValue : Nat → Reader Value
  | 0, place, _ => .error ⟨"Expecting value", place⟩
  | fuel + 1, place, t =>
    match t with
    | '"' :: r => do
      let (s, place, r) ← readChars place r.length.succ (place + 1) r
      return (.str s, place, r)
    | '[' :: r =>
      let (place, r) := skipGap (place + 1) r
      match r with
      | ']' :: r => .ok (.list [], place + 1, r)
      | _ => do
        let (vs, place, r) ← readItems fuel place r
        return (.list vs, place, r)
    | '{' :: r =>
      let (place, r) := skipGap (place + 1) r
      match r with
      | '}' :: r => .ok (.obj [], place + 1, r)
      | '"' :: _ => do
        let (fs, place, r) ← readFields fuel [] place r
        return (.obj fs, place, r)
      | _ => .error ⟨"Expecting property name enclosed in double quotes", place⟩
    | _ => readScalar place t

def readItems : Nat → Reader (List Value)
  | 0, place, _ => .error ⟨"Expecting value", place⟩
  | fuel + 1, place, t => do
    let (v, place, r) ← readValue fuel place t
    let (place, r) := skipGap place r
    match r with
    | ']' :: r => return ([v], place + 1, r)
    | ',' :: r =>
      let (place, r) := skipGap (place + 1) r
      let (vs, place, r) ← readItems fuel place r
      return (v :: vs, place, r)
    | _ => .error ⟨"Expecting ',' delimiter", place⟩

/-- The fields of an object, after those read before, up to its closing brace. -/
def readFields : Nat → List (Text × Value) → Reader (List (Text × Value))
  | 0, _, place, _ => .error ⟨"Expecting value", place⟩
  | fuel + 1, before, place, t =>
    match t with
    | '"' :: r => do
      let (key, place, r) ← readChars place r.length.succ (place + 1) r
      let (place, r) := skipGap place r
      match r with
      | ':' :: r =>
        let (place, r) := skipGap (place + 1) r
        let (v, place, r) ← readValue fuel place r
        let fields := Value.setField key v before
        let (place, r) := skipGap place r
        match r with
        | '}' :: r => return (fields, place + 1, r)
        | ',' :: r =>
          let (place, r) := skipGap (place + 1) r
          match r with
          | '"' :: _ => readFields fuel fields place r
          | _ => .error ⟨"Expecting property name enclosed in double quotes", place⟩
        | _ => .error ⟨"Expecting ',' delimiter", place⟩
      | _ => .error ⟨"Expecting ':' delimiter", place⟩
    | _ => .error ⟨"Expecting property name enclosed in double quotes", place⟩

end

def read (t : Text) : Except Fault Value := do
  if t.head? == some (Char.ofNat 0xFEFF) then .error ⟨"Unexpected UTF-8 BOM (decode using utf-8-sig)", 0⟩
  else
    let (place, r) := skipGap 0 t
    let (v, place, r) ← readValue (t.length + 1) place r
    let (place, r) := skipGap place r
    if r.isEmpty then return v else .error ⟨"Extra data", place⟩

end FunctionDocs.Json
