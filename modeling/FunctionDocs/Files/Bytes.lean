import FunctionDocs.Failure

/-!
# Bytes and texts

Texts are stored as bytes, one to four for each character. Bytes that are no text are refused with the first fault. Reading
a text turns every kind of line end into a line feed.
-/

namespace FunctionDocs.Bytes

def ofChar (c : Char) : List UInt8 :=
  let n := c.toNat
  if n < 0x80 then [n.toUInt8]
  else if n < 0x800 then [(0xC0 + n / 64).toUInt8, (0x80 + n % 64).toUInt8]
  else if n < 0x10000 then [(0xE0 + n / 4096).toUInt8, (0x80 + n / 64 % 64).toUInt8, (0x80 + n % 64).toUInt8]
  else
    [(0xF0 + n / 262144).toUInt8, (0x80 + n / 4096 % 64).toUInt8, (0x80 + n / 64 % 64).toUInt8,
     (0x80 + n % 64).toUInt8]

def ofText (t : Text) : List UInt8 := t.flatMap ofChar

def continues (b : UInt8) : Bool := 0x80 ≤ b && b ≤ 0xBF

/-- The lowest and highest byte that may follow the first byte of a character. -/
def secondRange (first : UInt8) : UInt8 × UInt8 :=
  if first == 0xE0 then (0xA0, 0xBF)
  else if first == 0xED then (0x80, 0x9F)
  else if first == 0xF0 then (0x90, 0xBF)
  else if first == 0xF4 then (0x80, 0x8F)
  else (0x80, 0xBF)

def following? (first : UInt8) : Option Nat :=
  if first < 0x80 then some 0
  else if first < 0xC2 then none
  else if first < 0xE0 then some 1
  else if first < 0xF0 then some 2
  else if first < 0xF5 then some 3
  else none

def leadBits (first : UInt8) : Nat :=
  let n := first.toNat
  if n < 0x80 then n else if n < 0xE0 then n - 0xC0 else if n < 0xF0 then n - 0xE0 else n - 0xF0

/-- A fault in bytes: how many bytes it takes, if they are followed by others at all, and what is wrong. -/
inductive Fault where
  | badStart
  | badFollower (good : Nat)
  | cutShort
  deriving DecidableEq, Repr

/-- The later bytes of a character: `left` of them are needed, `good` bytes were read, and `n` holds their bits. The second
byte has a range of its own. -/
def followers (range : UInt8 × UInt8) : Nat → Nat → Nat → List UInt8 → Except Fault (Nat × List UInt8)
  | 0, _, n, bs => .ok (n, bs)
  | _ + 1, _, _, [] => .error .cutShort
  | left + 1, good, n, b :: bs =>
    if range.1 ≤ b && b ≤ range.2 then followers (0x80, 0xBF) left (good + 1) (n * 64 + (b.toNat - 0x80)) bs
    else .error (.badFollower good)

def char? : List UInt8 → Except Fault (Char × List UInt8)
  | [] => .error .cutShort
  | b :: bs =>
    match following? b with
    | none => .error .badStart
    | some k => do
      let (n, rest) ← followers (secondRange b) k 1 (leadBits b) bs
      return (Char.ofNat n, rest)

def Fault.failure (f : Fault) (place : Nat) (bs : List UInt8) : Failure :=
  let first := (bs.head?.getD 0).toNat
  match f with
  | .badStart => .undecodable first place (place + 1) "invalid start byte"
  | .badFollower good => .undecodable first place (place + good) "invalid continuation byte"
  | .cutShort => .undecodable first place (place + bs.length) "unexpected end of data"

/-- The text from a place on; each character takes one byte at least. -/
def toTextFrom : Nat → Nat → List UInt8 → Except Failure Text
  | _, _, [] => .ok []
  | 0, _, _ => .ok []
  | fuel + 1, place, bs =>
    match char? bs with
    | .error f => .error (f.failure place bs)
    | .ok (c, rest) => do
      let t ← toTextFrom fuel (place + (bs.length - rest.length)) rest
      return c :: t

def toText (bs : List UInt8) : Except Failure Text := toTextFrom bs.length 0 bs

def toTextLossyFrom : Nat → List UInt8 → Text
  | _, [] => []
  | 0, _ => []
  | fuel + 1, b :: bs =>
    match char? (b :: bs) with
    | .ok (c, rest) => c :: toTextLossyFrom fuel rest
    | .error .badStart => Char.ofNat 0xFFFD :: toTextLossyFrom fuel bs
    | .error (.badFollower good) => Char.ofNat 0xFFFD :: toTextLossyFrom fuel ((b :: bs).drop good)
    | .error .cutShort => [Char.ofNat 0xFFFD]

/-- The text that bytes stand for, with a replacement character for every fault. -/
def toTextLossy (bs : List UInt8) : Text := toTextLossyFrom bs.length bs

def unifyLineEnds : Text → Text
  | [] => []
  | '\r' :: '\n' :: r => '\n' :: unifyLineEnds r
  | c :: r => (if c == '\r' then '\n' else c) :: unifyLineEnds r

end FunctionDocs.Bytes
