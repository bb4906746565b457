import FunctionDocs.Text.Basic

/-!
# Percentages and bars

A share is first rounded to a number of 53 significant bits, then multiplied and rounded again, and at last cut to a whole
number; so 29 of 100 is 28 percent. A tie goes to the even neighbour.
-/

namespace FunctionDocs.Coverage

/-- A number `digits · 2 ^ scale`. -/
structure Rounded where
  digits : Nat
  scale : Int
  deriving DecidableEq, Repr

def divideEven (num den : Nat) : Nat :=
  let q := num / den
  let r := num % den
  if den < 2 * r || (2 * r == den && q % 2 == 1) then q + 1 else q

def shift (num den : Nat) (scale : Int) : Nat × Nat :=
  if 0 ≤ scale then (num, den <<< scale.toNat) else (num <<< (-scale).toNat, den)

def quotient (num den : Nat) : Rounded :=
  if num = 0 then ⟨0, 0⟩
  else
    let scale : Int := Int.ofNat num.log2 - Int.ofNat den.log2 - 52
    let (n, d) := shift num den scale
    let scale := if n / d < 1 <<< 52 then scale - 1 else scale
    let (n, d) := shift num den scale
    ⟨divideEven n d, scale⟩

def Rounded.times (a : Rounded) (k : Nat) : Rounded :=
  let p := quotient (a.digits * k) 1
  ⟨p.digits, p.scale + a.scale⟩

def Rounded.whole (a : Rounded) : Nat :=
  if 0 ≤ a.scale then a.digits <<< a.scale.toNat else a.digits >>> (-a.scale).toNat

/-- The whole percentage of a part, zero if there is nothing to take a part of. -/
def percentOf (part total : Nat) : Nat :=
  if total = 0 then 0 else ((quotient part total).times 100).whole

/-- The whole part of a percentage of a length; the sign is that of the product. -/
def partOfLength (percent length : Int) : Int :=
  let size := Int.ofNat ((quotient percent.natAbs 100).times length.natAbs).whole
  if (percent < 0) == (length < 0) then size else -size

/-- A bar of `length` cells of which a percentage is filled. -/
def bar (percent length : Int) : Text :=
  let filled := partOfLength percent length
  List.replicate filled.toNat '█' ++ List.replicate (length - filled).toNat '░'

/-- Rounding twice loses one percent here. -/
theorem percentOf_twentyNine : percentOf 29 100 = 28 := by decide

end FunctionDocs.Coverage
