import FunctionDocs.Text.Basic

/-!
# Order of texts

Texts are ordered by the code points of their characters, from left to right.
-/

namespace FunctionDocs.Text

def le : Text → Text → Bool
  | [], _ => true
  | _ :: _, [] => false
  | a :: as, b :: bs => if a == b then le as bs else a.toNat < b.toNat

def insertBy {α : Type} (key : α → Text) (a : α) : List α → List α
  | [] => [a]
  | b :: bs => if le (key a) (key b) then a :: b :: bs else b :: insertBy key a bs

/-- The items in the order of their keys; items with equal keys keep their order. -/
def sortBy {α : Type} (key : α → Text) (as : List α) : List α := as.foldr (insertBy key) []

def sort (ts : List Text) : List Text := sortBy id ts

/-- The texts without repetitions, each at its first place. -/
def distinct : List Text → List Text
  | [] => []
  | t :: ts => t :: (distinct ts).filter (· != t)

end FunctionDocs.Text
