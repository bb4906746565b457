/-!
# Positions from either end

A position in a list is an integer: from zero on it counts from the front, below zero it counts from the back, so that `-1` is
the last item. A cut at a position beyond either end is a cut at that end.
-/

namespace FunctionDocs

variable {α : Type}

/-- The item at a position, if there is one. -/
def itemAt? (xs : List α) (i : Int) : Option α :=
  if 0 ≤ i then xs[i.toNat]?
  else if -i ≤ xs.length then xs[(xs.length + i).toNat]?
  else none

def cutPoint (xs : List α) (i : Int) : Nat :=
  if 0 ≤ i then i.toNat else (xs.length + i).toNat

def itemsBefore (xs : List α) (i : Int) : List α := xs.take (cutPoint xs i)

def itemsFrom (xs : List α) (i : Int) : List α := xs.drop (cutPoint xs i)

def putAt (xs : List α) (i : Int) (x : α) : List α := xs.set (cutPoint xs i) x

/-- The integers from `lo` up to but not including `hi`. -/
def integersFrom (lo hi : Int) : List Int :=
  (List.range (hi - lo).toNat).map fun k => lo + Int.ofNat k

/-- The integers up to a bound begin with the first one. -/
theorem integersFrom_cons {lo hi : Int} (h : lo < hi) : integersFrom lo hi = lo :: integersFrom (lo + 1) hi := by
  have hlen : (hi - lo).toNat = (hi - (lo + 1)).toNat + 1 := by omega
  rw [integersFrom, hlen, List.range_succ_eq_map, List.map_cons, List.map_map, integersFrom]
  refine List.cons_eq_cons.mpr ⟨by simp, List.map_congr_left fun k _ => ?_⟩
  simp only [Function.comp_apply, Int.ofNat_eq_natCast]
  push_cast
  omega

end FunctionDocs
