import FunctionDocs.Json.Value

/-!
# Equality of values

The comparison of values is equality, so equality of values can be decided.
-/

namespace FunctionDocs.Value

mutual

theorem same_iff : ∀ v w : Value, same v w ↔ v = w
  | .null, w => by cases w <;> simp [same]
  | .bool a, w => by cases w <;> simp [same]
  | .int a, w => by cases w <;> simp [same]
  | .real a, w => by cases w <;> simp [same]
  | .str a, w => by cases w <;> simp [same]
  | .list xs, w => by cases w <;> simp [same, sameItems_iff xs]
  | .obj fs, w => by cases w <;> simp [same, sameFields_iff fs]

theorem sameItems_iff : ∀ vs ws : List Value, sameItems vs ws ↔ vs = ws
  | [], ws => by cases ws <;> simp [sameItems]
  | v :: vs, [] => by simp [sameItems]
  | v :: vs, w :: ws => by simp [sameItems, same_iff v, sameItems_iff vs]

theorem sameFields_iff : ∀ fs gs : List (Text × Value), sameFields fs gs ↔ fs = gs
  | [], gs => by cases gs <;> simp [sameFields]
  | (k, v) :: fs, [] => by simp [sameFields]
  | (k, v) :: fs, (l, w) :: gs => by simp [sameFields, same_iff v, sameFields_iff fs]

end

instance : LawfulBEq Value where
  eq_of_beq h := (same_iff _ _).mp h
  rfl := (same_iff _ _).mpr rfl

instance : DecidableEq Value := instDecidableEqOfLawfulBEq

end FunctionDocs.Value
