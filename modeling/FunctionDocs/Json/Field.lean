import FunctionDocs.Failure
import FunctionDocs.Json.Value

/-!
# Fields of values

Fields of an object that are needed or have a default. Asking a value of another kind is a failure.
-/

namespace FunctionDocs.Value

/-- A field of an object, or a text if it is absent; a value of another kind has no fields. -/
def fieldOr (v : Value) (key : Text) (default : Text) : Except Failure Text :=
  match v with
  | .obj fields => .ok (((lookup key fields).map display).getD default)
  | other => .error (.noOperation other.kind "get")

def valueOr (v : Value) (key : Text) (default : Value) : Except Failure Value :=
  match v with
  | .obj fields => .ok ((lookup key fields).getD default)
  | other => .error (.noOperation other.kind "get")

def fieldOf (v : Value) (key : Text) : Except Failure Value :=
  match v with
  | .obj fields =>
    match lookup key fields with
    | some w => .ok w
    | none => .error (.missingKey key)
  | other => .error (.notIndexable other.kind)

def follow (v : Value) (keys : List Text) : Except Failure Value := keys.foldlM fieldOf v

def itemsOf : Value → Except Failure (List Value)
  | .list vs => .ok vs
  | .str t => .ok (t.map fun c => .str [c])
  | .obj fs => .ok (fs.map fun f => .str f.1)
  | other => .error (.notIterable other.kind)

end FunctionDocs.Value
