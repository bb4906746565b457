import FunctionDocs.Text.Quoted

/-!
# Values

The values that configuration files, translations and web answers are made of. Fields of an object keep the order in which
they were first given. A number with a fraction or an exponent is kept as it was written.
-/

namespace FunctionDocs

/-- A value of a data file. -/
inductive Value where
  | null
  | bool (b : Bool)
  | int (i : Int)
  | real (written : Text)
  | str (t : Text)
  | list (items : List Value)
  | obj (fields : List (Text × Value))
  deriving Repr, Inhabited

namespace Value

mutual

def same : Value → Value → Bool
  | .null, .null => true
  | .bool a, .bool b => a == b
  | .int i, .int j => i == j
  | .real v, .real w => v == w
  | .str t, .str u => t == u
  | .list xs, .list ys => sameItems xs ys
  | .obj fs, .obj gs => sameFields fs gs
  | _, _ => false

def sameItems : List Value → List Value → Bool
  | [], [] => true
  | x :: xs, y :: ys => same x y && sameItems xs ys
  | _, _ => false

def sameFields : List (Text × Value) → List (Text × Value) → Bool
  | [], [] => true
  | (k, v) :: fs, (l, w) :: gs => k == l && same v w && sameFields fs gs
  | _, _ => false

end

instance : BEq Value := ⟨same⟩

/-- The name of the kind of value, as messages call it. -/
def kind : Value → Text
  | .null => "NoneType"
  | .bool _ => "bool"
  | .int _ => "int"
  | .real _ => "float"
  | .str _ => "str"
  | .list _ => "list"
  | .obj _ => "dict"

/-- A value that counts as true: not null, false, zero or empty. -/
def isTrue : Value → Bool
  | .null => false
  | .bool b => b
  | .int i => i != 0
  | .real w => (w.takeWhile fun c => c != 'e' && c != 'E').any fun c => isAsciiDigit c && c != '0'
  | .str t => !t.isEmpty
  | .list xs => !xs.isEmpty
  | .obj fs => !fs.isEmpty

def lookup (name : Text) (fields : List (Text × Value)) : Option Value :=
  (fields.find? fun f => f.1 == name).map (·.2)

/-- The fields with one of them set; a new field comes last. -/
def setField (name : Text) (v : Value) : List (Text × Value) → List (Text × Value)
  | [] => [(name, v)]
  | f :: fs => if f.1 == name then (name, v) :: fs else f :: setField name v fs

def field? (name : Text) : Value → Option Value
  | .obj fields => lookup name fields
  | _ => none

mutual

def shown : Value → Text
  | .null => "None"
  | .bool true => "True"
  | .bool false => "False"
  | .int i => Text.ofInt i
  | .real w => w
  | .str t => Text.quoted t
  | .list xs => "[" ++ Text.joinWith ", " (shownAll xs) ++ "]"
  | .obj fs => ['{'] ++ Text.joinWith ", " (shownFields fs) ++ ['}']

def shownAll : List Value → List Text
  | [] => []
  | v :: vs => shown v :: shownAll vs

def shownFields : List (Text × Value) → List Text
  | [] => []
  | (k, v) :: fs => (Text.quoted k ++ ": " ++ shown v) :: shownFields fs

end

/-- The value as it is put into a text: a text as it is, all else as within a list. -/
def display : Value → Text
  | .str t => t
  | v => shown v

end Value

end FunctionDocs
