import FunctionDocs.Json.Value
import FunctionDocs.Text.Order

/-!
# Writing values

The written form of a value, on one line, with a blank after each comma and colon.
-/

namespace FunctionDocs.Json

def escapeChar (c : Char) : Text :=
  if c == '"' then "\\\""
  else if c == '\\' then "\\\\"
  else if c == '\n' then "\\n"
  else if c == '\r' then "\\r"
  else if c == '\t' then "\\t"
  else if c.toNat == 8 then "\\b"
  else if c.toNat == 12 then "\\f"
  else if c.toNat < 32 then "\\u" ++ Text.hexOf 4 c.toNat
  else [c]

def writeText (t : Text) : Text := '"' :: (t.flatMap escapeChar ++ ['"'])

mutual

/-- The written form of a value, with the fields in the order of their names. -/
def write : Value → Text
  | .null => "null"
  | .bool true => "true"
  | .bool false => "false"
  | .int i => Text.ofInt i
  | .real w => w
  | .str t => writeText t
  | .list xs => "[" ++ Text.joinWith ", " (writeAll xs) ++ "]"
  | .obj fs => ['{'] ++ Text.joinWith ", " ((Text.sortBy (·.1) (writeFields fs)).map (·.2)) ++ ['}']

def writeAll : List Value → List Text
  | [] => []
  | v :: vs => write v :: writeAll vs

def writeFields : List (Text × Value) → List (Text × Text)
  | [] => []
  | (k, v) :: fs => (k, writeText k ++ ": " ++ write v) :: writeFields fs

end

end FunctionDocs.Json
