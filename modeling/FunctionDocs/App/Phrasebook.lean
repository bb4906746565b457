import FunctionDocs.App.Resources
import FunctionDocs.Files.Tree
import FunctionDocs.Json.Read

/-!
# Phrasebooks

The texts of the window in a language. A phrase is looked up by a key of several parts; a key that leads nowhere stands for
itself.
-/

namespace FunctionDocs.App

/-- The phrases of a language. -/
structure Phrasebook where
  language : Text
  phrases : Value

namespace Phrasebook

def index (b : Phrasebook) : Nat := if b.language == "de" then 1 else 0

def isKnown (b : Phrasebook) : Bool := b.language == "en" || b.language == "de"

def file (i : Installation) (language : Text) : Text :=
  i.resource ("../lang/" ++ language ++ ".json") (some ("assets/lang/" ++ language ++ ".json"))

/-- The phrases of a language and a message, if they cannot be read; they are empty then. A file that is no text is a failure. -/
def load (i : Installation) (t : Tree) (language : Text) : Except Failure (Phrasebook × Option Text) :=
  let path := file i language
  let empty : Phrasebook := ⟨language, .obj []⟩
  if t.pathExists path then
    match t.readText path with
    | .ok text =>
      match Json.read text with
      | .ok v => .ok (⟨language, v⟩, none)
      | .error fault => .ok (empty, some ("JSON decode error in " ++ path ++ ": " ++ fault.message text))
    | .error (.undecodable a b c d) => .error (.undecodable a b c d)
    | .error f => .ok (empty, some ("OS error while reading " ++ path ++ ": " ++ f.message))
  else .ok (empty, some ("Translation file not found: " ++ path))

def follow : Value → List Text → Except Failure (Option Value)
  | v, [] => .ok (some v)
  | .obj fields, part :: parts =>
    match Value.lookup part fields with
    | none | some .null => .ok none
    | some v => follow v parts
  | other, _ :: _ => .error (.noOperation other.kind "get")

def phrase (b : Phrasebook) (key : Text) : Except Failure Value := do
  return (← follow b.phrases (Text.splitOnChar '.' key)).getD (.str key)

end Phrasebook

end FunctionDocs.App
