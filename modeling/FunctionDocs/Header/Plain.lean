import FunctionDocs.Pattern

/-!
# Plain descriptions

The description that a Doxygen comment gives under `@brief`, as plain text.
-/

namespace FunctionDocs.Header

/-- The text under `@brief`, up to the next tag or the end of the comment. -/
def briefText : Pattern :=
  .all [.lit "* @brief ", .named "text" (.few (fun _ => true) 0),
    .ahead (.either (.all [.lit "* @", .many isWordChar 1]) (.lit " */"))]

def isStarOrBlank (c : Char) : Bool := c == ' ' || c == '*'

/-- The description of a Doxygen comment, without the stars at the start of its lines. -/
def plainText (comment : Text) : Text :=
  match briefText.search? (Text.trim comment) with
  | some m =>
    Text.unlines ((Text.splitOnChar '\n' (Text.trim (m.part "text"))).map fun l =>
      Text.trim (Text.dropLeft isStarOrBlank l))
  | none => "No description provided."

end FunctionDocs.Header
