import FunctionDocs.Source.Inline

/-!
# Heads of functions

What the head of a definition looks like on a joined line: a return type, a name, a parameter list with at most one level of
nested parentheses, and possibly `const`; or a constructor or destructor, which has no return type and may initialise members.
-/

namespace FunctionDocs.Source

/-- The parts of a head that matter for documentation. -/
structure Head where
  returnType : Text
  name : Text
  params : Text
  isConst : Bool
  deriving DecidableEq, Repr

def isTypeChar (c : Char) : Bool :=
  isWordChar c || isBlank c || c == ':' || c == '*' || c == '&' || c == '<' || c == '>'

def isOperatorChar (c : Char) : Bool :=
  isWordChar c || List.elem c ("[]()+-*/<>=!&|^%~" : Text)

/-- A qualifier with its colons, such as `Shape::`. -/
def qualifier : Pattern := .seq (.many isWordChar 1) (.lit "::")

def functionName : Pattern :=
  .either (.seq (.repeated qualifier) (.many (fun c => isWordChar c || c == '~') 1))
    (.all [.lit "operator", .blanks, .many isOperatorChar 1])

def isPlain (c : Char) : Bool := c != '(' && c != ')'

/-- The parameters, in which parentheses may be nested once. -/
def nestedParams : Pattern :=
  .seq (.many isPlain 0)
    (.repeated (.all [.lit "(", .many (· != ')') 0, .lit ")", .many isPlain 0]))

/-- A head with a return type, up to the end of the line. -/
def functionHead : Pattern :=
  .all [.blanks, .named "type" (.seq (.one isWordChar) (.few isTypeChar 0)), .blanks,
    .named "name" functionName, .blanks, .lit "(", .named "params" nestedParams, .lit ")",
    .blanks, .opt (.named "const" (.lit "const")), .blanks, .opt (.lit ['{']), .blanks, .finish]

/-- The head of a constructor or destructor, up to its opening brace. -/
def constructorHead : Pattern :=
  .all [.blanks, .named "name" (.all [.opt qualifier, .opt (.lit "~"), .many isWordChar 1]), .blanks,
    .lit "(", .named "params" (.many (· != ')') 0), .lit ")", .blanks,
    .opt (.all [.blanks, .lit ":", .blanks, .many (fun c => c != '{' && c != '}') 0]),
    .opt (.named "const" (.lit "const")), .blanks, .lit ['{']]

/-- The head that a line holds, if it has a return type. -/
def functionHead? (line : Text) : Option Head :=
  (functionHead.match? line).map fun m =>
    ⟨Text.trim (m.part "type"), m.part "name", Text.trim (m.part "params"), (m.part? "const").isSome⟩

def constructorHead? (line : Text) : Option Head :=
  (constructorHead.match? line).map fun m =>
    ⟨[], m.part "name", Text.trim (m.part "params"), (m.part? "const").isSome⟩

def controlWords : List Text := ["if", "else", "for", "while", "switch", "case"]

def isControl (line : Text) : Bool :=
  (Pattern.all [.blanks, .firstOf (controlWords.map .lit), .edge]).matchesAt line

end FunctionDocs.Source
