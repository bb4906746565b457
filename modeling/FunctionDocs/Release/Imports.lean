import FunctionDocs.Files.Tree

/-!
# Imports of scripts

The modules that scripts import. A script is read as statements; a statement ends with its line, unless a bracket is open, with
a semicolon, or with the colon that opens a block. Comments and texts in quotes hold no statements.
-/

namespace FunctionDocs.Release

/-- A token of a script. -/
inductive Token where
  | word (t : Text)
  | sign (c : Char)
  /-- A text in quotes. -/
  | quote
  /-- The end of a statement. -/
  | stop
  deriving DecidableEq, Repr

/-- What stands after the end of a text in quotes, and how many lines it spans. -/
def afterQuote (closing : Text) : Nat → Nat → Text → Text × Nat
  | 0, lines, t => (t, lines)
  | _ + 1, lines, [] => ([], lines)
  | fuel + 1, lines, c :: r =>
    if Text.startsWith (c :: r) closing then ((c :: r).drop closing.length, lines)
    else if c == '\\' then
      match r with
      | d :: r => afterQuote closing fuel (if d == '\n' then lines + 1 else lines) r
      | [] => ([], lines)
    else afterQuote closing fuel (if c == '\n' then lines + 1 else lines) r

/-- The tokens of a script, each with its line; `depth` brackets are open. -/
def tokensFrom : Nat → Nat → Nat → Text → List (Token × Nat)
  | 0, _, _, _ => []
  | _ + 1, _, _, [] => []
  | fuel + 1, depth, line, c :: r =>
    if c == '\n' then
      let rest := tokensFrom fuel depth (line + 1) r
      if depth == 0 then (.stop, line) :: rest else rest
    else if c == '#' then tokensFrom fuel depth line (r.dropWhile (· != '\n'))
    else if c == '\\' then
      match r with
      | '\n' :: r => tokensFrom fuel depth (line + 1) r
      | _ => (.sign c, line) :: tokensFrom fuel depth line r
    else if c == '\'' || c == '"' then
      let closing := if Text.startsWith r [c, c] then [c, c, c] else [c]
      let (rest, lines) := afterQuote closing r.length 0 (r.drop (closing.length - 1))
      (.quote, line) :: tokensFrom fuel depth (line + lines) rest
    else if isWordChar c then
      (.word (c :: r.takeWhile isWordChar), line) :: tokensFrom fuel depth line (r.dropWhile isWordChar)
    else if isBlank c then tokensFrom fuel depth line r
    else if List.elem c ['(', '[', '{'] then (.sign c, line) :: tokensFrom fuel (depth + 1) line r
    else if List.elem c [')', ']', '}'] then (.sign c, line) :: tokensFrom fuel (depth - 1) line r
    else if depth == 0 && (c == ';' || c == ':') then (.stop, line) :: tokensFrom fuel depth line r
    else (.sign c, line) :: tokensFrom fuel depth line r

/-- A name of several parts at the start of a statement, and what follows it. -/
def dottedName : Nat → List Token → Option (List Text × List Token)
  | 0, _ => none
  | fuel + 1, .word a :: .sign '.' :: rest => (dottedName fuel rest).map fun (parts, rest) => (a :: parts, rest)
  | _ + 1, .word a :: rest => some ([a], rest)
  | _ + 1, _ => none

def dropAlias : List Token → Option (List Token)
  | .word ['a', 's'] :: .word _ :: rest => some rest
  | .word _ :: _ => none
  | rest => some rest

/-- The first parts of the names that a statement imports as whole modules. -/
def wholeImports : Nat → List Token → Option (List Text)
  | 0, _ => none
  | fuel + 1, ts => do
    let (name, rest) ← dottedName ts.length ts
    match ← dropAlias rest with
    | [] => return name.take 1
    | .sign ',' :: rest => return name.take 1 ++ (← wholeImports fuel rest)
    | _ => none

/-- The first part of the module that a statement imports from; none if it is named by dots alone. -/
def fromImport (ts : List Token) : Option (List Text) :=
  let isDot (t : Token) : Bool := t == .sign '.'
  let rest := ts.dropWhile isDot
  match rest with
  | .word ['i', 'm', 'p', 'o', 'r', 't'] :: _ :: _ => if rest.length < ts.length then some [] else none
  | _ => do
    let (name, rest) ← dottedName rest.length rest
    match rest with
    | .word ['i', 'm', 'p', 'o', 'r', 't'] :: _ :: _ => return name.take 1
    | _ => none

/-- What a statement imports; none if it is malformed. -/
def importsOfStatement : List Token → Option (List Text)
  | .word ['i', 'm', 'p', 'o', 'r', 't'] :: rest => wholeImports (rest.length + 1) rest
  | .word ['f', 'r', 'o', 'm'] :: rest => fromImport rest
  | _ => some []

/-- What statements import, or the line of the first malformed one; `taken` is the current statement in reverse, and `line` is
where it starts. -/
def importsOfTokens (taken : List Token) (line : Nat) : List (Token × Nat) → Except Nat (List Text)
  | [] =>
    match importsOfStatement taken.reverse with
    | some ns => .ok ns
    | none => .error line
  | (.stop, _) :: rest =>
    match importsOfStatement taken.reverse with
    | some ns => do return ns ++ (← importsOfTokens [] line rest)
    | none => .error line
  | (t, l) :: rest => importsOfTokens (t :: taken) (if taken.isEmpty then l else line) rest

def importsOf (script : Text) : Except Nat (List Text) :=
  importsOfTokens [] 1 (tokensFrom (script.length + 1) 0 1 script)

def scriptsFrom (t : Tree) : Nat → Text → Place → List Text
  | 0, _, _ => []
  | fuel + 1, path, p =>
    ((t.names p).filter (Text.endsWith · ".py")).map (Path.join path) ++
      (t.dirNames p).flatMap fun d => scriptsFrom t fuel (Path.join path d) (p ++ [d])

def scriptsHere (t : Tree) (path : Text) : List Text := scriptsFrom t (t.nodes.length + 1) path t.here

def partsOf (p : Text) : List Text :=
  let root := Path.rootOf p
  if root.isEmpty then Path.steps p else root :: Path.steps p

def partsBelow (root path : Text) : Except Failure (List Text) :=
  let shown (p : Text) : Text := Path.rootOf p ++ Text.joinWith "/" (Path.steps p)
  let away : Failure := .outside (if (partsOf path).isEmpty then "." else shown path) (shown root)
  let above := partsOf root
  if above.isEmpty then if Path.isAbsolute path then .error away else .ok (partsOf path)
  else if above.isPrefixOf (partsOf path) then .ok ((partsOf path).drop above.length)
  else .error away

/-- The modules that lie in a directory themselves: the first parts of the paths of its scripts. -/
def localModules (root : Text) (paths : List Text) : Except Failure (List Text) := do
  let firsts ← paths.mapM fun p => do
    match ← partsBelow root p with
    | first :: _ => return first
    | [] => .error .noPart
  return Text.sort (Text.distinct (firsts.filter (· != "__pycache__")))

end FunctionDocs.Release
