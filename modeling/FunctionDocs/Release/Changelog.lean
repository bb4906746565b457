import FunctionDocs.Release.Template
import FunctionDocs.Text.Case

/-!
# Changelogs

A changelog has a section for each version, newest first. Commits are sorted into groups by the word that starts their message.
What is new goes into the section of its version, or makes a new section at the top.
-/

namespace FunctionDocs.Release

/-- What a commit is about. -/
inductive CommitKind where
  | feature
  | fix
  | docs
  | refactor
  | test
  | chore
  deriving DecidableEq, Repr

namespace CommitKind

def all : List CommitKind := [.feature, .fix, .docs, .refactor, .test, .chore]

def mark : CommitKind → Text
  | .feature => "feat:"
  | .fix => "fix:"
  | .docs => "docs:"
  | .refactor => "refactor:"
  | .test => "test:"
  | .chore => "chore:"

def title : CommitKind → Text
  | .feature => "Features"
  | .fix => "Bug Fixes"
  | .docs => "Documentation"
  | .refactor => "Refactoring"
  | .test => "Tests"
  | .chore => "Chores"

end CommitKind

/-- A commit that belongs into a changelog. -/
structure Commit where
  kind : CommitKind
  summary : Text
  deriving DecidableEq, Repr

/-- The commit with a message, if the message tells its kind. -/
def Commit.ofMessage? (message : Text) : Option Commit :=
  (CommitKind.all.find? fun k => Text.startsWith message k.mark).map fun k =>
    ⟨k, Text.trim (message.drop k.mark.length)⟩

def commitsOf (log : Text) : List Commit := (Text.splitOnChar '\n' (Text.trim log)).filterMap Commit.ofMessage?

namespace Changelog

def headingStart : Text := "# Changelog for version "

def heading (version : Text) : Text := headingStart ++ version

def groupLines (cs : List Commit) (k : CommitKind) : List Text :=
  match cs.filter (·.kind == k) with
  | [] => []
  | own => ("## " ++ k.title) :: [] :: own.map (fun c => ("* " : Text) ++ c.summary) ++ [[]]

def body (cs : List Commit) : Text := Text.trim (Text.unlines (CommitKind.all.flatMap (groupLines cs)))

def sectionText (version body : Text) : Text := heading version ++ "\n\n" ++ body ++ "\n"

/-- Whole lines up to the next section or the end of the text; none if the last line is not ended. -/
def linesToSection (atStart : Bool) : Text → Option Text
  | [] => if atStart then some [] else none
  | c :: r =>
    if atStart && Text.startsWith (c :: r) headingStart then some []
    else (linesToSection (c == '\n') r).map (c :: ·)

def sectionAt? (version text : Text) : Option Text :=
  let head := heading version ++ "\n"
  if Text.startsWith text head then (linesToSection true (text.drop head.length)).map (head ++ ·) else none

def findSection? (version : Text) : Text → Option Text
  | [] => none
  | c :: r => sectionAt? version (c :: r) <|> findSection? version r

/-- The text with all sections of a version replaced; `skip` characters still belong to a section. -/
def replaceSections (version : Text) (new : Text → Text) : Nat → Text → Text
  | _, [] => []
  | skip + 1, _ :: r => replaceSections version new skip r
  | 0, c :: r =>
    match sectionAt? version (c :: r) with
    | some s => new s ++ replaceSections version new (s.length - 1) r
    | none => c :: replaceSections version new 0 r

def tidy (t : Text) : Text := Text.unlines ((Text.lines (Text.trim t)).map Text.trim)

/-- What became of a changelog. -/
inductive Update where
  | current
  | extended (content : Text)
  | started (content : Text)
  deriving DecidableEq, Repr

/-- Puts a body into a changelog: nothing to do if the section of the version holds it already; else it is added at the end of
that section, whose text is then read as a template, or it makes a new section at the top. -/
def update (version new content : Text) : Except Failure Update :=
  match findSection? version content with
  | none => .ok (.started (sectionText version new ++ "\n" ++ content))
  | some s => do
    let old := tidy (Text.unlines ((Text.lines s).drop 2))
    let new := tidy new
    if Text.contains old new then return .current
    else
      let ps ← Template.parse 1 (sectionText version (Text.trim (old ++ "\n" ++ new)) ++ "\n")
      return .extended (replaceSections version (fun s => Template.expand (fun _ => s) ps) 0 content)

def rawLines : Text → List Text
  | [] => []
  | c :: r =>
    if c == '\n' then [c] :: rawLines r
    else
      match rawLines r with
      | [] => [[c]]
      | l :: ls => (c :: l) :: ls

/-- A line that starts like a text, where case and white space before it do not count. -/
def lineStarts (head line : Text) : Bool := Text.startsWith (Text.toLower (Text.trim line)) (Text.toLower head)

/-- The lines from the last heading of the version on, up to a heading of another one; `found` are the lines since the last
heading of the version so far, in reverse. -/
def sectionLines (version : Text) (found : Option (List Text)) : List Text → Option (List Text)
  | [] => found.map List.reverse
  | l :: ls =>
    if lineStarts (heading version) l then sectionLines version (some []) ls
    else
      match found with
      | none => sectionLines version none ls
      | some taken =>
        if lineStarts "# changelog for version" l then some taken.reverse
        else sectionLines version (some (l :: taken)) ls

def sectionFor (version text : Text) : Except Failure Text :=
  match sectionLines version none (rawLines text) with
  | some ls => .ok (Text.trim ls.flatten)
  | none => .error (.noSection version)

def signs : List (Text × Text) :=
  [("features", "✨"), ("bug fixes", "🐛"), ("changes", "🔧"), ("performance", "⚡"), ("documentation", "📝")]

/-- A line of a changelog as it is announced: groups get a sign, items a dash. -/
def announcedLine (line : Text) : Text :=
  let line := Text.trim line
  if Text.startsWith line "###" then
    let name := Text.trim (line.drop 3)
    let sign := match signs.find? fun s => Text.contains (Text.toLower name) s.1 with
      | some s => s.2
      | none => "🗂"
    "### " ++ sign ++ " " ++ name
  else if Text.startsWith line "*" then "- " ++ Text.capitalize (Text.trim (line.drop 1))
  else line

def announced (t : Text) : Text := Text.unlines ((Text.lines (Text.trim t)).map announcedLine)

end Changelog

end FunctionDocs.Release
