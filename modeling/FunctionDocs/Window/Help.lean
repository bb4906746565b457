import FunctionDocs.Text.Case

/-!
# Help pages

A help page is a text whose headings become anchored headings of a web page. A heading stands on a line of its own, after one to
six number signs and a space; its anchor is made of its words.
-/

namespace FunctionDocs.Window.Help

/-- The text of a heading, if a line is one. -/
def heading? (line : Text) : Option Text :=
  let marks := line.takeWhile (· == '#')
  match line.dropWhile (· == '#') with
  | ' ' :: c :: rest => if 1 ≤ marks.length && marks.length ≤ 6 then some (c :: rest) else none
  | _ => none

/-- The anchor of a heading: its words and hyphens in small letters, with hyphens in place of spaces. -/
def anchor (text : Text) : Text :=
  let kept := text.filter fun c => isWordChar c || c == '-' || c == ' '
  Text.toLower (kept.map fun c => if c == ' ' then '-' else c)

/-- A line with its heading marked up. All number signs of the line count for the level. -/
def markLine (line : Text) : Text :=
  match heading? line with
  | none => line
  | some words =>
    let text := Text.trim words
    let level := Text.ofNat (line.count '#')
    "<h" ++ level ++ " id=\"" ++ anchor text ++ "\">" ++ text ++ "</h" ++ level ++ ">"

def style : Text :=
  "\n                    <style>\n                    body \x7b font-family: \"Segoe UI Emoji\", \"Arial\", sans-serif; \x7d\n                    </style>\n                    "

def page (text : Text) : Text := style ++ Text.unlines ((Text.splitOnChar '\n' text).map markLine)

def missing : Text := "Content not available."

end FunctionDocs.Window.Help
