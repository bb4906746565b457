import FunctionDocs.Report.Draft
import FunctionDocs.Text.Case

/-!
# The report as a Markdown document

The Markdown form of a documentation: a head, the progress, a table of contents and one section for each function, in which the
tags of its comment become labels.
-/

namespace FunctionDocs.Report.Markdown

open Coverage (Figures bar)

/-- A tag with the words under it, if a tag was read yet. -/
structure Section where
  tag : Option Text
  words : List Text

/-- The name that a tag such as `@param` carries. -/
def nameIn (tag : Text) : Text := (Text.words tag)[1]?.getD []

/-- The line of a tag: a bold label and the words under the tag. -/
def labelled (tag content : Text) : Text :=
  if tag == "@brief" then "**🔹 Description:** " ++ content
  else if Text.startsWith tag "@param" then "- **Parameter `" ++ nameIn tag ++ "`**: " ++ content
  else if Text.startsWith tag "@tparam" then "- **Template Parameter `" ++ nameIn tag ++ "`**: " ++ content
  else if tag == "@return" then "**🔁 Return value:** " ++ content
  else if tag == "@note" then "> 💡 **Note:** " ++ content
  else "- **" ++ Text.capitalize (Text.dropLeft (· == '@') tag) ++ ":** " ++ content

/-- The line of a section; text before the first tag gives none. -/
def Section.line (s : Section) : List Text :=
  match s.tag with
  | some tag => [labelled tag (Text.trim (Text.joinWith " " s.words))]
  | none => []

/-- At most the first two words of a text, and the rest of it. -/
def firstWords (t : Text) : List Text :=
  match Text.firstWord? t with
  | none => []
  | some (a, none) => [a]
  | some (a, some r) =>
    match Text.firstWord? r with
    | none => [a]
    | some (b, none) => [a, b]
    | some (b, some rest) => [a, b, rest]

def beginSection (line : Text) : Section :=
  match firstWords line with
  | [] => ⟨none, []⟩
  | tag :: more =>
    if tag == "@param" || tag == "@tparam" then
      match more with
      | [] => ⟨some tag, []⟩
      | name :: text => ⟨some (tag ++ " " ++ name), text⟩
    else
      match more with
      | [] => ⟨some tag, []⟩
      | _ => ⟨some tag, [Text.joinWith " " more]⟩

/-- The text of a line of a comment, without its frame; empty if the line is frame only. -/
def bodyText (line : Text) : Text :=
  let bare := Text.trim line
  if bare == "/*" || bare == "/**" || bare == "*/" then []
  else Text.trim (Text.dropLeft (· == '*') bare)

/-- The lines of the sections from here on, with the section under way. -/
def sectionLines (s : Section) : List Text → List Text
  | [] => s.line
  | l :: ls =>
    let body := bodyText l
    if body.isEmpty then sectionLines s ls
    else if Text.startsWith body "@" then s.line ++ sectionLines (beginSection body) ls
    else sectionLines ⟨s.tag, s.words ++ [body]⟩ ls

def commentLines (comment : Text) : List Text :=
  sectionLines ⟨none, []⟩ (Text.splitOnChar '\n' (Text.trim comment))

def formatComment (comment : Text) : Text := Text.unlines (commentLines comment)

def header (info : Value) : Draft :=
  Draft.needing (Value.valueOr info "logoPath" .null) fun logo =>
    (if logo.isTrue then
      [.ok ("<img src=\"" ++ logo.display ++ "\" alt=\"Logo\" style=\"max-height: 100px;\">\n\n")]
    else []) ++
    [do return "# " ++ (← Value.fieldOf info "title").display ++ "\n\n",
     do return "**Version**: " ++ (← Value.fieldOr info "version" "Unknown") ++ "\n",
     do return "**Autor**: " ++ (← Value.fieldOr info "author" "Unknown") ++ "\n",
     do return "**Datum**: " ++ (← Value.fieldOr info "date" "Unknown") ++ "\n\n",
     .ok "<a id=\"top\"></a>"]

def detail (fs : Figures) (label done total percent : Text) : Draft :=
  [do return "- **" ++ label ++ "**: " ++ Text.ofInt (← fs.get done) ++ " / " ++ Text.ofInt (← fs.get total) ++
      " documented\n",
   do
    let p ← fs.get percent
    return "  `" ++ bar p 20 ++ "` **" ++ Text.ofInt p ++ "%**\n\n"]

def progress (fs : Figures) : Draft :=
  Draft.needing (fs.get "percent_done") fun percent =>
    [.ok "## 📊 Overall Documentation progress\n\n",
     do return Text.ofInt (← fs.get "done_funcs") ++ " of " ++ Text.ofInt (← fs.get "total_funcs") ++
        " functions are **finished documented**\n\n",
     .ok ("`" ++ bar percent 20 ++ "` **" ++ Text.ofInt percent ++ "%**\n\n"),
     .ok "\n## 🛠️ Detailed TODO-Statistics\n\n"] ++
    detail fs "Brief" "brief_done" "total_funcs" "percent_brief_done" ++
    detail fs "Template Params" "tparams_done" "total_tparams" "percent_tparams_done" ++
    detail fs "Params" "params_done" "total_params" "percent_params_done" ++
    detail fs "Return" "return_done" "total_funcs" "percent_return_done"

def tocLine (highlight : Bool) (e : Entry) : Except Failure Text := do
  let marker ← markerOf highlight e
  let name ← e.name!
  return "- [" ++ marker.text ++ name ++ "](#" ++ Text.toLower name ++ ")\n"

def templateText : Option Text → Text
  | some t => t
  | none => "None"

def signature (e : Entry) : Except Failure Text := do
  let returnType ← e.returnType!
  let name ← e.name!
  let template ← require "templateParams" e.templateParams
  let params ← e.params!
  return "**Signatur:** `" ++ returnType ++ " " ++ name ++ "(" ++ templateText template ++ ")(" ++ params ++ ")`\n\n"

def functionPieces (highlight : Bool) (e : Entry) : Draft :=
  Draft.needing (do return (← markerOf highlight e, ← fileNote e)) fun (marker, note) =>
    [do return "## " ++ marker.text ++ "`" ++ (← e.name!) ++
        "` <a href='#top' style='float:right; font-size: 12px;'>🔝 Back to Top</a>\n",
     signature e] ++
    match e.doxygen.join with
    | none => []
    | some comment =>
      if comment.isEmpty then []
      else
        (if marker = .pending then [.ok "> ⚠️ **Warning: Function contains a TODO mark!**\n\n"] else []) ++
        [.ok "### 📘 Documentation\n", .ok (note ++ "\n\n"), .ok (formatComment comment ++ "\n\n")]

def footer (arguments : Value) : Draft :=
  Draft.needing (softwareVersion arguments) fun version =>
    [.ok "\n---\n", .ok ("<div align='right'>SW-Version: " ++ version ++ "</div>\n")]

/-- The whole document; it is not begun if nothing is known of it. -/
def page (es : List Entry) (arguments : Value) (fs : Figures) : Except Failure Draft := do
  let info ← Value.fieldOf arguments "document"
  let highlight := (← Value.valueOr info "highlightTodo" (.bool false)).isTrue
  let showProgress := (← Value.valueOr info "showDocProgress" (.bool true)).isTrue
  return header info ++ (if showProgress then progress fs else []) ++ [.ok "## 📚 Table of Content\n\n"] ++
    es.map (tocLine highlight) ++ [.ok "\n"] ++ es.flatMap (functionPieces highlight) ++ footer arguments

end FunctionDocs.Report.Markdown
