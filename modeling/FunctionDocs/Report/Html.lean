import FunctionDocs.Report.Draft

/-!
# The report as a web page

The pages of a documentation: a head, the progress, a table of contents, one section for each function and a foot.
-/

namespace FunctionDocs.Report.Html

open Coverage (Figures)

def escape (t : Text) : Text :=
  t.flatMap fun c =>
    if c == '&' then "&amp;"
    else if c == '<' then "&lt;"
    else if c == '>' then "&gt;"
    else if c == '"' then "&quot;"
    else if c == '\'' then "&#x27;"
    else [c]

def logoOf (info : Value) : Except Failure Text := do
  let logo ← Value.valueOr info "logoPath" .null
  if logo.isTrue then
    return "<div style=\"text-align:left; margin-bottom: 20px;\"><img src=\"file:///" ++ logo.display ++
      "\" alt=\"Logo\" style=\"max-height: 100px;\"></div>"
  else return []

def headPage (title logo heading version author date : Text) : Text :=
  "
<!DOCTYPE html>
<html>
<head>
    <meta charset=\"UTF-8\">
    <title>" ++ title ++ " - Functional Documentation</title>
    <style>
        body \x7b font-family: Arial, sans-serif; background: #f2f2f2; color: #333; padding: 20px; \x7d
        h1 \x7b color: #004080; text-align: center; \x7d
        h2 \x7b margin-top: 30px; color: #0066cc; \x7d
        .code-block \x7b
            background: #fff;
            border: 1px solid #ccc;
            padding: 10px;
            font-family: monospace;
            white-space: pre-wrap;
            border-radius: 6px;
            box-shadow: 1px 1px 3px #ccc;
        \x7d
        .doxygen-comment \x7b
            background: #e8f0fe;
            border-left: 4px solid #3367d6;
            margin-top: 10px;
            padding: 10px;
            font-family: monospace;
            white-space: pre-wrap;
            border-radius: 5px;
            display: none;
        \x7d
        .doxygen-comment.show \x7b display: block; \x7d
        .doxygen-comment span.brief \x7b color: #0b5394; font-weight: bold; \x7d
        .doxygen-comment span.param \x7b color: #38761d; \x7d
        .doxygen-comment span.return \x7b color: #990000; \x7d
        .doxygen-comment span.note \x7b color: #8a2be2; font-style: italic; \x7d
        .doxygen-comment span.tag \x7b color: #999; font-style: italic; \x7d
        button.toggle-btn \x7b
            margin-top: 5px;
            margin-bottom: 10px;
            padding: 5px 10px;
            border-radius: 4px;
            border: none;
            background: #004080;
            color: white;
            cursor: pointer;
            transition:
            background 0.3s ease;
        \x7d
        button.toggle-btn.active \x7b background: #28a745; \x7d
        .print-btn \x7b
            position: fixed;
            top: 10px;
            right: 10px;
            background: #28a745;
            color: white;
            border: none;
            padding: 8px 14px;
            border-radius: 5px;
            cursor: pointer;
            font-size: 14px;
        \x7d
        @media print \x7b .print-btn, .toggle-btn \x7b display: none; \x7d \x7d
        ul.toc \x7b background: #ffffff; padding: 15px; border-radius: 10px; box-shadow: 1px 1px 5px #aaa; list-style: none; \x7d
        ul.toc li \x7b margin-bottom: 8px; \x7d
        ul.toc li a \x7b text-decoration: none; color: #004080; font-weight: bold; \x7d
    </style>
    <script>
        function toggleComment(id, button) \x7b
            const block = document.getElementById(id);
            const isVisible = block.classList.contains('show');
            block.classList.toggle('show', !isVisible);
            button.classList.toggle('active', !isVisible);
            button.innerText = isVisible ? \"📘 Show Comments\" : \"📘 Hide Comments\";
        \x7d
        function printDoc() \x7b
            window.print();
        \x7d
    </script>
</head>
<body>
    <a id=\"top\"></a>
    <button class=\"print-btn\" onclick=\"printDoc()\">🖨️ Print</button>

    " ++ logo ++ "

    <!-- Document Overview -->
    <h1>" ++ heading ++ "</h1>
    <p><strong>Version:</strong> " ++ version ++ "</p>
    <p><strong>Autor:</strong> " ++ author ++ "</p>
    <p><strong>Datum:</strong> " ++ date ++ "</p>
"

/-- The head of the page, with what is known of the document. -/
def header (info : Value) : Draft :=
  [do
    let logo ← logoOf info
    let title ← Value.fieldOr info "title" "Functional Documentation"
    let heading ← Value.fieldOr info "title" "Funcitonal Documentation"
    let version ← Value.fieldOr info "version" "1.0"
    let author ← Value.fieldOr info "author" "Unbekannt"
    let date ← Value.fieldOr info "date" "Unbekannt"
    return headPage title logo heading version author date]

def figure (fs : Figures) (name : Text) : Except Failure Text := do
  return Text.ofInt (← fs.get name)

def overallProgress (fs : Figures) : Except Failure Text := do
  let doneFuncs ← figure fs "done_funcs"
  let totalFuncs ← figure fs "total_funcs"
  let percentDone ← figure fs "percent_done"
  return "
    <h2>📊 Overall Documentation progress</h2>
    <p>" ++ doneFuncs ++ " of " ++ totalFuncs ++ " functions are <strong>finished documented</strong>.</p>
    <div style='background-color: #eee; border-radius: 5px; overflow: hidden; width: 100%; max-width: 400px;'>
        <div style='background-color: #28a745; width: " ++ percentDone ++ "%; padding: 5px 0; text-align: center; color: white; font-weight: bold;'>
            " ++ percentDone ++ "%
        </div>
    </div>
    <br>
"

def detailedProgress (fs : Figures) : Except Failure Text := do
  let briefDone ← figure fs "brief_done"
  let totalFuncs ← figure fs "total_funcs"
  let percentBriefDone ← figure fs "percent_brief_done"
  let tparamsDone ← figure fs "tparams_done"
  let totalTparams ← figure fs "total_tparams"
  let percentTparamsDone ← figure fs "percent_tparams_done"
  let paramsDone ← figure fs "params_done"
  let totalParams ← figure fs "total_params"
  let percentParamsDone ← figure fs "percent_params_done"
  let returnDone ← figure fs "return_done"
  let percentReturnDone ← figure fs "percent_return_done"
  return "
    <h3 style='margin-top: 40px;'>🛠️ Detailed TODO-Statistics</h3>

    <div style=\"font-size: 0.9em; color: #555; max-width: 400px;\">
        <p><strong>Brief:</strong> " ++ briefDone ++ "/" ++ totalFuncs ++ "</p>
        <div style='background-color: #eee; border-radius: 3px; overflow: hidden; height: 14px; margin-bottom: 10px;'>
            <div style='
                background-color: #007bff;
                width: " ++ percentBriefDone ++ "%;
                height: 100%;
                text-align: right;
                padding-right: 4px;
                color: white;
                font-size: 10px;'>
                " ++ percentBriefDone ++ "%
            </div>
        </div>

        <p><strong>Template-Params:</strong> " ++ tparamsDone ++ "/" ++ totalTparams ++ "</p>
        <div style='background-color: #eee; border-radius: 3px; overflow: hidden; height: 14px; margin-bottom: 10px;'>
            <div style='
                background-color: #ffc107;
                width: " ++ percentTparamsDone ++ "%;
                height: 100%;
                text-align: right;
                padding-right: 4px;
                color: black;
                font-size: 10px;'>
                " ++ percentTparamsDone ++ "%
            </div>
        </div>

        <p><strong>Params:</strong> " ++ paramsDone ++ "/" ++ totalParams ++ "</p>
        <div style='background-color: #eee; border-radius: 3px; overflow: hidden; height: 14px; margin-bottom: 10px;'>
            <div style='
                background-color: #ffc107;
                width: " ++ percentParamsDone ++ "%;
                height: 100%;
                text-align: right;
                padding-right: 4px;
                color: black;
                font-size: 10px;'>
                " ++ percentParamsDone ++ "%
            </div>
        </div>

        <p><strong>Return:</strong> " ++ returnDone ++ "/" ++ totalFuncs ++ "</p>
        <div style='background-color: #eee; border-radius: 3px; overflow: hidden; height: 14px; margin-bottom: 10px;'>
            <div style='
                background-color: #17a2b8;
                width: " ++ percentReturnDone ++ "%;
                height: 100%;
                text-align: right;
                padding-right: 4px;
                color: white;
                font-size: 10px;'>
                " ++ percentReturnDone ++ "%
            </div>
        </div>
    </div>
"

def progress (fs : Figures) : Draft := [overallProgress fs, detailedProgress fs]

def tocLine (highlight : Bool) (e : Entry) : Except Failure Text := do
  let marker ← markerOf highlight e
  let name ← e.name!
  return "<li><a href='#" ++ name ++ "'>" ++ marker.text ++ name ++ "</a></li>
"

def toc (highlight : Bool) (es : List Entry) : Draft :=
  [.ok "
    <h2>📚 Table of Content</h2>
    <ul class=\"toc\">
"] ++ es.map (tocLine highlight) ++ [.ok "</ul>
"]

def pendingStyle : Text := "background-color: #fff3cd; border-left: 6px solid red; padding-left: 10px;"

def heading (marker : Marker) (e : Entry) : Except Failure Text := do
  let name ← e.name!
  let style := if marker = .pending then pendingStyle else []
  return "
        <div style='display: flex; align-items: center; justify-content: space-between; margin-top: 15px;'>
            <h2 id='" ++ name ++ "' style='margin: 0; " ++ style ++ "'>" ++ marker.text ++ name ++ "</h2>
            <a href='#top' style='font-size: 14px; color: #0066cc; text-decoration: none;'>🔝 Back to Top</a>
        </div>
        "

def warning : Text := "
                <div style='
                    margin-top: 8px;
                    color: #856404;
                    background-color: #fff3cd;
                    border: 1px solid #ffeeba;
                    padding: 10px;
                    border-radius: 4px;'>
                    ⚠️ <strong>Warning:</strong> Function contains a TODO mark!
                </div>
            "

def signature (e : Entry) : Except Failure Text := do
  let returnType ← e.returnType!
  let name ← e.name!
  let params ← e.params!
  return "<div class='code-block'>" ++ escape returnType ++ " " ++ escape name ++ "(" ++ escape params ++ ")</div>
"

def tagStyles : List (Text × Text) :=
  [("@brief", "brief"), ("@tparam", "param"), ("@param", "param"), ("@return", "return"), ("@note", "note")]

def span (style text : Text) : Text := "<span class='" ++ style ++ "'>" ++ text ++ "</span>"

def anyTag : Pattern := .seq (.lit "@") (.many isWordChar 1)

/-- The comment with its tags highlighted: first those with a style of their own, then all others. -/
def highlightTags (comment : Text) : Text :=
  let known := tagStyles.foldl (fun t s => Text.replaceAll t s.1 (span s.2 s.1)) comment
  anyTag.replace (fun m => if tagStyles.any (·.1 == m.text) then m.text else span "tag" m.text) known

def commentPieces (i : Nat) (e : Entry) (comment : Text) : Draft :=
  Draft.needing (fileNote e) fun note =>
    let id := "comment_" ++ Text.ofNat i
    [.ok ("<button class='toggle-btn active' onclick=\"toggleComment('" ++ id ++ "', this)\">📘 Hide comments</button>
"),
     .ok ("<div class='doxygen-comment show' id='" ++ id ++ "'>" ++ note ++ highlightTags comment ++ "</div>
")]

def functionPieces (highlight : Bool) (i : Nat) (e : Entry) : Draft :=
  Draft.needing (markerOf highlight e) fun marker =>
    [heading marker e] ++ (if marker = .pending then [.ok warning] else []) ++ [signature e] ++
      match e.doxygen.join with
      | some comment => if comment.isEmpty then [] else commentPieces i e comment
      | none => []

/-- The sections of the functions from number `i` on. -/
def functionsFrom (highlight : Bool) (i : Nat) : List Entry → Draft
  | [] => []
  | e :: es => functionPieces highlight i e ++ functionsFrom highlight (i + 1) es

def functions (highlight : Bool) (es : List Entry) : Draft := functionsFrom highlight 0 es

def footer (arguments : Value) : Draft :=
  [do
    let version ← softwareVersion arguments
    return "
    <div style=\"position: fixed; bottom: 10px; right: 10px; font-size: 12px; color: #666;\">
        SW-Version: " ++ version ++ "
    </div>
</body></html>
"]

/-- The whole page; it is not begun if nothing is known of the document. -/
def page (es : List Entry) (arguments : Value) (fs : Figures) : Except Failure Draft := do
  let info ← Value.fieldOf arguments "document"
  let highlight ← Value.valueOr info "highlightTodo" (.bool false)
  let showProgress ← Value.valueOr info "showDocProgress" (.bool true)
  return header info ++ (if showProgress.isTrue then progress fs else []) ++ toc highlight.isTrue es ++
    functions highlight.isTrue es ++ footer arguments

end FunctionDocs.Report.Html
