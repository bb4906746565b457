import FunctionDocs.Window.Session

/-!
# The layout of the pages

What stands on each page, from top to bottom, and the texts that can be read there. A part that is folded away can be read all
the same.
-/

namespace FunctionDocs.Window

/-- What stands on a page. -/
inductive Item where
  /-- A text that never changes. -/
  | text (t : Text)
  | caption (c : Caption)
  | field (f : Field)
  | combo (k : Combo)
  /-- A part that can be folded away, with what it holds. -/
  | fold (g : Fold) (items : List Item)
  | log
  | help

def startItems : List Item :=
  [.field .config, .caption (.button .selectConfig), .caption (.button .saveConfig), .field .source,
   .caption (.button .selectSourceFile), .caption (.button .selectSourceDir), .caption (.button .generate),
   .caption (.label .status), .caption (.button .openReports)]

def generalItems : List Item :=
  [.caption (.check .readOnly), .caption (.check .recursive), .caption (.label .backup), .field .backup,
   .caption (.button .selectBackup)]

def documentItems : List Item :=
  [.caption (.check .highlightTodo), .caption (.check .showProgress), .caption (.label .title), .field .title,
   .caption (.label .version), .field .version, .caption (.label .author), .field .author, .caption (.label .date),
   .field .date, .caption (.label .logo), .field .logo]

def outputItems : List Item :=
  [.caption (.label .formats), .combo .formats, .caption (.label .headerStyle), .combo .headerStyle,
   .caption (.label .output), .field .output, .caption (.button .selectOutput)]

def aboutItems (now : Moment) : List Item :=
  [.text ("<b>" ++ App.title ++ "</b>"), .text ("Software Version: " ++ App.version), .text ("Author: " ++ App.author),
   .text (Notice.text .repository), .text (Notice.text .changelog), .text App.description,
   .text "🔄 Check for Update", .text "<b>License:</b>", .text (App.licenseText now)]

def Tab.items (now : Moment) : Tab → List Item
  | .start => startItems
  | .settings =>
    [.caption (.label .language), .combo .language, .fold .general generalItems, .fold .document documentItems,
     .fold .output outputItems]
  | .log => [.log, .caption (.button .openLog)]
  | .about => aboutItems now
  | .help => [.help]

def readable (v : Value) : List Value := if v.isTrue then [v] else []

mutual

def Item.texts (w : View) : Item → List Value
  | .text t => readable (.str t)
  | .caption c => readable (w.captions c)
  | .field f => [w.captions (.hint f)]
  | .combo k => [.list (w.entries k)]
  | .fold g items => .str (w.foldSign g) :: readable (w.captions (.fold g)) ++ itemTexts w items
  | .log => readable (.str (Text.unlines w.lines))
  | .help => readable (.str w.help)

def itemTexts (w : View) : List Item → List Value
  | [] => []
  | i :: is => i.texts w ++ itemTexts w is

end

def readTab (t : Tab) : WindowM (List Value) := do
  let s ← get
  return itemTexts s.view (t.items s.world.now)

/-- The texts that can be read in the dialog, if there is one. -/
def readDialog : WindowM (Option (List Value)) := do
  return (← WindowM.view).dialog.map fun d => readable (.str d.content)

end FunctionDocs.Window
