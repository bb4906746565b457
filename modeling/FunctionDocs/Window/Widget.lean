import FunctionDocs.Text.Basic

/-!
# Widgets

The parts of the window, by kind, and the places in it that show a phrase of the chosen language. Each such place has the key
of its phrase.
-/

namespace FunctionDocs.Window

inductive Field where
  | config
  | source
  | backup
  | title
  | version
  | author
  | date
  | logo
  | output
  deriving DecidableEq, Repr

inductive Check where
  | readOnly
  | recursive
  | highlightTodo
  | showProgress
  deriving DecidableEq, Repr

/-- A list of entries, one of which is chosen. -/
inductive Combo where
  | language
  | formats
  | headerStyle
  deriving DecidableEq, Repr

inductive Button where
  | selectConfig
  | saveConfig
  | selectSourceFile
  | selectSourceDir
  | generate
  | openReports
  | selectBackup
  | selectOutput
  | openLog
  | darkMode
  deriving DecidableEq, Repr

/-- A label that shows a phrase. -/
inductive Label where
  | status
  | language
  | backup
  | title
  | version
  | author
  | date
  | logo
  | formats
  | headerStyle
  | output
  deriving DecidableEq, Repr

/-- A label with a text that never changes. -/
inductive Notice where
  | darkMode
  | repository
  | changelog
  deriving DecidableEq, Repr

/-- A label that shows a picture. -/
inductive Picture where
  | logo
  | paypal
  | kofi
  | github
  deriving DecidableEq, Repr

/-- A part of the settings that can be folded away. -/
inductive Fold where
  | general
  | document
  | output
  deriving DecidableEq, Repr

/-- A page of the window. -/
inductive Tab where
  | start
  | settings
  | log
  | about
  | help
  deriving DecidableEq, Repr

/-- Any part of the window. -/
inductive Widget where
  | field (f : Field)
  | check (c : Check)
  | combo (k : Combo)
  | button (b : Button)
  | label (l : Label)
  | notice (n : Notice)
  | picture (p : Picture)
  | fold (g : Fold)
  | tab (t : Tab)
  | tabs
  | logText
  deriving DecidableEq, Repr

/-- A place in the window that shows a phrase. -/
inductive Caption where
  | tab (t : Tab)
  /-- What the last page says of itself when it is pointed at. -/
  | helpTip
  /-- What an empty text field says of itself. -/
  | hint (f : Field)
  | check (c : Check)
  | entry (k : Combo) (i : Nat)
  | button (b : Button)
  | label (l : Label)
  | fold (g : Fold)
  deriving DecidableEq, Repr

def Field.key : Field → Text
  | .config => "startTab.ConfigPathPlaceHolder"
  | .source => "startTab.FileInputPlaceHolder"
  | .backup => "settingsTab.BackupDirPlaceHolder"
  | .title => "settingsTab.titlePlaceHolder"
  | .version => "settingsTab.docVersionPlaceHolder"
  | .author => "settingsTab.docAuthorPlaceHolder"
  | .date => "settingsTab.docDatePlaceHolder"
  | .logo => "settingsTab.docLogoPlaceHolder"
  | .output => "settingsTab.OutputPathInputPlaceholder"

def Check.key : Check → Text
  | .readOnly => "settingsTab.ReadOnlyCheckBox"
  | .recursive => "settingsTab.RecursiveCheckbox"
  | .highlightTodo => "settingsTab.HighlightToDoCheckbox"
  | .showProgress => "settingsTab.showDocProgressCheckbox"

def Combo.keys : Combo → List Text
  | .language => ["settingsTab.EnglishSuffix", "settingsTab.GermanSuffix"]
  | .formats => ["settingsTab.HMTLprefix", "settingsTab.MDprefix", "settingsTab.Allprefix"]
  | .headerStyle => ["settingsTab.Doxygenprefix", "settingsTab.Defaultprefix"]

/-- The key of a button; one button shows a picture only. -/
def Button.key : Button → Text
  | .selectConfig => "startTab.SelectConfigFileButton"
  | .saveConfig => "startTab.SaveConfigFileButton"
  | .selectSourceFile => "startTab.SelectSourceFileButton"
  | .selectSourceDir => "startTab.SelectSourceDirButton"
  | .generate => "startTab.CreateDocButton"
  | .openReports => "startTab.OpenOutputDirButton"
  | .selectBackup => "settingsTab.BackupDirButton"
  | .selectOutput => "settingsTab.OutputDirButton"
  | .openLog => "loggingTab.OpenOutputLogDirButton"
  | .darkMode => []

def Label.key : Label → Text
  | .status => "states.ready"
  | .language => "settingsTab.LangComboLabel"
  | .backup => "settingsTab.BackupDirLabel"
  | .title => "settingsTab.titleLabel"
  | .version => "settingsTab.docVersionLabel"
  | .author => "settingsTab.docAuthorLabel"
  | .date => "settingsTab.docDateLabel"
  | .logo => "settingsTab.docLogoLabel"
  | .formats => "settingsTab.OutputFormatInputLabel"
  | .headerStyle => "settingsTab.HeaderCommentStyleLabel"
  | .output => "settingsTab.OutputPathInputLabel"

def Fold.key : Fold → Text
  | .general => "settingsTab.GeneralSettingsExpandable"
  | .document => "settingsTab.DocSettingsExpandable"
  | .output => "settingsTab.OutputSettingsExpandable"

def Tab.key : Tab → Text
  | .start => "mainTabs.start"
  | .settings => "mainTabs.settings"
  | .log => "mainTabs.log"
  | .about => "mainTabs.about"
  | .help => "mainTabs.help"

def Caption.key : Caption → Text
  | .tab t => t.key
  | .helpTip => "mainTabs.helpToolTip"
  | .hint f => f.key
  | .check c => c.key
  | .entry k i => k.keys[i]?.getD []
  | .button b => b.key
  | .label l => l.key
  | .fold g => g.key

/-- The places on the pages, in the order in which they are filled. -/
def pageCaptions : List Caption :=
  ([.hint .config, .button .selectConfig, .button .saveConfig, .hint .source, .button .selectSourceFile,
    .button .selectSourceDir, .button .generate, .label .status, .button .openReports] : List Caption) ++
  ([.entry .language 0, .entry .language 1, .label .language, .check .readOnly, .check .recursive, .hint .backup,
    .label .backup, .button .selectBackup, .fold .general] : List Caption) ++
  ([.check .highlightTodo, .check .showProgress, .hint .title, .label .title, .hint .version, .label .version,
    .hint .author, .label .author, .hint .date, .label .date, .hint .logo, .label .logo, .fold .document] : List Caption) ++
  ([.entry .formats 0, .entry .formats 1, .entry .formats 2, .label .formats, .entry .headerStyle 0,
    .entry .headerStyle 1, .label .headerStyle, .hint .output, .label .output, .button .selectOutput,
    .fold .output] : List Caption) ++ [.button .openLog]

/-- The names of the pages, in the order in which they are filled. -/
def tabCaptions : List Caption :=
  [.tab .start, .tab .settings, .tab .log, .tab .about, .tab .help, .helpTip]

/-- The places that are filled anew when another language is chosen, in that order. -/
def renewedCaptions : List Caption :=
  tabCaptions ++
  ([.hint .config, .hint .source, .button .selectConfig, .button .selectSourceFile, .button .selectSourceDir,
    .button .generate, .label .status, .button .openReports] : List Caption) ++
  ([.label .language, .check .readOnly, .check .recursive, .label .backup, .hint .backup, .button .selectBackup,
    .fold .general] : List Caption) ++
  ([.check .highlightTodo, .check .showProgress, .hint .title, .label .title, .hint .version, .label .version,
    .hint .author, .label .author, .hint .date, .label .date, .hint .logo, .label .logo, .fold .document] : List Caption) ++
  ([.label .formats, .entry .formats 0, .entry .formats 1, .entry .formats 2, .label .headerStyle, .entry .headerStyle 0,
    .entry .headerStyle 1, .label .output, .hint .output, .button .selectOutput, .fold .output,
    .button .openLog] : List Caption)

end FunctionDocs.Window
