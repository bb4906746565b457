import FunctionDocs.Json.Value

/-!
# The languages of the window

All phrases, by their keys, in each language that comes with the program.
-/

namespace FunctionDocs.App.Languages

def sectionOf (phrases : List (String × String)) : Value := .obj (phrases.map fun p => (p.1.toList, .str p.2.toList))

def englishMainTabs : List (String × String) := [
  ("start", "start"),
  ("settings", "settings"),
  ("log", "log"),
  ("about", "about"),
  ("help", "help"),
  ("helpToolTip", "Show help (also via F1 key available)")]

def englishStartTab : List (String × String) := [
  ("ConfigPathPlaceHolder", "Select config file"),
  ("FileInputPlaceHolder", "(optional) Select specific source file"),
  ("SelectConfigFileButton", "Select Config File"),
  ("SaveConfigFileButton", "💾 Save Config File"),
  ("SelectSourceFileButton", "Select Source File"),
  ("SelectSourceDirButton", "Select Source Dir"),
  ("CreateDocButton", "Create Documentation"),
  ("OpenOutputDirButton", "📂 Open Output-Folder")]

def englishSettingsTab : List (String × String) := [
  ("EnglishSuffix", "en"),
  ("GermanSuffix", "de"),
  ("LangComboLabel", "Language:"),
  ("ReadOnlyCheckBox", "Readonly mode (no formatting)"),
  ("RecursiveCheckbox", "Rekursive search in sourcedirectory"),
  ("BackupDirPlaceHolder", "Backup directory (default: './docs/backup')"),
  ("BackupDirLabel", "(Optional) Backup Directory:"),
  ("BackupDirButton", "Select Backup Directory"),
  ("GeneralSettingsExpandable", "General Settings"),
  ("HighlightToDoCheckbox", "Highlight ToDo comments"),
  ("showDocProgressCheckbox", "Show Documentation Progress"),
  ("titlePlaceHolder", "Document title (e.g. '📄 Project Specific C++ Documentation')"),
  ("titleLabel", "Document Title:"),
  ("docVersionPlaceHolder", "Document version (e.g. 'v1.0.0')"),
  ("docVersionLabel", "Document Version:"),
  ("docAuthorPlaceHolder", "Document author (e.g. 'Max Mustermann')"),
  ("docAuthorLabel", "Document Author:"),
  ("docDatePlaceHolder", "e.g. '2023-10-01'"),
  ("docDateLabel", "Creation date:"),
  ("docLogoPlaceHolder", "Document logo path (e.g. './assets/logo.svg')"),
  ("docLogoLabel", "Document Logo Path:"),
  ("DocSettingsExpandable", "Document Settings"),
  ("HMTLprefix", "html"),
  ("MDprefix", "md"),
  ("Allprefix", "all"),
  ("OutputFormatInputLabel", "Output Format:"),
  ("Doxygenprefix", "doxygen"),
  ("Defaultprefix", "default"),
  ("HeaderCommentStyleLabel", "Header Comment Style:"),
  ("OutputPathInputPlaceholder", "Output path without extension (e.g. './docs/Documentation_<version>')"),
  ("OutputPathInputLabel", "Output Path:"),
  ("OutputDirButton", "Select Output directory"),
  ("OutputSettingsExpandable", "Output Settings")]

def englishLoggingTab : List (String × String) := [
  ("OpenOutputLogDirButton", "📂 Open Log-Dir-Folder")]

def englishStates : List (String × String) := [
  ("ready", "State: Ready")]

def english : Value := .obj [
  ("welcome", .str "Welcome"),
  ("exit", .str "Exit"),
  ("mainTabs", sectionOf englishMainTabs),
  ("startTab", sectionOf englishStartTab),
  ("settingsTab", sectionOf englishSettingsTab),
  ("loggingTab", sectionOf englishLoggingTab),
  ("states", sectionOf englishStates)]

def germanMainTabs : List (String × String) := [
  ("start", "Startseite"),
  ("settings", "Einstellungen"),
  ("log", "Protokoll"),
  ("about", "Über"),
  ("help", "Hilfe"),
  ("helpToolTip", "Hilfe anzeigen (auch über F1-Taste)")]

def germanStartTab : List (String × String) := [
  ("ConfigPathPlaceHolder", "Konfig Datei auswählen"),
  ("FileInputPlaceHolder", "(optional) spezifische Quelldatei auswahlen"),
  ("SelectConfigFileButton", "Konfig Datei auswählen"),
  ("SaveConfigFileButton", "💾 Konfig Datei speichern"),
  ("SelectSourceFileButton", "Quelldatei"),
  ("SelectSourceDirButton", "Quellverzeichnis"),
  ("CreateDocButton", "Dokumentation erstellen"),
  ("OpenOutputDirButton", "📂 Zielverzeichnis öffnen")]

def germanSettingsTab : List (String × String) := [
  ("EnglishSuffix", "en"),
  ("GermanSuffix", "de"),
  ("LangComboLabel", "Sprache:"),
  ("ReadOnlyCheckBox", "Schreibgeschüter Modus (keine Formatierung)"),
  ("RecursiveCheckbox", "Rekursive Suche in Quellverzeichnissen"),
  ("BackupDirPlaceHolder", "Backupverzeichnis (standard: './docs/backup')"),
  ("BackupDirLabel", "(Optional) Backupverzeichnis:"),
  ("BackupDirButton", "Backupverzeichnis auswählen"),
  ("GeneralSettingsExpandable", "Generelle Einstellungen"),
  ("HighlightToDoCheckbox", "TODO Kommentare hervorheben"),
  ("showDocProgressCheckbox", "Dokumentationsfortschritt anzeigen"),
  ("titlePlaceHolder", "Dokument Titel (z.B. '📄 Projektspezifische C++ Dokumentation')"),
  ("titleLabel", "Dokument Titel:"),
  ("docVersionPlaceHolder", "Dokument Version (z.B. 'v1.0.0')"),
  ("docVersionLabel", "Dokument Version:"),
  ("docAuthorPlaceHolder", "Dokument Author (z.B. 'Max Mustermann')"),
  ("docAuthorLabel", "Dokument Author:"),
  ("docDatePlaceHolder", "e.g. '27.05.2024'"),
  ("docDateLabel", "Erstellungsdatum:"),
  ("docLogoPlaceHolder", "Dokument Logopfad (z.B. './assets/logo.svg')"),
  ("docLogoLabel", "Dokument Logopfad:"),
  ("DocSettingsExpandable", "Dokument Einstellungen"),
  ("HMTLprefix", "html"),
  ("MDprefix", "md"),
  ("Allprefix", "alle"),
  ("OutputFormatInputLabel", "Ausgabeformat:"),
  ("Doxygenprefix", "doxygen"),
  ("Defaultprefix", "standard"),
  ("HeaderCommentStyleLabel", "Kopfzeilen Kommentarstyl:"),
  ("OutputPathInputPlaceholder", "Ausgabepfad ohne Dateiendung (z.B. './docs/Dokumentation_<version>')"),
  ("OutputPathInputLabel", "Ausgabepfad:"),
  ("OutputDirButton", "Ausgabeverzeichnis auswahlen"),
  ("OutputSettingsExpandable", "Ausgabe Einstellungen")]

def germanLoggingTab : List (String × String) := [
  ("OpenOutputLogDirButton", "📂 Log Verzeichnis öffnen")]

def germanStates : List (String × String) := [
  ("ready", "Status: Bereit")]

def german : Value := .obj [
  ("welcome", .str "Willkommen"),
  ("exit", .str "Beenden"),
  ("mainTabs", sectionOf germanMainTabs),
  ("startTab", sectionOf germanStartTab),
  ("settingsTab", sectionOf germanSettingsTab),
  ("loggingTab", sectionOf germanLoggingTab),
  ("states", sectionOf germanStates)]

end FunctionDocs.App.Languages
