import FunctionDocs.App.License
import FunctionDocs.Release.Changelog
import FunctionDocs.Release.Modules
import FunctionDocs.Release.Requirements

/-!
# Building the installer

The steps from the sources to an installer: requirements, changelog, licence, version file, the program itself, the setup
script, and at last the quality of the sources.
-/

namespace FunctionDocs.Release

open WorldM App

def setupScript (name title version author date ending : Text) : Text :=
  Text.unlines (([
    [],
    "#define AppName \"" ++ title ++ "\"",
    "#define AppVersion \"" ++ version ++ "\"",
    "#define AppExeName \"" ++ name ++ "\"",
    "#define AppExeNameWithIndex \"" ++ name ++ ".exe\"",
    "#define AppFileIdentifier \"" ++ ending ++ "\"",
    [],
    "[Setup]",
    "AppId=\x7b#AppName\x7d",
    "AppName=\x7b#AppName\x7d",
    "AppVersion=\x7b#AppVersion\x7d",
    "AppPublisher=\"" ++ author ++ "\"",
    "AppComments=\"" ++ description ++ "\"",
    "AppSupportURL=\"" ++ repositoryPage ++ "\"",
    "DefaultDirName=\x7bautopf\x7d\\\x7b#AppName\x7d",
    "DefaultGroupName=\x7b#AppName\x7d",
    "OutputDir=.\\Installer",
    "OutputBaseFilename=\x7b#AppExeName\x7d_\x7b#AppVersion\x7d_Installer",
    "Compression=lzma",
    "SolidCompression=yes",
    "DisableProgramGroupPage=yes",
    "AlwaysShowDirOnReadyPage=yes",
    "UninstallDisplayName=\x7b#AppName\x7d",
    "UninstallDisplayIcon=\x7bapp\x7d\\\x7b#AppExeNameWithIndex\x7d",
    "LicenseFile=\x7b#AppName\x7d\\_internal\\assets\\LICENSE\\LICENSE.txt",
    "VersionInfoProductVersion=\x7b#AppVersion\x7d",
    "VersionInfoVersion=\x7b#AppVersion\x7d",
    "VersionInfoCopyright=\"@ " ++ author ++ " " ++ date ++ "\"",
    "VersionInfoCompany=\"" ++ author ++ "\""] : List Text) ++
    ([
    [],
    "[Files]",
    "Source: \"\x7b#AppName\x7d\\*\"; DestDir: \"\x7bapp\x7d\\\"; Flags: ignoreversion recursesubdirs createallsubdirs",
    [],
    "[Icons]",
    "Name: \"\x7bcommondesktop\x7d\\\x7b#AppName\x7d\"; Filename: \"\x7bapp\x7d\\\x7b#AppName\x7d.exe\"",
    "Name: \"\x7bgroup\x7d\\\x7b#AppName\x7d\"; Filename: \"\x7bapp\x7d\\\x7b#AppName\x7d.exe\"",
    [],
    "[Registry]",
    "; Mapping extension key \".cppdoc\" to App-File-Identifier",
    "Root: HKCR; Subkey: \".\x7b#AppFileIdentifier\x7d\"; ValueType: string; ValueName: \"\"; ValueData: \"\x7b#AppName\x7dFile\"; Flags: uninsdeletevalue",
    [],
    "; Definition of App-File-Identifier",
    "Root: HKCR; Subkey: \"\x7b#AppName\x7dFile\"; ValueType: string; ValueName: \"\"; ValueData: \"\x7b#AppName\x7dFile\"; Flags: uninsdeletevalue",
    "Root: HKCR; Subkey: \"\x7b#AppName\x7dFile\\DefaultIcon\"; ValueType: string; ValueName: \"\"; ValueData: \"\x7bapp\x7d\\_internal\\assets\\FileExtension.ico\"",
    "Root: HKCR; Subkey: \"\x7b#AppName\x7dFile\\shell\\open\\command\"; ValueType: string; ValueName: \"\"; ValueData: \"\"\"\x7bapp\x7d\\\x7b#AppExeNameWithIndex\x7d\"\" --config \"\"%1\"\"\"",
    [],
    "; contextmenu - \"open with CppCodeDoc\"",
    "Root: HKCR; Subkey: \"\x7b#AppName\x7dFile\\shell\\open\"; ValueType: string; ValueName: \"MUIVerb\"; ValueData: \"Open with \x7b#AppName\x7d\"; Flags: uninsdeletevalue",
    "Root: HKCR; Subkey: \"\x7b#AppName\x7dFile\\shell\\open\\command\"; ValueType: string; ValueName: \"\"; ValueData: \"\"\"\x7bapp\x7d\\\x7b#AppExeNameWithIndex\x7d\"\" --config \"\"%1\"\"\"",
    [],
    "[Run]",
    "Filename: \"\x7bapp\x7d\\\x7b#AppName\x7d.exe\"; Description: \"Start \x7b#AppName\x7d\"; Flags: nowait postinstall skipifsilent",
    [],
    "; Setup Icon-Cache to avoid system restart",
    "; Running on x64 Bit systems",
    "Filename: \"\x7bsysnative\x7d\\ie4uinit.exe\"; Parameters: \"-ClearIconCache\"; StatusMsg: \"Clearing Icon-Cache...\"; Flags: runhidden; Check: IsWin64",
    "Filename: \"\x7bsysnative\x7d\\ie4uinit.exe\"; Parameters: \"-show\"; StatusMsg: \"Refreshing Explorer-Icons...\"; Flags: runhidden; Check: IsWin64",
    "; Running on x32 Bit systems",
    "Filename: \"\x7bsys\x7d\\ie4uinit.exe\"; Parameters: \"-ClearIconCache\"; StatusMsg: \"Clearing Icon-Cache...\"; Flags: runhidden; Check: not IsWin64",
    "Filename: \"\x7bsys\x7d\\ie4uinit.exe\"; Parameters: \"-show\"; StatusMsg: \"Refreshing Explorer-Icons...\"; Flags: runhidden; Check: not IsWin64",
    []] : List Text))

/-- Writes the setup script next to the directory of the build scripts and gives its path. -/
def writeSetupScript (scripts name title version author date ending : Text) : WorldM Text := do
  let path := Path.join (Path.join scripts "..") (name ++ "_Installer.iss")
  change (·.writeText path (setupScript name title version author date ending))
  return path

/-- The first three numbers of a version, filled up with zeros, and a fourth that is zero. -/
def versionNumbers (version : Text) : Text :=
  Text.joinWith "," ((Text.splitOnChar '.' version ++ [['0'], ['0']]).take 3) ++ ",0"

def versionInfo (name title version description date author : Text) : Text :=
  let numbers := versionNumbers version
  Text.unlines [
    "# UTF-8",
    "VSVersionInfo(",
    "  ffi=FixedFileInfo(",
    "    filevers=(" ++ numbers ++ "),",
    "    prodvers=(" ++ numbers ++ "),",
    "    mask=0x3f,",
    "    flags=0x0,",
    "    OS=0x40004,",
    "    fileType=0x1,",
    "    subtype=0x0,",
    "    date=(0, 0)",
    "  ),",
    "  kids=[",
    "    StringFileInfo([",
    "      StringTable(",
    "        '040904B0',",
    "        [",
    "          StringStruct('CompanyName', '" ++ author ++ "'),",
    "          StringStruct('LegalCopyright', f'© " ++ author ++ " " ++ date ++ "'),",
    "          StringStruct('FileDescription', '" ++ description ++ "'),",
    "          StringStruct('FileVersion', '" ++ version ++ "'),",
    "          StringStruct('InternalName', '" ++ name ++ "'),",
    "          StringStruct('OriginalFilename', '" ++ name ++ ".exe'),",
    "          StringStruct('ProductName', '" ++ title ++ "'),",
    "          StringStruct('ProductVersion', '" ++ version ++ "'),",
    "          StringStruct('BuildDate', '" ++ date ++ "')",
    "        ]",
    "      )",
    "    ]),",
    "    VarFileInfo([VarStruct('Translation', [1033, 1200])])",
    "  ]",
    ")"]

def writeVersionFile (scripts name title version description date author : Text) : WorldM Text := do
  let path := Path.join scripts "version_info.txt"
  change (·.writeText path (versionInfo name title version description date author))
  return path

/-- The latest tag; none if there is no tag yet. -/
def latestTag : WorldM (Option Text) :=
  recover (do
    let (out, _) ← startChecked ["git", "describe", "--tags", "--abbrev=0"] none none
    return some (Text.trim out)) fun
      | .processFailed _ _ => return none
      | f => fail f

def isRangeChar (c : Char) : Bool := isWordChar c || List.elem c ['.', '-', '/']

def rangeSince : Option Text → Text
  | none => "HEAD"
  | some tag => if tag.isEmpty then "HEAD" else tag ++ "..HEAD"

def shownTag : Option Text → Text
  | some tag => tag
  | none => "None"

def recordCommits (version : Text) (commits : List Commit) : WorldM Text := do
  let body := Changelog.body commits
  let w ← get
  let content ← if w.tree.pathExists "changelog.md" then look (·.readText "changelog.md") else pure []
  let save (content message : Text) : WorldM Unit := do
    print message
    change (·.writeText "changelog.md" (Text.trim content ++ "\n"))
  match ← settle (Changelog.update version body content) with
  | .current => print ("🔁 Changelog for Version " ++ version ++ " already exists and is up-to-date.")
  | .extended content => save content ("🔁 Changelog-Entry for Version " ++ version ++ " appended.")
  | .started content => save content ("🆕 New Changelog-Entry for version " ++ version ++ " added.")
  return Changelog.sectionText version body

/-- Brings the changelog up to date with the commits since the latest tag; gives the new section, empty if there is none. -/
def updateChangelog (version : Text) : WorldM Text := do
  let tag ← latestTag
  print ("Last Tag: " ++ shownTag tag)
  let range := rangeSince tag
  if !range.all isRangeChar then fail (.suspectRange range)
  recover (do
    let (log, _) ← startChecked ["git", "log", range, "--pretty=format:%s"] none none
    match commitsOf log with
    | [] =>
      print ("⚠️ Keine changelog-relevanten Commits seit Tag " ++ shownTag tag ++ ".")
      return []
    | commits => recordCommits version commits) fun
      | .processFailed command code => do
        print ("Error while creating the changelog: " ++ (Failure.processFailed command code).message)
        return []
      | f => fail f

def writeLicense : WorldM Unit := do
  let text := Text.trim (licenseText (← get).now) ++ "\n\n" ++ License.full
  change (·.writeText "LICENSE.txt" text)

def isScriptPathChar (c : Char) : Bool := isWordChar c || isBlank c || List.elem c ['-', '.', '/', ':', '\\']

def buildSetup (path : Text) : WorldM Unit := do
  if !(← get).tree.isFile path then fail (.scriptMissing path)
  if !Text.endsWith (Text.toLower path) ".iss" || !path.all isScriptPathChar then fail (.suspectScript path)
  let (code, out, _) ← start ["C:\\Program Files (x86)\\Inno Setup 6\\ISCC.exe", path] none none
  printRaw out
  if code != 0 then print ("ISCC.exe exited with code " ++ Text.ofInt code)
  else print "Compiling successfully!"

def isMissing : Failure → Bool
  | .notFound _ => true
  | .scriptMissing _ => true
  | .refused kind _ => kind == "FileNotFoundError"
  | _ => false

/-- Builds a setup program; a failure is reported only. -/
def compileSetup (path : Text) : WorldM Unit :=
  recover (buildSetup path) fun f =>
    if isMissing f then print ("FileError: " ++ f.message) else print ("Unkown Error: " ++ f.message)

def qualityMessage (code : Int) : Text :=
  if code = 0 then "✅ No issues found."
  else if code = 1 then "❌ Fatal message issued."
  else if code = 2 then "❌ Error message issued."
  else if code = 4 then "⚠️ Warning message issued."
  else if code = 8 then "ℹ️ Refactor message issued."
  else if code = 16 then "ℹ️ Convention message issued."
  else if code = 30 then "❌ Score below threshold (--fail-under)."
  else if code = 32 then "❌ Usage error."
  else if code = 64 then "❌ Internal pylint error."
  else "⚠️ Unknown exit code: " ++ Text.ofInt code

def isAcceptable (code : Int) : Bool := code == 0 || code == 4 || code == 8 || code == 16

def collectFindings (sources findings : Text) (least : Value) : WorldM Unit := do
  let bar : List Text := match least with
    | .null => []
    | v => ["--fail-under=" ++ v.display]
  change (·.writeText findings [])
  let (code, out, _) ← start ((["pylint", sources, "--output-format=json"] : List Text) ++ bar) none none
  change (·.writeText findings out)
  print ("📄 Pylint finished with exit code " ++ Text.ofInt code ++ ": \"" ++ qualityMessage code ++ "\"")
  if isAcceptable code then print ("✅ pylint JSON output created: " ++ findings) else exit code

/-- Checks the quality of sources and writes a report; the program ends if the check fails or finds too much. -/
def checkQuality (sources findings report : Text) (least : Value) : WorldM Unit := do
  print "🔍 Running pylint analysis..."
  recover (collectFindings sources findings least) fun f => do
    print ("❌ Unexpected error during pylint execution: " ++ f.message)
    exit 1
  recover (do
    let _ ← startChecked ["pylint-json2html", "-f", "json", findings, "-o", report] none none
    print ("✅ HTML report saved as '" ++ report ++ "'")) fun
      | .processFailed command code => do
        print ("❌ Failed to create HTML report: " ++ (Failure.processFailed command code).message)
        exit 1
      | f => fail f

/-- The files that are put into the program, each with its place there. -/
def bundledFiles : List (Text × Text) := [
  ("LICENSE.txt", "assets\\LICENSE"),
  ("help.md", "assets"),
  ("changelog.md", "assets"),
  (".\\src\\lang", "assets\\lang"),
  (".\\src\\fileExamples\\testFile.h", "assets\\fileExamples"),
  (".\\src\\config.yaml", "assets"),
  (".\\src\\generator\\img\\logo.svg", "assets"),
  (".\\src\\generator\\img\\Ko-fi.svg", "assets"),
  (".\\src\\generator\\img\\paypal.svg", "assets"),
  (".\\src\\generator\\img\\github.svg", "assets"),
  (".\\src\\generator\\img\\DarkMode.svg", "assets"),
  (".\\src\\utils\\icon\\icon.ico", "assets"),
  (".\\src\\utils\\icon\\FileExtension.ico", "assets"),
  (".\\src\\generator\\img\\Reference.png", "assets")]

def buildCommand (name versionFile script : Text) : List Text :=
  (["pyinstaller", "-y", "--onedir", "--clean", "--log-level", "DEBUG"] : List Text) ++
    (["--name", name, "--icon", ".\\src\\utils\\icon\\icon.ico", "--version-file", versionFile, "--paths", "./src"] : List Text) ++
    bundledFiles.flatMap (fun f => [("--add-data" : Text), f.1 ++ ";" ++ f.2]) ++
    (["--distpath", ".", "--uac-admin", "--windowed", script] : List Text)

def buildTools : List Needed :=
  [⟨"PyInstaller", "pyinstaller"⟩, ⟨"pylint", "pylint"⟩, ⟨[], "pylint-json2html"⟩]

/-- Builds the program and its installer from a script; `usable` tells that the tools can be used once they are there. -/
def buildInstaller (scripts : Text) (usable : Bool) (script : Text) : WorldM Unit := do
  ensureModules buildTools
  if !usable then
    print "PyInstaller is not installed. install it by using 'pip install pyinstaller'."
    exit 1
  if !(← get).tree.isFile script then
    print ("The file  '" ++ script ++ "' does not exist.")
    exit 1
  writeLicense
  let year := Text.ofInt (← get).now.year
  let versionFile ← writeVersionFile scripts title title version description year author
  print "Start .py to .exe conversion..."
  let (_, out, err) ← start (buildCommand title versionFile script) none none
  print out
  print err
  let built := Path.join (Path.join (Path.join scripts "..") "CppCodeDoc") (title ++ ".exe")
  if (← get).tree.isFile built then
    print (".exe-file created successfull at: " ++ built)
    print "⚠️⚠️⚠️⚠️⚠️----------⚠️⚠️⚠️⚠️⚠️----------⚠️⚠️⚠️⚠️⚠️\n"
    print "--❌------ DO NOT FORGET TO CREATE THE INSTALLER ------❌--\n"
    print "⚠️⚠️⚠️⚠️⚠️----------⚠️⚠️⚠️⚠️⚠️----------⚠️⚠️⚠️⚠️⚠️"
    let setup ← writeSetupScript scripts title title version author year (fileEnding.dropWhile (· == '.'))
    print ("Installer script created at: " ++ setup)
    compileSetup setup
    checkQuality "./src" "src_output.json" "src_report.html" (.real "5.0")
    checkQuality "./test" "test_output.json" "test_report.html" (.real "5.0")
    checkQuality "./scripts" "scripts_output.json" "scripts_report.html" (.real "5.0")
  else
    print ("Error during creation of .exe file in " ++ built ++ ". Check previous log outputs!")

/-- All steps of a build: requirements, changelog, installer. -/
def build (scripts : Text) (usable : Bool) (ps : Packages) (standard : List Text) : WorldM Unit := do
  listRequirements ps standard
  let _ ← updateChangelog version
  let root := Path.normalize (Path.join scripts "..")
  buildInstaller scripts usable (Path.join (Path.join root "src") "CppCodeDoc.py")

end FunctionDocs.Release
