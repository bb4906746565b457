import FunctionDocs.App.Info
import FunctionDocs.Release.Imports
import FunctionDocs.World

/-!
# Requirements

The packages that the imports of scripts need: those that are neither part of the language nor of the project. They are listed
with their versions and licences.
-/

namespace FunctionDocs.Release

open WorldM

/-- What is known of an installed package. -/
structure Package where
  name : Text
  version : Text
  license : Option Text
  deriving DecidableEq, Repr

/-- The installed packages by the names they are found under. -/
abbrev Packages := List (Text × Package)

def Packages.find (ps : Packages) (name : Text) : Option Package := (List.find? (·.1 == name) ps).map (·.2)

def knownPackages : List (Text × Text) := [("yaml", "PyYAML")]

/-- The packages that modules need, and the modules whose package is not known. -/
structure Resolved where
  found : List (Text × Text)
  missing : List Text
  deriving DecidableEq, Repr

def packageOf (named : Text → Option Text) (module : Text) : Option Text :=
  named module <|> (knownPackages.find? (·.1 == module)).map (·.2)

def resolve (named : Text → Option Text) (standard own imports : List Text) : Resolved :=
  let outer := Text.sort (Text.distinct (imports.filter fun m => !standard.contains m && !own.contains m))
  { found := outer.filterMap fun m => (packageOf named m).map (m, ·)
    missing := outer.filter fun m => (packageOf named m).isNone }

/-- What a script imports; one that cannot be read or is malformed is reported. -/
def importsIn (path : Text) : WorldM (List Text) := do
  let _ ← look fun t =>
    match t.stat path with
    | .ok .dir => .error (.isDirectory path)
    | other => other
  recover (do
    let text ← look (·.readText path)
    match importsOf text with
    | .ok ms => return ms
    | .error line => fail (.malformedScript (Path.base path) line)) fun f => do
      print ("⚠ Error during parsing of " ++ path ++ ": " ++ f.message)
      return []

/-- The modules that scripts import, in order. -/
def importsInAll (paths : List Text) : WorldM (List Text) := do
  return Text.sort (Text.distinct (← paths.mapM importsIn).flatten)

def printSummary (r : Resolved) : WorldM Unit := do
  print "\n✅ found external modules (via ensure_modules):\n"
  print "ensure_modules(["
  for (module, package) in r.found do
    print ("    (\"" ++ module ++ "\", \"" ++ package ++ "\"),")
  print "])"
  if !r.missing.isEmpty then
    print "\n⚠ Not automatic resolveable – please check manually:"
    for m in r.missing do
      print ("- " ++ m)

def requirementLines (ps : Packages) (package : Text) : Text :=
  let known := ps.find package
  let license := (known.bind (·.license)).getD "Unknown".toList
  let pin : Text := match known with
    | some p => if p.version.isEmpty then [] else "==" ++ p.version
    | none => []
  "# Third-Party Package name/License: " ++ package ++ ": " ++ license ++ "\n" ++ package ++ pin ++ "\n"

def requirementsText (now : Moment) (ps : Packages) (packages : List Text) : Text :=
  App.licenseHeader now ++ "\n\n# requirements.txt generated: " ++ now.stamp ++ "\n\n" ++
    packages.flatMap (requirementLines ps)

def writeRequirements (ps : Packages) (packages : List Text) : WorldM Unit := do
  let w ← get
  change (·.writeText "requirements.txt" (requirementsText w.now ps packages))

def printLicenses (ps : Packages) (packages : List Text) : WorldM Unit := do
  print "📄 Licenseinformationen to the found Packages:\n"
  for package in packages do
    match ps.find package with
    | some p => print (package ++ ": " ++ p.license.getD "Unbekannt".toList)
    | none => print (package ++ ": ❌ Package not found")
  print []

def listRequirements (ps : Packages) (standard : List Text) : WorldM Unit := do
  let here := "/" ++ Text.joinWith "/" (← get).tree.here
  let scripts := scriptsHere (← get).tree here
  let own ← settle (localModules here scripts)
  let imports ← importsInAll scripts
  let r := resolve (fun m => (ps.find m).map (·.name)) standard own imports
  printSummary r
  writeRequirements ps (r.found.map (·.2))
  print "\n📦 requirements.txt successfully created!"
  printLicenses ps (r.found.map (·.2))

end FunctionDocs.Release
