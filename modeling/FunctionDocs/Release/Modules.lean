import FunctionDocs.World

/-!
# Modules that a program needs

A module that cannot be loaded is installed under the name of its package. A package without a module is a tool of its own,
which is always installed anew.
-/

namespace FunctionDocs.Release

open WorldM

/-- A module and the package that brings it; a tool has no module. -/
structure Needed where
  module : Text
  package : Text
  deriving DecidableEq, Repr

def moduleNote : Text := "[installModules] "

def isLoadable (module : Text) : WorldM Bool := do return (← get).loadable.contains module

/-- Installs a package; what an installation brings can be loaded from then on. -/
def install (package : Text) : WorldM Unit := do
  modify fun w => { w with loadable := w.loadable ++ w.installable }
  let _ ← startChecked ["python", "-m", "pip", "install", package] none none

/-- Installs a package; the program ends if that does not succeed. -/
def installOrEnd (package : Text) : WorldM Unit := do
  recover (install package) fun
    | .processFailed _ _ => do
      print (moduleNote ++ "❌ Error during installation of '" ++ package ++ "'. Install it manually!")
      exit 1
    | f => fail f

def ensureModule (n : Needed) : WorldM Unit := do
  if n.module.isEmpty then
    print (moduleNote ++ "ℹ️ CLI-Modul '" ++ n.package ++ "' – will only be checked by pip...")
    installOrEnd n.package
    print (moduleNote ++ "✔️ CLI-Modul '" ++ n.package ++ "' successfully installed.")
  else if ← isLoadable n.module then
    print (moduleNote ++ "✔️ Modul '" ++ n.module ++ "' already installed.")
  else
    print (moduleNote ++ "⚠️ Modul '" ++ n.module ++ "' not found. Try installation of '" ++ n.package ++ "'...")
    installOrEnd n.package
    if ← isLoadable n.module then
      print (moduleNote ++ "✔️ Modul '" ++ n.module ++ "' successfully installed.")
    else
      print (moduleNote ++ "❌ Modulimport '" ++ n.module ++ "' was not successful after installation.")
      exit 1

/-- Makes sure that modules can be loaded, one after the other. -/
def ensureModules : List Needed → WorldM Unit
  | [] => return
  | n :: ns => do
    ensureModule n
    ensureModules ns

end FunctionDocs.Release
