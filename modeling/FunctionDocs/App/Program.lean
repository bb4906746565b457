import FunctionDocs.App.CommandLine
import FunctionDocs.Release.Modules

/-!
# The program

What happens when the program is started: its modules are checked, the log is opened, and the command line is read.
-/

namespace FunctionDocs.App

open WorldM Release

def neededModules : List Needed :=
  [⟨"PyQt5", "PyQt5"⟩, ⟨"requests", "requests"⟩, ⟨"yaml", "pyYAML"⟩, ⟨"markdown", "markdown"⟩]

def program (i : Installation) (programDir : Text) (arguments : List Text) : WorldM (Option Options) := do
  ensureModules neededModules
  logMessage .info "Logging setup complete"
  launch i programDir arguments

end FunctionDocs.App
