import FunctionDocs.Entry.Record
import FunctionDocs.Proofs.OpenPlaces
import FunctionDocs.Release.Publish
import FunctionDocs.Window.Event
import FunctionDocs.Window.Layout
import FunctionDocs.Window.Style
import FunctionDocs.Proofs.Shadowing
import FunctionDocs.Proofs.Comments
import FunctionDocs.Proofs.ExitStatus
import FunctionDocs.Proofs.Captions
import FunctionDocs.Proofs.Phrases
import FunctionDocs.Proofs.MissingKeys
import FunctionDocs.Proofs.WindowLanguage
import FunctionDocs.Proofs.Search
import FunctionDocs.Proofs.ReleaseNotes
import FunctionDocs.Proofs.Rotation
import FunctionDocs.Proofs.Occurrences
import FunctionDocs.Proofs.ClosingCode
import FunctionDocs.Proofs.BlockLines
import FunctionDocs.Proofs.VisibleBraces
import FunctionDocs.Proofs.SlashRuns
import FunctionDocs.Proofs.Unmasked
import FunctionDocs.Proofs.TemplateSpacing
import FunctionDocs.Proofs.ParamDescriptions
import FunctionDocs.Proofs.ControlNames
import FunctionDocs.Proofs.Escaping
import FunctionDocs.Proofs.Links
