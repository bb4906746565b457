import FunctionDocs.Coverage.Stats
import FunctionDocs.Json.Field

/-!
# Drafts

A document is written piece by piece. A piece that cannot be made ends the document there: what stands before it is written,
and the failure is reported.
-/

namespace FunctionDocs.Report

/-- The pieces of a document in order. -/
abbrev Draft := List (Except Failure Text)

/-- The text written: all pieces up to the first failure. -/
def Draft.written : Draft → Text
  | [] => []
  | .ok t :: rest => t ++ Draft.written rest
  | .error _ :: _ => []

def Draft.failure? : Draft → Option Failure
  | [] => none
  | .ok _ :: rest => Draft.failure? rest
  | .error f :: _ => some f

/-- The whole document, if all of it could be written. -/
def Draft.whole (d : Draft) : Except Failure Text :=
  match d.failure? with
  | some f => .error f
  | none => .ok d.written

/-- Pieces that need something first; without it they are one failing piece. -/
def Draft.needing {α : Type} (need : Except Failure α) (pieces : α → Draft) : Draft :=
  match need with
  | .ok a => pieces a
  | .error f => [.error f]

def softwareVersion (arguments : Value) : Except Failure Text := do
  Value.fieldOr (← Value.valueOr arguments "app_info" (.obj [])) "version" "1.0"

/-- How a function is marked in a report. -/
inductive Marker where
  | plain
  | finished
  | pending
  deriving DecidableEq, Repr

def Marker.text : Marker → Text
  | .plain => " "
  | .finished => "✅ "
  | .pending => "❌ "

/-- The marker of an entry: by its open places, if these are highlighted. -/
def markerOf (highlight : Bool) (e : Entry) : Except Failure Marker := do
  if highlight then
    if Coverage.hasTodo (← e.doxygenText (.notSearchable "NoneType")) then return .pending else return .finished
  else return .plain

def fileName (path : Text) : Text := (path.reverse.takeWhile (· != '/')).reverse

def fileNote (e : Entry) : Except Failure Text := do
  return "<div style='font-size: 12px; color: gray;'>📄 " ++ fileName (← e.file!) ++ " (Line " ++
    Text.ofInt (← e.startLine!) ++ ")</div>"

end FunctionDocs.Report
