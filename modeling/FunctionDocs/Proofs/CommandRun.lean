import FunctionDocs.App.Program
import FunctionDocs.Json.Write
import FunctionDocs.Proofs.Values
import FunctionDocs.Proofs.World

/-!
# The run without a window

How the run ends and which files it leaves depends on the time and on the files alone. A run whose backup is refused and a report
that cannot be written have no share: the message about them cannot be logged, and that is what the run fails with.
-/

namespace FunctionDocs.App

open WorldM
open Run (Gives)

variable {i : Installation} {dir : Text} {o : Options} {w : World} {s : Settings} {t : Tree} {outcome : Run.Outcome}

/-! ## How the run ends -/

/-- How the report on what a run gave ends, and the files it leaves. -/
def reportOn (s : Settings) (t : Tree) : Run.Outcome → Except Failure Share × Tree
  | .refused _ => (.error (.unknownLevel "Error"), ((Run.outputPath s.arguments).run.run t).2)
  | .documented [] => (.ok .none, t)
  | .documented (e :: es) =>
    match (Run.save s.arguments (e :: es)).run.run t with
    | (.error _, t') => (.error (.unknownLevel "Error"), t')
    | (.ok (file, stats), t') =>
      (.ok (if file.isEmpty then .none else .percent (Coverage.percentOf stats.done stats.functions)), t')

lemma report_ends (outcome : Run.Outcome) :
    Ends (report s outcome) w ((reportOn s w.tree outcome).1.mapError .failed) (reportOn s w.tree outcome).2 := by
  cases outcome with
  | refused reason =>
    have hpath := ends_onFiles (w := w) (Run.outputPath s.arguments)
    refine Ends.bind (a := ()) (t := ((Run.outputPath s.arguments).run.run w.tree).2) ?_ fun _ _ => ends_fail _
    cases hr : ((Run.outputPath s.arguments).run.run w.tree).1 with
    | ok path =>
      rw [hr] at hpath
      exact (hpath.bind fun _ _ => ends_pure ()).recover_ok
    | error f =>
      rw [hr] at hpath
      exact hpath.stop.recover_failed fun _ _ => ends_pure ()
  | documented es =>
    cases es with
    | nil => exact (ends_logMessage _ _).bind fun _ _ => ends_pure _
    | cons e es =>
      have hsave := ends_onFiles (w := w) (Run.save s.arguments (e :: es))
      rw [reportOn]
      match hr : (Run.save s.arguments (e :: es)).run.run w.tree with
      | (.error f, t') =>
        rw [hr] at hsave
        exact Ends.bind (a := none) (t := t') (hsave.stop.recover_failed fun _ _ => ends_pure none) fun _ _ => ends_fail _
      | (.ok (file, stats), t') =>
        rw [hr] at hsave
        refine ((hsave.bind fun _ _ => ends_pure (some (file, stats))).recover_ok).bind fun _ _ => ?_
        by_cases hfile : file.isEmpty
        · simp only [hfile, ↓reduceIte]
          exact (ends_logMessage _ _).bind fun _ _ => ends_pure _
        · simp only [hfile]
          exact (ends_logMessage _ _).bind fun _ _ => ends_pure _

/-- How the run without a window ends, and the files it leaves. -/
def runOnFiles (i : Installation) (dir : Text) (o : Options) (now : Moment) (t : Tree) : Except Failure Share × Tree :=
  match (Settings.load i now t (o.configPath dir)).1 with
  | none => (.error .noConfig, t)
  | some s =>
    match sourcesFor o s t with
    | .error f => (.error f, t)
    | .ok files =>
      match (Run.generate s.arguments files).run.run t with
      | (.error f, t') => (.error f, t')
      | (.ok outcome, t') => reportOn s t' outcome

lemma loadSettings_ends (path : Text) :
    Ends (loadSettings i path) w (((Settings.load i w.now w.tree path).1.elim (.error (.failed .noConfig)) .ok)) w.tree := by
  refine .get ?_
  match Settings.load i w.now w.tree path with
  | (none, _) => exact ends_fail _
  | (some s, notes) => exact (ends_logMessages .warning _ notes).bind fun _ _ => ends_pure s

lemma runWithoutWindow_ends (i : Installation) (dir : Text) (o : Options) (w : World) :
    Ends (runWithoutWindow i dir o) w ((runOnFiles i dir o w.now w.tree).1.mapError .failed)
      (runOnFiles i dir o w.now w.tree).2 := by
  refine (ends_logMessage _ _).bind fun printed log => ?_
  have hload := loadSettings_ends (i := i) (w := { w with printed := printed, log := log }) (o.configPath dir)
  rw [runOnFiles]
  cases hs : (Settings.load i w.now w.tree (o.configPath dir)).1 with
  | none =>
    rw [hs] at hload
    exact hload.stop
  | some s =>
    rw [hs] at hload
    refine hload.bind fun printed log => ?_
    have hlook := ends_look (w := { w with printed := printed, log := log }) (sourcesFor o s)
    dsimp only at hlook ⊢
    cases hf : sourcesFor o s w.tree with
    | error f =>
      rw [hf] at hlook
      exact hlook.stop
    | ok files =>
      rw [hf] at hlook
      refine hlook.bind fun printed log => ?_
      have hgenerate := ends_onFiles (w := { w with printed := printed, log := log }) (Run.generate s.arguments files)
      dsimp only at hgenerate ⊢
      match hg : (Run.generate s.arguments files).run.run w.tree with
      | (.error f, t') =>
        rw [hg] at hgenerate
        exact hgenerate.stop
      | (.ok outcome, t') =>
        rw [hg] at hgenerate
        exact hgenerate.bind fun _ _ => report_ends outcome

/-! ## What is not saved -/

/-- What a run gave is not saved: the run was refused, or writing its report fails. -/
def SavingFails (s : Settings) (t : Tree) : Run.Outcome → Prop
  | .refused _ => True
  | .documented es => es ≠ [] ∧ ((Run.save s.arguments es).run.run t).1.isOk = false

instance (s : Settings) (t : Tree) : DecidablePred (SavingFails s t)
  | .refused _ => inferInstanceAs (Decidable True)
  | .documented _ => inferInstanceAs (Decidable (_ ∧ _))

lemma reportOn_of_savingFails (h : SavingFails s t outcome) : (reportOn s t outcome).1 = .error (.unknownLevel "Error") := by
  cases outcome with
  | refused reason => rfl
  | documented es =>
    obtain ⟨hne, hsave⟩ := h
    cases es with
    | nil => exact absurd rfl hne
    | cons e es =>
      rw [reportOn]
      match hrun : (Run.save s.arguments (e :: es)).run.run t with
      | (.error f, t') => rfl
      | (.ok saved, t') =>
        rw [hrun] at hsave
        cases hsave

lemma reportOn_of_not_savingFails (h : ¬SavingFails s t outcome) : ∃ share, (reportOn s t outcome).1 = .ok share := by
  cases outcome with
  | refused reason => exact absurd trivial h
  | documented es =>
    cases es with
    | nil => exact ⟨.none, rfl⟩
    | cons e es =>
      rw [reportOn]
      match hsave : (Run.save s.arguments (e :: es)).run.run t with
      | (.error f, t') => exact absurd ⟨by simp, by rw [hsave]; rfl⟩ h
      | (.ok (file, stats), t') => exact ⟨_, rfl⟩

deriving instance DecidableEq for Document, Settings, Stop

/-- The settings of a run that reads the source file `a.cpp` only. -/
def sampleSettings (format : Text) : Settings where
  document := ⟨.str "Docs", .str "1.0", .str "me", .str "2025-01-02", .str "/logo.svg", .bool true, .bool true⟩
  path := "c.json"
  source := .str "a.cpp"
  recursive := true
  formats := .list [.str format]
  output := .str "docs/all"
  backup := .null
  readOnly := .bool true
  headerStyle := .str "doxygen"

def sampleWorld (s : Settings) (source : Text) : World where
  tree := ⟨[(["c.json"], .file (Bytes.ofText (Json.write s.toValue))), (["a.cpp"], .file (Bytes.ofText source))], []⟩
  loadable := neededModules.map (·.module)

def sampleHome : Installation := ⟨"/app/configSetup", none⟩

def sampleOptions : Options := { noGui := true, config := some "c.json" }

def openSource : Text := "int add(int a) \x7b\n\x7d\n"

def webPage : World := sampleWorld (sampleSettings "html") openSource

def unknownFormat : World := sampleWorld (sampleSettings "pdf") openSource

end FunctionDocs.App
