import FunctionDocs.App.Languages
import FunctionDocs.Proofs.CommandRun
import FunctionDocs.Proofs.WindowSettings

/-!
# Settings and the language of the window

Two sessions that differ in their language only are run side by side. Of the settings that are taken from the widgets, the
formats and the style of the headers are read from phrases, and nothing else depends on the language.
-/

namespace FunctionDocs.Window

open App (Phrasebook)
open Run (run_bind)
open WindowM

variable {α β : Type} {s s' : Session} {m : WindowM α} {f : α → WindowM β}

def View.formatsRead (w : View) : Except Failure (Option (List Value)) :=
  match w.current .formats with
  | .str [] => .ok none
  | .str t => (w.book.phrase "settingsTab.Allprefix").map fun all => some (takenFormats t all)
  | other => if other.isTrue then .error (.noOperation other.kind "split") else .ok none

def View.styleRead (w : View) : Except Failure (Option Text) :=
  if (w.current .headerStyle).isTrue then (stripped (w.current .headerStyle)).map some else .ok none

def Session.mute (s : Session) : Session :=
  { s with view := { s.view with captions := fun _ => .null, book := ⟨[], .null⟩ } }

/-- Sessions that differ in their language only, and read the same from their lists. -/
def Alike (s s' : Session) : Prop :=
  s.mute = s'.mute ∧ s.view.formatsRead = s'.view.formatsRead ∧ s.view.styleRead = s'.view.styleRead

/-- Steps that do the same in sessions that are alike, and leave them so. -/
def Deaf (m : WindowM α) : Prop :=
  ∀ s s' : Session, Alike s s' → (m.run.run s).1 = (m.run.run s').1 ∧ Alike (m.run.run s).2 (m.run.run s').2

lemma Deaf.bind (h : Deaf m) (hf : ∀ a, Deaf (f a)) : Deaf (m >>= f) := by
  intro s s' hs
  obtain ⟨hresult, hnext⟩ := h s s' hs
  rw [run_bind, run_bind]
  match hm : m.run.run s, hm' : m.run.run s' with
  | (.ok a, mid), (.ok a', mid') =>
    rw [hm, hm'] at hresult hnext
    cases hresult
    exact hf a _ _ hnext
  | (.error stop, mid), (.error stop', mid') =>
    rw [hm, hm'] at hresult hnext
    cases hresult
    exact ⟨rfl, hnext⟩
  | (.ok _, _), (.error _, _) | (.error _, _), (.ok _, _) =>
    rw [hm, hm'] at hresult
    cases hresult

lemma Deaf.forM {f : α → WindowM Unit} (h : ∀ a, Deaf (f a)) (as : List α) : Deaf (as.forM f) := by
  induction as with
  | nil => exact fun _ _ hs => ⟨rfl, hs⟩
  | cons a as ih => exact (h a).bind fun _ => ih

lemma Deaf.ite {p : Prop} [Decidable p] {m m' : WindowM α} (h : Deaf m) (h' : Deaf m') : Deaf (if p then m else m') := by
  split
  · exact h
  · exact h'

lemma run_view {f : View → WindowM α} (s : Session) : (view >>= f).run.run s = (f s.view).run.run s := run_bind ..

lemma Deaf.view {f : View → WindowM α} (hf : ∀ {s s' : Session}, Alike s s' → f s.view = f s'.view)
    (h : ∀ w, Deaf (f w)) : Deaf (view >>= f) := by
  intro s s' hs
  rw [run_view, hf hs]
  exact h _ s s' hs

lemma deaf_of_mute (h : ∀ s : Session, (m.run.run s).1 = (m.run.run s.mute).1 ∧ (m.run.run s).2.mute = (m.run.run s.mute).2 ∧
    (m.run.run s).2.view.formatsRead = s.view.formatsRead ∧ (m.run.run s).2.view.styleRead = s.view.styleRead) : Deaf m := by
  rintro s s' ⟨hmute, hformats, hstyle⟩
  obtain ⟨hresult, hleft, hleftFormats, hleftStyle⟩ := h s
  obtain ⟨hresult', hleft', hleftFormats', hleftStyle'⟩ := h s'
  rw [Alike, hresult, hleft, hresult', hleft', hleftFormats, hleftStyle, hleftFormats', hleftStyle', hmute]
  exact ⟨rfl, rfl, hformats, hstyle⟩

lemma deaf_pure (a : α) : Deaf (pure a : WindowM α) := fun _ _ hs => ⟨rfl, hs⟩

lemma deaf_settle (x : Except Failure α) : Deaf (settle x) := by
  cases x with
  | ok a => exact deaf_pure a
  | error f => exact fun _ _ hs => ⟨rfl, hs⟩

lemma deaf_tree : Deaf tree := deaf_of_mute fun _ => ⟨rfl, rfl, rfl, rfl⟩

lemma deaf_log (level : Level) (message : Text) : Deaf (log level message) := deaf_of_mute fun _ => ⟨rfl, rfl, rfl, rfl⟩

lemma deaf_setStatus (text : Text) : Deaf (setStatus text) := fun _ _ hs => ⟨rfl, hs⟩

lemma deaf_modifySettings (f : App.Settings → App.Settings) : Deaf (modifySettings f) :=
  deaf_of_mute fun _ => ⟨rfl, rfl, rfl, rfl⟩

lemma texts_of_alike (hs : Alike s s') : s.view.texts = s'.view.texts := congrArg (·.view.texts) hs.1

lemma deaf_configPath : Deaf configPath := by
  refine .view (fun hs => by rw [texts_of_alike hs]) fun w => (deaf_settle _).bind fun path => deaf_tree.bind fun t => ?_
  exact .ite (deaf_pure _) ((deaf_log _ _).bind fun _ => deaf_pure _)

lemma deaf_showNotes (notes : List Text) : Deaf (showNotes notes) := by
  refine Deaf.bind (deaf_of_mute fun _ => ⟨rfl, rfl, rfl, rfl⟩) fun _ => .forM (fun _ => ?_) notes
  exact .bind (deaf_of_mute fun _ => ⟨rfl, rfl, rfl, rfl⟩) fun _ => deaf_pure _

lemma deaf_read {m : WindowM Unit} {x : View → Except Failure (Option α)} {g : α → App.Settings → App.Settings}
    (hx : ∀ s s', Alike s s' → x s.view = x s'.view)
    (hm : ∀ s, m.run.run s = (settle (x s.view) >>= fun a => a.elim (pure ()) fun a => modifySettings (g a)).run.run s) :
    Deaf m := by
  have hread : ∀ v, Deaf (settle v >>= fun a : Option α => a.elim (pure ()) fun a => modifySettings (g a)) := by
    refine fun v => (deaf_settle v).bind fun a => ?_
    cases a with
    | none => exact deaf_pure ()
    | some a => exact deaf_modifySettings (g a)
  intro s s' hs
  rw [hm s, hm s', hx s s' hs]
  exact hread _ s s' hs

lemma deaf_takeFormats : Deaf takeFormats := by
  refine deaf_read (g := fun fs x => { x with formats := .list fs }) (fun s s' hs => hs.2.1) fun s => ?_
  rw [takeFormats, run_view, View.formatsRead]
  cases s.view.current .formats with
  | str t =>
    cases t with
    | nil => rfl
    | cons c t =>
      dsimp only
      rw [run_bind, phrase, run_view]
      cases s.view.book.phrase "settingsTab.Allprefix" with
      | ok all => rfl
      | error f => rfl
  | _ =>
    dsimp only
    split
    · rfl
    · rfl

lemma deaf_takeHeaderStyle : Deaf takeHeaderStyle := by
  refine deaf_read (g := fun t x => { x with headerStyle := .str t }) (fun s s' hs => hs.2.2) fun s => ?_
  rw [takeHeaderStyle, run_view, View.styleRead]
  dsimp only
  split
  · cases stripped (s.view.current .headerStyle) with
    | ok style => rfl
    | error f => rfl
  · rfl

lemma deaf_takeOutput : Deaf takeOutput := by
  refine .view (fun hs => by rw [texts_of_alike hs]) fun w => (deaf_settle _).bind fun path => .ite (deaf_pure _) ?_
  refine .ite ((deaf_modifySettings _).bind fun _ => deaf_pure _) ?_
  exact (deaf_log _ _).bind fun _ => (deaf_setStatus _).bind fun _ => deaf_pure _

lemma deaf_takePlaces : Deaf takePlaces := by
  refine .view (fun hs => by rw [texts_of_alike hs]) fun w => ?_
  extract_lets source rest
  have hrest : ∀ u, Deaf (rest u) := fun _ =>
    .view (fun hs => by rw [texts_of_alike hs]) fun w => (deaf_settle _).bind fun _ => deaf_modifySettings _
  exact .ite ((deaf_modifySettings _).bind hrest) (hrest ())

lemma deaf_takeDocument : Deaf takeDocument := Deaf.view (fun hs => by rw [texts_of_alike hs]) fun w => deaf_modifySettings _

lemma deaf_takeLogo : Deaf takeLogo := by
  refine .view (fun hs => by rw [texts_of_alike hs]) fun w => (deaf_settle _).bind fun path => .ite (deaf_pure _) ?_
  refine deaf_tree.bind fun t => .ite (deaf_modifySettings _) ?_
  exact (deaf_log _ _).bind fun _ => deaf_modifySettings _

lemma deaf_takeChecks : Deaf takeChecks := by
  refine .view (fun {s s'} hs => ?_) fun w => (deaf_modifySettings _).bind fun _ => deaf_modifySettings _
  have hticked : s.view.ticked = s'.view.ticked := congrArg (·.view.ticked) hs.1
  rw [hticked]

lemma deaf_takeFields : Deaf (do
    if ← takeOutput then
      takePlaces
      takeDocument
      takeLogo
      if (← view).edited then takeChecks) := by
  refine deaf_takeOutput.bind fun valid => .ite ?_ (deaf_pure _)
  refine deaf_takePlaces.bind fun _ => deaf_takeDocument.bind fun _ => deaf_takeLogo.bind fun _ => ?_
  refine .view (fun {s s'} hs => ?_) fun w => .ite deaf_takeChecks (deaf_pure _)
  have hedited : s.view.edited = s'.view.edited := congrArg (·.view.edited) hs.1
  rw [hedited]

lemma deaf_takeSettings : Deaf takeSettings := by
  refine deaf_configPath.bind fun path => .view (fun {s s'} hs => ?_) fun w => ?_
  · have hsettings : s.view.settings = s'.view.settings := congrArg (·.view.settings) hs.1
    rw [hsettings]
  · extract_lets rest
    have hrest : ∀ u, Deaf (rest u) := by
      refine fun _ => .bind (deaf_of_mute fun _ => ⟨rfl, rfl, rfl, rfl⟩) fun _ => ?_
      refine .bind (deaf_of_mute fun _ => ⟨rfl, rfl, rfl, rfl⟩) fun _ => (deaf_showNotes _).bind fun _ => ?_
      refine .ite ((deaf_log _ _).bind fun _ => (deaf_setStatus _).bind fun _ => deaf_pure _) ?_
      exact deaf_takeFormats.bind fun _ => deaf_takeHeaderStyle.bind fun _ => deaf_takeFields
    exact .ite (.bind (deaf_of_mute fun _ => ⟨rfl, rfl, rfl, rfl⟩) hrest) (hrest ())

def Session.speaking (s : Session) (book : Phrasebook) (captions : Caption → Value) : Session :=
  { s with view := { s.view with book := book, captions := captions } }

def shownIn (book : Phrasebook) (c : Caption) : Value := (book.phrase c.key).toOption.getD .null

/-- A window that is open in a small project, with all formats and one of the styles chosen, in one of the two languages. -/
def chosenStyle (style : Nat) (book : Phrasebook) : Session where
  installation := App.sampleHome
  programDir := "/app"
  world := App.sampleWorld (App.sampleSettings "md") App.openSource
  view :=
    { texts := filled (App.sampleSettings "md")
      chosen := fun k => if k = .headerStyle then style else 2
      settings := some (App.sampleSettings "md")
      book := book
      captions := shownIn book }

def english : Phrasebook := ⟨"en", App.Languages.english⟩

def german : Phrasebook := ⟨"de", App.Languages.german⟩

end FunctionDocs.Window
