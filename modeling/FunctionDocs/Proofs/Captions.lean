import FunctionDocs.Proofs.WindowRun

/-!
# The language of the window

A window that opens shows the phrases of its book at every place. A change of the language fills all places anew but three. So
after any number of changes the window speaks one language exactly if these three read in it as they did when it opened.
-/

open List

namespace FunctionDocs.Window

open WindowM
open App (Phrasebook)
open Run (ran_bind run_bind)

variable {α : Type} {m : WindowM α} {s : Session} {first : Caption → Value}

/-- What a session says: its phrases, and what it shows of them. -/
def Session.words (s : Session) : Phrasebook × (Caption → Value) := (s.view.book, s.view.captions)

/-- Every place of the window shows the phrase with its key. -/
def Translated (w : View) : Prop := ∀ p ∈ pageCaptions ++ tabCaptions, w.book.phrase p.key = .ok (w.captions p)

def Session.changeLanguages (s : Session) (languages : List Text) : Session :=
  languages.foldl (fun s language => (s.run (changeLanguage language)).2) s

/-! ## A window that opens -/

lemma Keeps.words (h : Keeps Session.face m) : Keeps Session.words m :=
  fun s => congrArg (fun x : Core × (Caption → Value) => (x.1.book, x.2)) (h s)

lemma keeps_modifyView {f : View → View} (hf : ∀ w, (f w).rest = w.rest) : Keeps Session.words (modifyView f) :=
  fun s => congrArg (fun r => (r.2.1, r.1)) (hf s.view)

lemma keeps_fillWidgets (x : App.Settings) : Keeps Session.words (fillWidgets x) := by
  refine Keeps.bind (keeps_modifyView fun w => ?_) fun _ => (keeps_settle _).bind fun entry => ?_
  · simp only [View.settled_fields, View.tick_fields]
  extract_lets document rest
  have hrest : ∀ u, Keeps Session.words (rest u) := by
    refine fun _ => Keeps.bind (keeps_modifyView fun w => ?_) fun _ => Keeps.bind (keeps_modifyView fun w => ?_) fun _ =>
      keeps_modifyView fun w => ?_
    · simp only [View.setText_fields, View.chooseText_fields]
    · simp only [View.setText_fields]
    · simp only [View.settled_fields, View.tick_fields]
  cases entry with
  | none => exact hrest ()
  | some i => exact .bind (keeps_modifyView fun w => rfl) hrest

lemma keeps_loadSettings (path : Text) : Keeps Session.words (loadSettings path) := by
  refine (keeps_get.bind fun _ => keeps_pure _).bind fun ⟨settings?, notes⟩ => .bind (fun _ => rfl) fun _ => ?_
  cases settings? with
  | none => exact fun _ => rfl
  | some x =>
    have hnotes : Keeps Session.words (showNotes notes) :=
      .bind (fun _ => rfl) fun _ => .forM (fun note => .bind (fun _ => rfl) fun _ => keeps_pure _) _
    exact .bind (fun _ => rfl) fun _ => hnotes.bind fun _ => (keeps_log _ _).words.bind fun _ => keeps_fillWidgets x

lemma translated_of_build {config : Option Text} (h : (s.run (build config)).1 = .ok ()) :
    Translated (s.run (build config)).2.view := by
  obtain ⟨done, hdone⟩ : ∃ done, (build config).run.run s = (.ok (), done) := ⟨_, Prod.ext h rfl⟩
  have hlast : (s.run (build config)).2.words = done.words := by
    rw [Session.run, hdone]
    exact keeps_showPending.words done
  obtain ⟨kept, mid, hfurnish, hload⟩ := ran_bind hdone
  have hmid := leads_furnish s.core s kept mid ⟨rfl, rfl, rfl, fun _ _ => rfl⟩ hfurnish
  have hwords : done.words = mid.words := by
    split at hload
    · exact (keeps_loadSettings _).eq hload
    · exact (keeps_loadSettings _).eq hload
  intro p hp
  obtain ⟨hbook, hcaptions⟩ := Prod.mk.inj (hlast.trans hwords)
  rw [hbook, hcaptions]
  exact hmid.shown p hp

/-! ## Changes of the language -/

/-- The places that are not filled anew show what they showed first; the others show the phrases with their keys, if there are
such phrases. -/
structure Lasting (first : Caption → Value) (x : Phrasebook × (Caption → Value)) : Prop where
  kept : ∀ p ∈ lastingCaptions, x.2 p = first p
  renewed : (∀ p ∈ renewedCaptions, ∃ v, x.1.phrase p.key = .ok v) → ∀ p ∈ renewedCaptions, x.1.phrase p.key = .ok (x.2 p)

lemma renewCaptions_eq : renewCaptions = renewedCaptions.forM (fill View.rename) := by
  have hloop : ∀ ps : List Caption, (forIn ps .unit fun p _ => do
      let v ← phrase p.key
      modifyView (·.rename p v)
      pure (.yield .unit) : WindowM PUnit) = ps.forM (fill View.rename) := by
    intro ps
    induction ps with
    | nil => rfl
    | cons p ps ih =>
      simp only [forIn_cons, bind_assoc, ih]
      exact (bind_assoc (phrase p.key) _ _).symm
  exact bind_pure_unit.trans (hloop renewedCaptions)

lemma Lasting.change (h : Lasting first s.words) (language : Text) : Lasting first (s.run (changeLanguage language)).2.words := by
  have hlast : (s.run (changeLanguage language)).2.words = ((changeLanguage language).run.run s).2.words :=
    keeps_showPending.words _
  rw [hlast, changeLanguage, run_bind]
  match hload : (loadBook language).run.run s with
  | (.error stop, mid) =>
    rw [← (keeps_loadBook language).words.eq hload] at h
    exact h
  | (.ok book, mid) =>
    have hmid : mid.words = s.words := (keeps_loadBook language).words.eq hload
    obtain ⟨r, shown, edited, hrun, hout, hok, hin⟩ := Shows.run (f := View.rename) (fun _ _ _ => rfl) renewedCaptions
      { mid with view := { mid.view with book } }
    have hend : ((modifyView (fun w => { w with book }) >>= fun _ => renewCaptions).run.run mid).2.words = (book, shown) := by
      rw [run_bind, renewCaptions_eq]
      exact congrArg (fun x => x.2.words) hrun
    suffices hnew : Lasting first (book, shown) by
      rw [← hend] at hnew
      exact hnew
    refine ⟨fun p hp => ?_, fun h => hin (hok.mpr h)⟩
    rw [← h.kept p hp, ← hmid]
    exact hout p (lasting_placed p hp).2

lemma Lasting.run (h : Lasting first s.words) (languages : List Text) : Lasting first (s.changeLanguages languages).words := by
  induction languages generalizing s with
  | nil => exact h
  | cons language languages ih => exact ih (h.change language)

/-- A session with a second language, in which only the button that saves the settings has a phrase. -/
def bilingual : Session :=
  let s := sampleSession (App.sampleSettings "md")
  { s with world.tree.nodes := (["app", "lang", "de.json"], .file (Bytes.ofText
      "\x7b\"startTab\": \x7b\"SaveConfigFileButton\": \"Sichern\"\x7d\x7d")) :: s.world.tree.nodes }

def bilingualIn (languages : List Text) : View := ((bilingual.run (build (some "c.json"))).2.changeLanguages languages).view

lemma bilingual_runs :
    (bilingual.run (build (some "c.json"))).1 = .ok () ∧
      (∀ p ∈ renewedCaptions, ∃ v, (bilingualIn ["de", "fr"]).book.phrase p.key = .ok v) ∧
      (∀ p ∈ lastingCaptions, (bilingualIn ["de", "fr"]).book.phrase p.key =
        (bilingual.run (build (some "c.json"))).2.view.book.phrase p.key) ∧
      (bilingualIn ["de"]).book.phrase (Caption.button .saveConfig).key ≠
        .ok ((bilingualIn ["de"]).captions (.button .saveConfig)) := by decide +kernel

end FunctionDocs.Window
