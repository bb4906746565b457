import FunctionDocs.Proofs.Loading
import FunctionDocs.Proofs.Values
import FunctionDocs.Proofs.WindowSteps
import FunctionDocs.Window.Build

/-!
# Settings through the window

Settings go from a file into the widgets of a window that opens, and from there back into a run. Where the lists offer what the
settings say, the run gets settings that agree with those in the file.
-/

open List

namespace FunctionDocs.Window

open WindowM
open Run (ran_bind run_bind)
open App (Phrasebook Settings)

variable {α β : Type} {s : Session} {c d : Core} {s' : Session} {cs : List Caption} {i : Nat} {path : Text} {b : Phrasebook}
  {k : Combo} {chosen : Combo → Nat}

/-! ## A window with phrases -/

lemma keeps_showPending : Keeps Session.face showPending := by
  refine keeps_get.bind fun s => .bind (fun _ => rfl) fun _ => .forM (fun _ => ?_) _
  exact keeps_get.bind fun s _ => rfl

lemma keeps_preference (name : Text) (default : Value) : Keeps Session.face (preference name default) :=
  keeps_get.bind fun _ => keeps_pure _

lemma keeps_loadBook (language : Text) : Keeps Session.face (loadBook language) := by
  refine (keeps_print _).bind fun _ => keeps_get.bind fun s => keeps_tree.bind fun t => (keeps_settle _).bind ?_
  rintro ⟨book, message?⟩
  cases message? with
  | none => exact keeps_pure _
  | some message => exact (keeps_log _ _).bind fun _ => keeps_pure _

lemma keeps_fillIcon : Keeps Session.face fillIcon := by
  refine keeps_get.bind fun s => (keeps_print _).bind fun _ => keeps_tree.bind fun t => ?_
  exact .ite (fun _ => rfl) (keeps_log _ _)

lemma keeps_helpPage (path : Text) : Keeps Session.face (helpPage path) := by
  refine keeps_tree.bind fun t => .ite ?_ (keeps_pure _)
  exact keeps_tree.bind fun t => (keeps_settle _).bind fun _ => keeps_pure _

lemma keeps_fillPicture (p : Picture) : Keeps Session.face (fillPicture p) := by
  refine keeps_get.bind fun s => keeps_tree.bind fun t => ?_
  exact .ite (fun _ => rfl) (keeps_log _ _)

/-- Shows the phrase with the key of a place there, in one of two ways: as its first text, or in place of another. -/
def fill (f : View → Caption → Value → View) (p : Caption) : WindowM Unit := do
  let v ← phrase p.key
  modifyView (f · p v)

/-- A way to show a text at a place changes nothing else, but may mark the settings as edited. -/
def Shows (f : View → Caption → Value → View) : Prop :=
  ∀ w p v, f w p v = { w with captions := replaced w.captions p v, edited := (f w p v).edited }

lemma run_fill (f : View → Caption → Value → View) (p : Caption) (s : Session) :
    (fill f p).run.run s =
      match s.view.book.phrase p.key with
      | .ok v => (.ok (), { s with view := f s.view p v })
      | .error e => (.error (.failed e), s) := by
  have hphrase : (phrase p.key).run.run s = (settle (s.view.book.phrase p.key)).run.run s := run_bind ..
  rw [fill, run_bind, hphrase]
  cases s.view.book.phrase p.key with
  | ok v => rfl
  | error e => rfl

lemma Shows.run {f : View → Caption → Value → View} (hf : Shows f) (ps : List Caption) (s : Session) :
    ∃ r shown edited, (ps.forM (fill f)).run.run s = (r, { s with view := { s.view with captions := shown, edited := edited } }) ∧
      (∀ p ∉ ps, shown p = s.view.captions p) ∧ (r = .ok () ↔ ∀ p ∈ ps, ∃ v, s.view.book.phrase p.key = .ok v) ∧
      (r = .ok () → ∀ p ∈ ps, s.view.book.phrase p.key = .ok (shown p)) := by
  induction ps generalizing s with
  | nil => exact ⟨.ok (), s.view.captions, s.view.edited, rfl, fun _ _ => rfl, iff_of_true rfl nofun, fun _ => nofun⟩
  | cons p ps ih =>
    change ∃ r shown edited, (fill f p >>= fun _ => ps.forM (fill f)).run.run s = _ ∧ _
    rw [run_bind, run_fill, forall_mem_cons]
    cases hv : s.view.book.phrase p.key with
    | error e => exact ⟨_, s.view.captions, s.view.edited, rfl, fun _ _ => rfl, by simp, nofun⟩
    | ok v =>
      obtain ⟨r, shown, edited, hrun, hout, hok, hin⟩ := ih { s with view := f s.view p v }
      rw [hf s.view p v] at hrun hout hok hin
      refine ⟨r, shown, edited, ?_, fun q hq => ?_, by simpa using hok, fun hr => forall_mem_cons.mpr ⟨?_, hin hr⟩⟩
      · rw [← hrun, ← hf]
      · rw [hout q (not_mem_of_not_mem_cons hq)]
        exact if_neg (ne_of_not_mem_cons hq)
      · by_cases hmem : p ∈ ps
        · exact hv ▸ hin hr p hmem
        · rw [hv, hout p hmem]
          exact congrArg Except.ok (if_pos rfl).symm

def lastingCaptions : List Caption := [.button .saveConfig, .entry .language 0, .entry .language 1]

lemma places_split : ∀ p ∈ pageCaptions ++ tabCaptions, p ∈ renewedCaptions ∨ p ∈ lastingCaptions := by decide

lemma renewed_placed : ∀ p ∈ renewedCaptions, p ∈ pageCaptions ++ tabCaptions := by decide

lemma lasting_placed : ∀ p ∈ lastingCaptions, p ∈ pageCaptions ++ tabCaptions ∧ p ∉ renewedCaptions := by decide

/-- The files and the choices in the lists are as they were, but for the list of languages. -/
structure Started (c d : Core) : Prop where
  installation : d.installation = c.installation
  tree : d.tree = c.tree
  now : d.now = c.now
  chosen : ∀ k, k ≠ .language → d.chosen k = c.chosen k

/-- Places show the phrases with their keys, too. -/
structure Furnished (cs : List Caption) (c : Core) (x : Core × (Caption → Value)) : Prop extends Started c x.1 where
  shown : ∀ p ∈ cs, x.1.book.phrase p.key = .ok (x.2 p)

lemma leads_fillCaptions (c : Core) (more : List Caption) :
    Leads Session.face (fillCaptions more) (Furnished cs c) (Furnished (cs ++ more) c) := by
  intro s u s' hs hrun
  obtain ⟨r, shown, edited, hfilled, hout, -, hin⟩ := Shows.run (f := View.put) (fun _ _ _ => rfl) more s
  obtain ⟨rfl, rfl⟩ := Prod.mk.inj (hfilled.symm.trans hrun)
  refine ⟨⟨hs.installation, hs.tree, hs.now, hs.chosen⟩, fun p hp => ?_⟩
  by_cases hmore : p ∈ more
  · exact hin rfl p hmore
  · exact (hs.shown p ((mem_append.mp hp).resolve_right hmore)).trans (congrArg Except.ok (hout p hmore).symm)

lemma leads_fillLanguage (c : Core) : Leads Session.face fillLanguage (Furnished cs c) (Furnished cs c) := by
  have hturn : ∀ i, Leads Session.face (modifyView (·.turn .language i)) (Furnished cs c) (Furnished cs c) := by
    rintro i s u s' hs ⟨⟩
    refine ⟨⟨hs.installation, hs.tree, hs.now, fun k hk => ?_⟩, hs.shown⟩
    rw [← hs.chosen k hk]
    exact if_neg hk
  refine (keeps_view.leads _).bind fun v => ?_
  dsimp only
  split
  · exact ((keeps_log _ _).leads _).bind fun _ => hturn _
  · exact hturn _

lemma leads_furnish (c : Core) :
    Leads Session.face furnish (fun x => Started c x.1) (Furnished (pageCaptions ++ tabCaptions) c) := by
  have hbook : ∀ (book : App.Phrasebook) (dark : Bool),
      Leads Session.face (modifyView fun w => { w with book := book, dark := dark }) (fun x => Started c x.1) (Furnished [] c) := by
    rintro book dark s u s' hs ⟨⟩
    exact ⟨⟨hs.installation, hs.tree, hs.now, hs.chosen⟩, nofun⟩
  have hhelp : ∀ help : Text, Keeps Session.face (modifyView fun w => { w with help := help }) := fun _ _ => rfl
  refine ((keeps_log _ _).leads _).bind fun _ => ((keeps_preference _ _).leads _).bind fun _ =>
    ((keeps_preference _ _).leads _).bind fun _ => ((keeps_preference _ _).leads _).bind fun dark =>
    ((keeps_loadBook _).leads _).bind fun book => (hbook book dark.isTrue).bind fun _ => (keeps_fillIcon.leads _).bind fun _ =>
    (leads_fillCaptions c pageCaptions).bind fun _ => (leads_fillLanguage c).bind fun _ => ?_
  refine (keeps_get.leads _).bind fun _ => ((keeps_helpPage _).leads _).bind fun help => ((hhelp help).leads _).bind fun _ =>
    (leads_fillCaptions c tabCaptions).bind fun _ => ((keeps_log _ _).leads _).bind fun _ =>
    ((Keeps.forM keeps_fillPicture _).leads _).bind fun _ => (keeps_pure _).leads _

/-! ## Settings in the widgets -/

/-- What a view holds apart from its widgets. -/
def View.rest (w : View) := (w.captions, w.book, w.settings, w.branded)

lemma View.setText_fields (w : View) (f : Field) (v : Value) :
    (w.setText f v).texts = replaced w.texts f (held v) ∧ (w.setText f v).chosen = w.chosen ∧ (w.setText f v).rest = w.rest := by
  rw [setText]
  split
  next heq =>
    refine ⟨?_, rfl, rfl⟩
    funext g
    by_cases hg : g = f
    · rw [replaced, if_pos hg, hg]
      exact eq_of_beq heq
    · rw [replaced, if_neg hg]
  · exact ⟨rfl, rfl, rfl⟩

lemma View.tick_fields (w : View) (c : Check) (b : Bool) :
    (w.tick c b).texts = w.texts ∧ (w.tick c b).chosen = w.chosen ∧ (w.tick c b).rest = w.rest := by
  rw [tick]
  split
  · exact ⟨rfl, rfl, rfl⟩
  · exact ⟨rfl, rfl, rfl⟩

lemma View.settled_fields (w : View) :
    w.settled.texts = w.texts ∧ w.settled.chosen = w.chosen ∧ w.settled.rest = w.rest := ⟨rfl, rfl, rfl⟩

lemma View.choose_fields (w : View) (k : Combo) (i : Nat) :
    (w.choose k i).texts = w.texts ∧ (w.choose k i).chosen = replaced w.chosen k i ∧ (w.choose k i).rest = w.rest :=
  ⟨rfl, rfl, rfl⟩

/-- The choices once a text was chosen in a list with entries, if it is one of them. -/
def choosing (entries : Combo → Nat → Value) (k : Combo) (v : Value) (chosen : Combo → Nat) : Combo → Nat :=
  match ((List.range k.keys.length).map (entries k)).findIdx? (· == v) with
  | some i => replaced chosen k i
  | none => chosen

lemma View.chooseText_fields (w : View) (k : Combo) (v : Value) :
    (w.chooseText k v).texts = w.texts ∧
      (w.chooseText k v).chosen = choosing (fun k i => w.rest.1 (.entry k i)) k v w.chosen ∧
      (w.chooseText k v).rest = w.rest := by
  have hnumber : ((range k.keys.length).map fun i => w.rest.1 (.entry k i)).findIdx? (· == v) = w.entryNumber? k v := rfl
  rw [chooseText, choosing, hnumber]
  cases w.entryNumber? k v with
  | some i => exact ⟨rfl, rfl, rfl⟩
  | none => exact ⟨rfl, rfl, rfl⟩

def filled (s : App.Settings) : Field → Value
  | .config => .str s.path
  | .source => View.held s.source
  | .backup => View.held s.backup
  | .title => View.held s.document.title
  | .version => View.held s.document.version
  | .author => View.held s.document.author
  | .date => View.held s.document.date
  | .logo => View.held s.document.logo
  | .output => View.held s.output

lemma does_fillWidgets {x : App.Settings} (h : formatEntry x.formats = .ok (some i)) :
    Does (fillWidgets x) s (.ok ()) { s.core with
      texts := filled x
      chosen := choosing s.core.entries .headerStyle x.headerStyle (replaced s.core.chosen .formats i)
      edited := false } := by
  let d := x.document
  let ticked : View := ((s.view.tick .readOnly x.readOnly.isTrue).settled.tick .recursive x.recursive).settled
  let listed : View := (ticked.choose .formats i).chooseText .headerStyle x.headerStyle
  let placed : View := (((listed.setText .output x.output).setText .source x.source).setText .config (.str x.path)).setText
    .backup x.backup
  let named : View := ((((placed.setText .title d.title).setText .version d.version).setText .author d.author).setText .date
    d.date).setText .logo d.logo
  let shown : View := ((named.tick .highlightTodo d.highlightTodo.isTrue).settled.tick .showProgress d.showProgress.isTrue).settled
  have hrun : (fillWidgets x).run.run s = (.ok (), { s with view := shown }) := by
    rw [fillWidgets, h]
    rfl
  have htexts : shown.texts = filled x := by
    simp only [shown, named, placed, View.settled_fields, View.tick_fields, View.setText_fields]
    funext f
    cases f <;> rfl
  have hlists : shown.chosen = choosing s.core.entries .headerStyle x.headerStyle (replaced s.core.chosen .formats i) := by
    simp only [shown, named, placed, listed, ticked, View.settled_fields, View.tick_fields, View.setText_fields,
      View.chooseText_fields, View.choose_fields]
    rfl
  have hrest : shown.rest = s.view.rest := by
    simp only [shown, named, placed, listed, ticked, View.settled_fields, View.tick_fields, View.setText_fields,
      View.chooseText_fields, View.choose_fields]
  simp only [View.rest, Prod.mk.injEq] at hrest
  obtain ⟨hcaptions, hbook, hsettings, hbranded⟩ := hrest
  refine ⟨by rw [hrun], ?_⟩
  rw [hrun]
  simp only [Session.core, htexts, hlists, hcaptions, hbook, hsettings, hbranded]
  rfl

lemma does_readSettings (path : Text) :
    Does (readSettings path) s (.ok (Settings.load s.core.installation s.core.now s.core.tree path)) s.core :=
  .get (does_pure _)

lemma does_showNotes_nil : Does (showNotes []) s (.ok ()) s.core := .get (does_pure ())

lemma does_loadSettings {x : App.Settings} (hload : App.Settings.load s.core.installation s.core.now s.core.tree path = (some x, []))
    (h : formatEntry x.formats = .ok (some i)) :
    Does (loadSettings path) s (.ok ()) { s.core with
      texts := filled x
      chosen := choosing s.core.entries .headerStyle x.headerStyle (replaced s.core.chosen .formats i)
      edited := false
      settings := some x
      branded := true } := by
  have hread := does_readSettings (s := s) path
  rw [hload] at hread
  refine hread.bind fun s₁ hs₁ => ?_
  refine (does_modifyView _).bind fun s₂ hs₂ => (does_modifyView _).bind fun s₃ hs₃ => ?_
  have hcore : s₃.core = { s.core with settings := some x, branded := true } := by
    have hsettings : s₂.core = { s₁.core with settings := some x, branded := false } := hs₂
    have hbranded : s₃.core = { s₂.core with branded := true } := hs₃
    rw [hbranded, hsettings, hs₁]
  refine does_showNotes_nil.bind fun s₄ hs₄ => (does_log _ _).bind fun s₅ hs₅ => ?_
  have hfill := does_fillWidgets (s := s₅) h
  rw [hs₅, hs₄, hcore] at hfill
  exact hfill

/-! ## Settings from the widgets -/

/-- The logo of the document is a file, and there are no blanks around its path. -/
def LogoStays (t : Tree) (x : Settings) : Prop :=
  ∃ path, x.document.logo = .str path ∧ Text.trim path = path ∧ t.isFile path = true

/-- Settings with which a run documents the same files in the same way and reports in the same places. They say the same of the
document if its logo is found. -/
structure Agrees (t : Tree) (x y : Settings) : Prop where
  formats : y.formats = x.formats
  output : y.output = x.output
  source : y.source = x.source
  recursive : y.recursive = x.recursive
  readOnly : y.readOnly = x.readOnly
  written : x.readOnly.isTrue = true ∨ (y.headerStyle = x.headerStyle ∧ y.backup = x.backup)
  document : LogoStays t x → y.document = x.document

/-- The core with other settings, which agree with given ones and do not carry the program's particulars. -/
def Taken (c : Core) (x : Settings) (d : Core) : Prop :=
  ∃ y, d = { c with settings := some y, branded := false } ∧ Agrees c.tree x y

def takenFormats (entry : Text) (all : Value) : List Value :=
  let formats := (Text.splitOnChar ',' entry).map fun f => Value.str (Text.trim f)
  if formats.contains all then [.str "html", .str "md"] else formats

/-- The window holds settings in its widgets, and its lists give them back. -/
structure Opened (c : Core) (x : App.Settings) : Prop where
  texts : c.texts = filled x
  edited : c.edited = false
  settings : c.settings = some x
  loads : App.Settings.load c.installation c.now c.tree x.path = (some x, [])
  trimmed : Text.trim x.path = x.path
  isFile : c.tree.isFile x.path = true
  formats : ∃ entry all, entry ≠ [] ∧ c.entries .formats (c.chosen .formats) = .str entry ∧
    c.book.phrase "settingsTab.Allprefix" = .ok all ∧ x.formats = .list (takenFormats entry all)
  style : ∃ entry, c.entries .headerStyle (c.chosen .headerStyle) = .str entry ∧
    (x.readOnly.isTrue = true ∨ (x.headerStyle = .str entry ∧ Text.trim entry = entry))
  output : x.output = .null ∨ ∃ path, x.output = .str path ∧ Text.trim path = path
  backup : x.backup = .null ∨
    ∃ dir, x.backup = .str dir ∧ (x.readOnly.isTrue = true ∨ (dir ≠ [] ∧ Text.trim dir = dir))
  logo : ∃ path, x.document.logo = .str path

variable {x : App.Settings}

lemma reaches_modifySettings {f : Settings → Settings} (hs : Taken c x s.core)
    (h : ∀ y, Agrees c.tree x y → Agrees c.tree x (f y)) : Reaches (modifySettings f) s () (Taken c x) := by
  obtain ⟨y, hs, hy⟩ := hs
  refine (does_modifySettings f).reaches ⟨f y, ?_, h y hy⟩
  rw [hs]
  rfl

lemma held_or (v : Value) : (if (View.held v).isTrue then View.held v else v) = v := by
  cases v with
  | null => rfl
  | _ => exact ite_self _

lemma Taken.tree_eq (hs : Taken c x s.core) : s.core.tree = c.tree := by
  obtain ⟨y, hs, -⟩ := hs
  rw [hs]

lemma Opened.texts_eq (h : Opened c x) (hs : Taken c x s.core) : s.view.texts = filled x := by
  obtain ⟨y, hs, -⟩ := hs
  rw [← h.texts]
  exact congrArg Core.texts hs

lemma Taken.current_eq (hs : Taken c x s.core) (k : Combo) : s.view.current k = c.entries k (c.chosen k) := by
  obtain ⟨y, hs, -⟩ := hs
  change s.core.entries k (s.core.chosen k) = _
  rw [hs]

lemma reaches_takeFormats (h : Opened c x) (hs : Taken c x s.core) : Reaches takeFormats s () (Taken c x) := by
  obtain ⟨entry, all, hne, hentry, hall, hformats⟩ := h.formats
  refine .view ?_
  rw [hs.current_eq, hentry]
  have hphrase : Reaches (phrase "settingsTab.Allprefix") s all (Taken c x) := by
    refine .view (reaches_settle ?_ hs)
    obtain ⟨y, hs, -⟩ := hs
    rw [← hall]
    exact congrArg (fun d : Core => d.book.phrase "settingsTab.Allprefix") hs
  cases entry with
  | nil => exact absurd rfl hne
  | cons e es =>
    exact hphrase.bind fun s' hs' => reaches_modifySettings hs' fun y hy => { hy with formats := hformats.symm }

lemma reaches_takeHeaderStyle (h : Opened c x) (hs : Taken c x s.core) : Reaches takeHeaderStyle s () (Taken c x) := by
  obtain ⟨entry, hentry, hstyle⟩ := h.style
  refine .view ?_
  rw [hs.current_eq, hentry]
  dsimp only
  split
  · refine (reaches_settle rfl hs).bind fun s' hs' =>
      reaches_modifySettings hs' fun y hy => { hy with written := ?_ }
    rcases hstyle with hread | ⟨hstyle, htrim⟩
    · exact .inl hread
    · exact hy.written.imp_right fun hw => ⟨by rw [hstyle, htrim], hw.2⟩
  · exact (does_pure ()).reaches hs

lemma reaches_takeOutput (h : Opened c x) (hs : Taken c x s.core) : ∃ b, Reaches takeOutput s b (Taken c x) := by
  have hpath : ∃ path, stripped (filled x .output) = .ok path ∧ (path ≠ [] → x.output = .str path) := by
    rcases h.output with hout | ⟨path, hout, htrim⟩
    · refine ⟨[], ?_, fun hne => absurd rfl hne⟩
      rw [filled, hout]
      rfl
    · refine ⟨path, ?_, fun _ => hout⟩
      rw [filled, hout]
      exact congrArg Except.ok htrim
  obtain ⟨path, hstripped, hout⟩ := hpath
  have hsettle := reaches_settle (v := stripped (s.view.texts .output)) (by rw [h.texts_eq hs]; exact hstripped) hs
  by_cases hempty : path.isEmpty
  · refine ⟨true, .view (hsettle.bind fun s' hs' => ?_)⟩
    rw [if_pos hempty]
    exact reaches_pure hs'
  · have hne : path ≠ [] := by
      rintro rfl
      exact hempty rfl
    refine ⟨Path.looksLikeDirectory path, .view (hsettle.bind fun s' hs' => ?_)⟩
    rw [if_neg hempty]
    cases hdir : Path.looksLikeDirectory path with
    | true =>
      refine (reaches_modifySettings hs' fun y hy => ?_).bind fun s₁ hs₁ => reaches_pure hs₁
      exact { hy with output := (hout hne).symm }
    | false =>
      exact (reaches_log hs').bind fun s₁ hs₁ => (reaches_setStatus hs₁).bind fun s₂ hs₂ => reaches_pure hs₂

lemma reaches_takePlaces (h : Opened c x) (hs : Taken c x s.core) : Reaches takePlaces s () (Taken c x) := by
  have hsource : (View.held x.source).isTrue → View.held x.source = x.source := by
    cases x.source with
    | null => intro htrue; cases htrue
    | _ => exact fun _ => rfl
  have hbackup : ∃ dir, stripped (filled x .backup) = .ok dir ∧
      (x.readOnly.isTrue ∨ (if dir.isEmpty then .null else .str dir) = x.backup) := by
    rcases h.backup with hnull | ⟨dir, hdir, hkept⟩
    · refine ⟨[], ?_, Or.inr hnull.symm⟩
      rw [filled, hnull]
      rfl
    · refine ⟨Text.trim dir, ?_, hkept.imp_right fun ⟨hne, htrim⟩ => ?_⟩
      · rw [filled, hdir]
        rfl
      · rw [htrim, hdir, if_neg (by simpa using hne)]
  obtain ⟨dir, hstripped, hdir⟩ := hbackup
  refine .view ?_
  extract_lets source rest
  have hback : ∀ s : Session, Taken c x s.core → Reaches (rest ()) s () (Taken c x) := by
    intro s hs
    have htext : stripped (s.view.texts .backup) = .ok dir := by
      rw [h.texts_eq hs]
      exact hstripped
    refine .view ((reaches_settle htext hs).bind fun s' hs' => reaches_modifySettings hs' fun y hy => { hy with written := ?_ })
    rcases hdir with hread | hdir
    · exact .inl hread
    · exact hy.written.imp_right fun hw => ⟨hw.1, hdir⟩
  have htext : source = View.held x.source := by rw [← filled, ← h.texts_eq hs]
  split
  next htrue =>
    refine (reaches_modifySettings hs fun y hy => ?_).bind hback
    exact { hy with source := htext.trans (hsource (htext ▸ htrue)) }
  · exact hback s hs

lemma reaches_modifyDocument {f : App.Document → App.Document} (hs : Taken c x s.core)
    (hf : LogoStays c.tree x → f x.document = x.document) : Reaches (modifyDocument f) s () (Taken c x) := by
  refine reaches_modifySettings hs fun y hy => { hy with document := fun hlogo => ?_ }
  rw [hy.document hlogo, hf hlogo]

lemma reaches_takeDocument (h : Opened c x) (hs : Taken c x s.core) : Reaches takeDocument s () (Taken c x) := by
  refine .view (reaches_modifyDocument hs fun _ => ?_)
  simp only [h.texts_eq hs, filled, held_or]

lemma reaches_takeLogo (h : Opened c x) (hs : Taken c x s.core) : Reaches takeLogo s () (Taken c x) := by
  obtain ⟨path, hlogo⟩ := h.logo
  have htext : stripped (s.view.texts .logo) = .ok (Text.trim path) := by
    rw [h.texts_eq hs, filled, hlogo]
    rfl
  have hstays : LogoStays c.tree x → .trim path = path ∧ c.tree.isFile path := by
    rintro ⟨path', hpath', hfound⟩
    rw [hlogo] at hpath'
    cases hpath'
    exact hfound
  refine .view ((reaches_settle htext hs).bind fun s₁ hs₁ => ?_)
  split
  · exact reaches_pure hs₁
  · refine .tree ?_
    rw [hs₁.tree_eq]
    split
    · refine reaches_modifyDocument hs₁ fun hl => ?_
      rw [(hstays hl).1, ← hlogo]
    next hmissing =>
      refine (reaches_log hs₁).bind fun s₂ hs₂ => reaches_modifyDocument hs₂ fun hl => absurd ?_ hmissing
      rw [(hstays hl).1]
      exact (hstays hl).2

lemma reaches_configPath (h : Opened c x) (hs : s.core = c) : Reaches configPath s x.path (· = c) := by
  have htext : stripped (s.view.texts .config) = .ok x.path := by
    have htexts : s.view.texts = filled x := (congrArg Core.texts hs).trans h.texts
    rw [htexts]
    exact congrArg Except.ok h.trimmed
  refine .view ((reaches_settle (Q := (· = c)) htext hs).bind fun s₁ hs₁ => .tree ?_)
  rw [hs₁, if_pos h.isFile]
  exact reaches_pure hs₁

lemma reaches_takeSettings (h : Opened c x) (hs : s.core = c) : Reaches takeSettings s () (Taken c x) := by
  refine (reaches_configPath h hs).bind fun s₁ hs₁ => .view ?_
  have hsettings : s₁.view.settings = some x := (congrArg Core.settings hs₁).trans h.settings
  have hread : Reaches (readSettings x.path) s₁ (some x, []) (· = c) := by
    have hdoes := does_readSettings (s := s₁) x.path
    rw [hs₁, h.loads] at hdoes
    exact hdoes.reaches rfl
  have hplace : ∀ s : Session, s.core = c →
      Reaches (modifyView fun w => { w with settings := some x, branded := false }) s () (Taken c x) := by
    rintro s rfl
    exact (does_modifyView _).reaches ⟨x, rfl, rfl, rfl, rfl, rfl, rfl, .inr ⟨rfl, rfl⟩, fun _ => rfl⟩
  rw [hsettings]
  refine hread.bind fun s₂ hs₂ => (hplace s₂ hs₂).bind fun s₃ hs₃ => (does_showNotes_nil.reaches hs₃).bind fun s₄ hs₄ => ?_
  refine (reaches_takeFormats h hs₄).bind fun s₅ hs₅ => (reaches_takeHeaderStyle h hs₅).bind fun s₆ hs₆ => ?_
  obtain ⟨valid, hvalid⟩ := reaches_takeOutput h hs₆
  refine hvalid.bind fun s₇ hs₇ => ?_
  cases valid with
  | false => exact reaches_pure hs₇
  | true =>
    refine (reaches_takePlaces h hs₇).bind fun s₈ hs₈ => (reaches_takeDocument h hs₈).bind fun s₉ hs₉ =>
      (reaches_takeLogo h hs₉).bind fun s₁₀ hs₁₀ => .view ?_
    have hedited : s₁₀.view.edited = false := by
      obtain ⟨y, hy, -⟩ := hs₁₀
      exact (congrArg Core.edited hy).trans h.edited
    rw [hedited]
    exact reaches_pure hs₁₀

/-! ## A window that opens -/

/-- The phrasebook names the formats as they are, and has plain words for what the other lists offer. -/
structure Speaks (b : Phrasebook) : Prop where
  html : b.phrase "settingsTab.HMTLprefix" = .ok (.str "html")
  md : b.phrase "settingsTab.MDprefix" = .ok (.str "md")
  all : ∃ word, b.phrase "settingsTab.Allprefix" = .ok (.str word) ∧ word ∉ ([[], "html", "md"] : List Text) ∧
    ',' ∉ word ∧ Text.trim word = word
  styles : ∀ key ∈ Combo.headerStyle.keys, ∃ word, b.phrase key = .ok (.str word) ∧ Text.trim word = word

/-- The settings come through a window with a phrasebook as they are. -/
structure Survives (b : Phrasebook) (t : Tree) (x : Settings) : Prop where
  path : Text.trim x.path = x.path
  formats : x.formats ∈ [Value.list [.str "html"], .list [.str "md"], .list [.str "html", .str "md"]]
  output : x.output = .null ∨ ∃ path, x.output = .str path ∧ Text.trim path = path
  source : ∀ path, x.source = .str path → t.isFile path = true → Path.isSource path = true
  backup : x.backup = .null ∨
    ∃ dir, x.backup = .str dir ∧ (x.readOnly.isTrue = true ∨ (dir ≠ [] ∧ Text.trim dir = dir))
  style : x.readOnly.isTrue = true ∨ ∃ key ∈ Combo.headerStyle.keys, b.phrase key = .ok x.headerStyle

lemma takenFormats_word {word all : Text} (hcomma : ',' ∉ word) (htrim : .trim word = word) :
    takenFormats word (.str all) = if all = word then [.str "html", .str "md"] else [.str word] := by
  rw [takenFormats, Text.splitOnChar_of_not_mem hcomma, map_singleton, htrim]
  simp only [contains_cons, contains_nil, Bool.or_false, beq_iff_eq, Value.str.injEq]

lemma Speaks.formats (hb : Speaks b) {formats : Value} {entries : Nat → Value}
    (hentries : ∀ i, i < Combo.formats.keys.length → b.phrase (Caption.entry .formats i).key = .ok (entries i))
    (h : formats ∈ [.list [.str "html"], .list [.str "md"], .list [.str "html", .str "md"]])
    (hi : formatEntry formats = .ok (some i)) :
    ∃ entry all, entry ≠ [] ∧ entries i = .str entry ∧ b.phrase "settingsTab.Allprefix" = .ok all ∧
      formats = .list (takenFormats entry all) := by
  obtain ⟨word, hword, hother, hcomma, htrim⟩ := hb.all
  simp only [mem_cons, not_mem_nil, or_false, not_or] at hother
  simp only [mem_cons, not_mem_nil, or_false] at h
  rcases h with rfl | rfl | rfl
  · cases hi
    refine ⟨"html", .str word, by decide, Except.ok.inj ((hentries 0 (by decide)).symm.trans hb.html), hword, ?_⟩
    rw [takenFormats_word (by decide) (by decide), if_neg hother.2.1]
  · cases hi
    refine ⟨"md", .str word, by decide, Except.ok.inj ((hentries 1 (by decide)).symm.trans hb.md), hword, ?_⟩
    rw [takenFormats_word (by decide) (by decide), if_neg hother.2.2]
  · cases hi
    refine ⟨word, .str word, hother.1, Except.ok.inj ((hentries 2 (by decide)).symm.trans hword), hword, ?_⟩
    rw [takenFormats_word hcomma htrim, if_pos rfl]

lemma key_entry (h : i < k.keys.length) : (Caption.entry k i).key = k.keys[i] := by
  change k.keys[i]?.getD [] = _
  rw [getElem?_eq_getElem h, Option.getD_some]

lemma choosing_other (entries : Combo → Nat → Value) (v : Value) {k' : Combo} (h : k' ≠ k) :
    choosing entries k v chosen k' = chosen k' := by
  rw [choosing]
  cases ((range k.keys.length).map (entries k)).findIdx? (· == v) with
  | some i => exact if_neg h
  | none => rfl

/-- The style that is chosen in the list: that of the settings, if the list offers it. -/
lemma Speaks.style (hb : Speaks b) {entries : Combo → Nat → Value} (style : Value)
    (hentries : ∀ i, i < Combo.headerStyle.keys.length → b.phrase (Caption.entry .headerStyle i).key = .ok (entries .headerStyle i))
    (hchosen : chosen .headerStyle < Combo.headerStyle.keys.length) :
    ∃ entry, entries .headerStyle (choosing entries .headerStyle style chosen .headerStyle) = .str entry ∧
      ((∃ key ∈ Combo.headerStyle.keys, b.phrase key = .ok style) → style = .str entry ∧ .trim entry = entry) := by
  have hplain : ∀ i, i < Combo.headerStyle.keys.length → ∃ word, entries .headerStyle i = .str word ∧ .trim word = word := by
    intro i hi
    have hkey : (Caption.entry .headerStyle i).key ∈ Combo.headerStyle.keys := by
      rw [key_entry hi]
      exact getElem_mem hi
    obtain ⟨word, hword, htrim⟩ := hb.styles _ hkey
    exact ⟨word, Except.ok.inj ((hentries i hi).symm.trans hword), htrim⟩
  rw [choosing]
  cases hfound : ((range Combo.headerStyle.keys.length).map (entries .headerStyle)).findIdx? (· == style) with
  | some i =>
    obtain ⟨hi, hsame, -⟩ := findIdx?_eq_some_iff_getElem.mp hfound
    rw [length_map, length_range] at hi
    obtain ⟨word, hword, htrim⟩ := hplain i hi
    simp only [getElem_map, getElem_range, beq_iff_eq] at hsame
    refine ⟨word, ?_, fun _ => ⟨hsame.symm.trans hword, htrim⟩⟩
    dsimp only
    rw [replaced, if_pos rfl, hword]
  | none =>
    obtain ⟨word, hword, -⟩ := hplain _ hchosen
    refine ⟨word, hword, ?_⟩
    rintro ⟨key, hkey, hstyle⟩
    have hnone := findIdx?_eq_none_iff.mp hfound
    obtain ⟨i, hi, hkeyi⟩ := mem_iff_getElem.mp hkey
    have hentry : entries .headerStyle i = style := by
      have hphrase := hentries i hi
      rw [key_entry hi, hkeyi, hstyle] at hphrase
      exact (Except.ok.inj hphrase).symm
    have hno := hnone _ (mem_map_of_mem (mem_range.mpr hi))
    rw [hentry] at hno
    simp at hno

lemma entry_mem_pageCaptions (h : i < k.keys.length) : .entry k i ∈ pageCaptions := by
  revert i
  cases k <;> decide

/-- Once the window is furnished, it opens with settings that are loaded. -/
lemma ran_build {kept : Value} {c : Char} {cs : Text} (hfurnish : furnish.run.run s = (.ok kept, s'))
    (hload : Settings.load s.installation s.world.now s.world.tree (c :: cs) = (some x, []))
    (hi : formatEntry x.formats = .ok (some i)) :
    (s.run (build (some (c :: cs)))).1 = .ok () ∧ (s.run (build (some (c :: cs)))).2.core = { s'.core with
      texts := filled x
      chosen := choosing s'.core.entries .headerStyle x.headerStyle (replaced s'.core.chosen .formats i)
      edited := false
      settings := some x
      branded := true } := by
  have hstarted : Started s.core s'.core := (leads_furnish s.core s kept s' ⟨rfl, rfl, rfl, fun _ _ => rfl⟩ hfurnish).toStarted
  have hread : Settings.load s'.core.installation s'.core.now s'.core.tree (c :: cs) = (some x, []) := by
    rw [hstarted.installation, hstarted.now, hstarted.tree]
    exact hload
  have hrun : (build (some (c :: cs))).run.run s = (loadSettings (c :: cs)).run.run s' := by rw [build, run_bind, hfurnish]
  have hcore : (s.run (build (some (c :: cs)))).2.core = ((build (some (c :: cs))).run.run s).2.core := keeps_showPending.silent _
  rw [hcore, hrun]
  refine ⟨?_, (does_loadSettings hread hi).2⟩
  rw [← (does_loadSettings hread hi).1, ← hrun]
  rfl

lemma opened_of_build {s₀ : Session} (hview : s₀.view = {}) (hpath : path ≠ [])
    (hload : Settings.load s₀.installation s₀.world.now s₀.world.tree path = (some x, []))
    (hbuild : (s₀.run (build (some path))).1 = .ok ()) (hspeaks : Speaks (s₀.run (build (some path))).2.view.book)
    (hsurvives : Survives (s₀.run (build (some path))).2.view.book s₀.world.tree x) :
    Opened (s₀.run (build (some path))).2.core x ∧ (s₀.run (build (some path))).2.core.tree = s₀.world.tree := by
  obtain ⟨hfile, hx⟩ := App.Settings.load_spec hpath hload
  obtain ⟨k, ks, rfl⟩ := exists_cons_of_ne_nil hpath
  obtain ⟨done, hrun⟩ : ∃ done, (build (some (k :: ks))).run.run s₀ = (.ok (), done) := ⟨_, Prod.ext hbuild rfl⟩
  obtain ⟨kept, mid, hfurnish, -⟩ := ran_bind hrun
  have hfurnished := leads_furnish s₀.core s₀ kept mid ⟨rfl, rfl, rfl, fun _ _ => rfl⟩ hfurnish
  have hmid : Started s₀.core mid.core := hfurnished.toStarted
  have hentries : ∀ k i, i < k.keys.length → mid.core.book.phrase (Caption.entry k i).key = .ok (mid.core.entries k i) :=
    fun k i hi => hfurnished.shown _ (mem_append_left _ (entry_mem_pageCaptions hi))
  have hoffered : ∀ v ∈ [.list [.str "html"], .list [.str "md"], .list [.str "html", .str "md"]],
      ∃ i, formatEntry v = .ok (some i) := forall_mem_cons.mpr ⟨⟨0, rfl⟩, forall_mem_cons.mpr ⟨⟨1, rfl⟩, forall_mem_singleton.mpr ⟨2, rfl⟩⟩⟩
  obtain ⟨i, hi⟩ := hoffered _ hsurvives.formats
  have hcore := (ran_build hfurnish hload hi).2
  have hbook : (s₀.run (build (some (k :: ks)))).2.view.book = mid.core.book := congrArg Core.book hcore
  rw [hbook] at hspeaks hsurvives
  rw [hcore]
  have hchosen : replaced mid.core.chosen .formats i .headerStyle < Combo.headerStyle.keys.length := by
    have hstart := hmid.chosen .headerStyle (by decide)
    rw [show s₀.core.chosen = s₀.view.chosen from rfl, hview] at hstart
    exact lt_of_eq_of_lt hstart (by decide)
  obtain ⟨entry, hentry, hstyle⟩ := hspeaks.style x.headerStyle (hentries .headerStyle) hchosen
  refine ⟨{
    texts := rfl
    edited := rfl
    settings := rfl
    loads := ?_
    trimmed := hsurvives.path
    isFile := ?_
    formats := ?_
    style := ⟨entry, hentry, hsurvives.style.imp_right hstyle⟩
    output := hsurvives.output
    backup := hsurvives.backup
    logo := hx.logo }, hmid.tree⟩
  · change Settings.load mid.core.installation mid.core.now mid.core.tree x.path = _
    rw [hx.path, hmid.installation, hmid.now, hmid.tree]
    exact hload
  · rw [hx.path]
    exact (congrArg (·.isFile (k :: ks)) hmid.tree).trans hfile
  · obtain ⟨entry, all, hne, hentry, hall, hformats⟩ := hspeaks.formats (hentries .formats) hsurvives.formats hi
    refine ⟨entry, all, hne, ?_, hall, hformats⟩
    rw [← hentry]
    change mid.core.entries .formats (choosing _ _ _ _ .formats) = _
    rw [choosing_other _ _ (by decide), replaced, if_pos rfl]

/-! ## A window that can be opened -/

lemma parts_of_key : ∀ p ∈ pageCaptions ++ tabCaptions, ∃ part name, Text.splitOnChar '.' p.key = [part, name] := by
  -- To evaluate the keys would decode them from their bytes; a literal is made of its characters without that.
  have hliteral : ∀ {l part name : Text}, Text.splitOnChar '.' l = [part, name] →
      ∃ part name, Text.splitOnChar '.' (String.ofList l).toList = [part, name] := fun h => ⟨_, _, by rw [String.toList_ofList, h]⟩
  repeat refine forall_mem_cons.mpr ⟨hliteral rfl, ?_⟩
  exact nofun

/-- A phrasebook that is an object of objects. -/
def Sectioned (b : Phrasebook) : Prop := ∃ fields, b.phrases = .obj fields ∧ ∀ f ∈ fields, ∃ phrases, f.2 = .obj phrases

lemma Sectioned.phrase (h : Sectioned b) {p : Caption} (hp : p ∈ pageCaptions ++ tabCaptions) : ∃ v, b.phrase p.key = .ok v := by
  obtain ⟨fields, hb, hfields⟩ := h
  obtain ⟨part, name, hparts⟩ := parts_of_key p hp
  obtain ⟨o, ho⟩ : ∃ o, Phrasebook.follow (.obj fields) [part, name] = .ok o := by
    rw [Phrasebook.follow]
    split
    · exact ⟨_, rfl⟩
    · exact ⟨_, rfl⟩
    next v _ hv =>
      obtain ⟨f, hf, rfl⟩ := Option.map_eq_some_iff.mp hv
      obtain ⟨phrases, hphrases⟩ := hfields f (mem_of_find?_eq_some hf)
      rw [hphrases, Phrasebook.follow]
      split <;> exact ⟨_, rfl⟩
  exact ⟨_, by rw [Phrasebook.phrase, hb, hparts, ho]; rfl⟩

/-- A session with a phrasebook, and with the files and the resources of another one. -/
def Equipped (b : Phrasebook) (c d : Core) : Prop := d.book = b ∧ d.tree = c.tree ∧ d.installation = c.installation

variable {Q : Core → Prop} {message? : Option Text}

lemma reaches_loadBook {language : Text} (h : Phrasebook.load s.core.installation s.core.tree language = .ok (b, message?))
    (hs : Q s.core) : Reaches (loadBook language) s b Q := by
  have hprint : ∀ text, Reaches (inWorld (WorldM.print text)) s () (· = s.core) := fun _ => ⟨_, rfl, rfl⟩
  refine (hprint _).bind fun s₁ hs₁ => .step rfl (.tree ?_)
  rw [← hs₁] at h hs
  refine (reaches_settle h hs).bind fun s₂ hs₂ => ?_
  cases message? with
  | none => exact reaches_pure hs₂
  | some message => exact (reaches_log hs₂).bind fun s₃ hs₃ => reaches_pure hs₃

lemma reaches_fillIcon (hs : Q s.core) : Reaches fillIcon s () Q := by
  have hprint : ∀ text, Reaches (inWorld (WorldM.print text)) s () Q := fun _ => ⟨_, rfl, hs⟩
  exact .step rfl ((hprint _).bind fun s₁ hs₁ => .tree (.ite ((does_modifyView _).reaches hs₁) (reaches_log hs₁)))

lemma reaches_fillPictures (ps : List Picture) (hs : Q s.core) : Reaches (ps.forM fillPicture) s () Q := by
  induction ps generalizing s with
  | nil => exact reaches_pure hs
  | cons p ps ih =>
    have hp : Reaches (fillPicture p) s () Q := .step rfl (.tree (.ite ((does_modifyView _).reaches hs) (reaches_log hs)))
    exact hp.bind fun s₁ hs₁ => ih hs₁

lemma reaches_fillLanguage (hs : Equipped b c s.core) : Reaches fillLanguage s () (Equipped b c) := by
  exact .view (.ite ((reaches_log hs).bind fun s₁ hs₁ => (does_modifyView _).reaches hs₁) ((does_modifyView _).reaches hs))

lemma reaches_fillCaptions (h : ∀ p ∈ cs, ∃ v, b.phrase p.key = .ok v) (hs : Equipped b c s.core) :
    Reaches (fillCaptions cs) s () (Equipped b c) := by
  obtain ⟨r, shown, edited, hfilled, -, hok, -⟩ := Shows.run (f := View.put) (fun _ _ _ => rfl) cs s
  have hbook : s.view.book = b := hs.1
  obtain rfl := hok.mpr (hbook ▸ h)
  exact ⟨_, hfilled, hs⟩

def helpPath (i : App.Installation) : Text := i.resource "../../help.md" (some "assets/help.md")

/-- A window can be filled with a phrasebook: it is found, it has the phrases of all places, and no page of help is in the way. -/
structure Fills (b : Phrasebook) (s : Session) : Prop where
  book : ∃ message?, Phrasebook.load s.core.installation s.core.tree
    ((Value.lookup "language" s.preferences).getD (.str "en")).display = .ok (b, message?)
  phrases : ∀ p ∈ pageCaptions ++ tabCaptions, ∃ v, b.phrase p.key = .ok v
  help : s.core.tree.pathExists (helpPath s.core.installation) = false

lemma Fills.furnish (h : Fills b s) : ∃ kept, Reaches furnish s kept (Equipped b s.core) := by
  obtain ⟨⟨message?, hbook⟩, hphrases, hhelp⟩ := h
  obtain ⟨hpage, htabs⟩ := forall_mem_append.mp hphrases
  obtain ⟨s₁, hlog, hs₁, hpreferences⟩ : ∃ s₁, (log .info "Application started").run.run s = (.ok (), s₁) ∧ s₁.core = s.core ∧
      s₁.preferences = s.preferences := ⟨_, rfl, rfl, rfl⟩
  rw [← hs₁, ← hpreferences] at hbook
  rw [← hs₁] at hhelp ⊢
  refine ⟨(Value.lookup "config_file" s₁.preferences).getD (.str []), .step hlog (.step rfl (.step rfl (.step rfl ?_)))⟩
  have hload := reaches_loadBook (Q := fun d => d.tree = s₁.core.tree ∧ d.installation = s₁.core.installation) hbook ⟨rfl, rfl⟩
  refine hload.bind fun s₂ hs₂ => Reaches.bind (Q := Equipped b s₁.core) ((does_modifyView _).reaches ⟨rfl, hs₂⟩) fun s₃ hs₃ =>
    (reaches_fillIcon hs₃).bind fun s₄ hs₄ => (reaches_fillCaptions hpage hs₄).bind fun s₅ hs₅ =>
    (reaches_fillLanguage hs₅).bind fun s₆ hs₆ => .step rfl ?_
  -- The page of help is looked for once the phrases are shown, in the files from which the window started.
  have hmissing : Reaches (helpPage (helpPath s₆.core.installation)) s₆ Help.missing (Equipped b s₁.core) := by
    refine .tree ?_
    rw [hs₆.2.1, hs₆.2.2, hhelp]
    exact reaches_pure hs₆
  exact hmissing.bind fun s₇ hs₇ => ((does_modifyView _).reaches hs₇).bind fun s₈ hs₈ => (reaches_fillCaptions htabs hs₈).bind
    fun s₉ hs₉ => (reaches_log hs₉).bind fun s₁₀ hs₁₀ => (reaches_fillPictures _ hs₁₀).bind fun s₁₁ hs₁₁ => reaches_pure hs₁₁

lemma Fills.opens (h : Fills b s) (hpath : path ≠ [])
    (hload : Settings.load s.installation s.world.now s.world.tree path = (some x, [])) (hi : formatEntry x.formats = .ok (some i)) :
    (s.run (build (some path))).1 = .ok () ∧ (s.run (build (some path))).2.view.book = b := by
  obtain ⟨k, ks, rfl⟩ := exists_cons_of_ne_nil hpath
  obtain ⟨kept, mid, hfurnish, hmid⟩ := h.furnish
  obtain ⟨hresult, hcore⟩ := ran_build hfurnish hload hi
  exact ⟨hresult, (congrArg Core.book hcore).trans hmid.1⟩

end FunctionDocs.Window
