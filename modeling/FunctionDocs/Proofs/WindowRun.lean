import FunctionDocs.App.Languages
import FunctionDocs.Proofs.CommandRun
import FunctionDocs.Proofs.Saving
import FunctionDocs.Proofs.WindowSettings

/-!
# The run from the window

The window documents with settings that agree with those in the file, but it loses the program's particulars on the way. So it
leaves the files that the run without a window leaves, but for the reports.
-/

namespace FunctionDocs.Window

open WindowM
open App (Phrasebook Settings openSource sampleHome sampleOptions sampleSettings sampleWorld)
open Run (Gives FirstWritable ReportAt)

variable {α β : Type} {s : Session} {c d : Core} {x y : Settings} {t : Tree} {fs : List Value} {b : Phrasebook}

/-! ## Source files -/

lemma sourceFilesAt_of_named (t : Tree) (v : Value) (deep : Bool) :
    match named t v with
    | .error f => sourceFilesAt t v deep = .error f
    | .ok .other => sourceFilesAt t v deep = .ok []
    | .ok .directory => True
    | .ok (.file path) => v = .str path ∧ t.isFile path := by
  cases v with
  | str path =>
    by_cases hfile : t.isFile path
    · simp only [named, hfile, ↓reduceIte, and_self]
    · by_cases hdir : t.isDir path
      · simp only [named, hfile, hdir, ↓reduceIte, Bool.false_eq_true]
      · simp only [named, hfile, hdir, Bool.false_eq_true, ↓reduceIte, sourceFilesAt, sourceFiles]
  | _ => rfl

lemma Taken.view (hs : Taken c x s.core) :
    ∃ y, s.view.settings = some y ∧ s.view.branded = false ∧ s.core.tree = c.tree ∧ Agrees c.tree x y := by
  obtain ⟨y, hs, hy⟩ := hs
  exact ⟨y, congrArg Core.settings hs, congrArg Core.branded hs, by rw [hs], hy⟩

lemma does_filesAt (hs : Taken c x s.core) (place : Value) :
    Does (filesAt place) s ((sourceFilesAt c.tree place x.recursive).mapError .failed) s.core := by
  obtain ⟨y, hsettings, -, htree, hagrees⟩ := hs.view
  refine .view ?_
  rw [hsettings, ← htree, ← hagrees.recursive]
  exact .tree (does_settle _)

lemma does_sourcesInWindow (h : Opened c x) (hs : Taken c x s.core)
    (hsource : ∀ path, x.source = .str path → c.tree.isFile path → Path.isSource path) :
    Does sourcesInWindow s ((sourceFilesAt c.tree x.source x.recursive).mapError .failed) s.core := by
  obtain ⟨y, hsettings, -, htree, hagrees⟩ := hs.view
  refine Does.view ?_
  have htext : s.view.texts .source = View.held x.source := congrFun (h.texts_eq hs) .source
  rw [htext]
  dsimp only
  split
  next htrue =>
    have hheld : View.held x.source = x.source := by
      cases hx : x.source with
      | null => rw [hx] at htrue; cases htrue
      | _ => rfl
    rw [hheld]
    refine .tree ?_
    rw [htree]
    have hnamed := sourceFilesAt_of_named c.tree x.source x.recursive
    have hsettle := does_settle (s := s) (named c.tree x.source)
    cases hn : named c.tree x.source with
    | error f =>
      rw [hn] at hnamed hsettle
      rw [hnamed]
      exact hsettle.stop
    | ok place =>
      rw [hn] at hnamed hsettle
      refine hsettle.bind fun s' hs' => ?_
      cases place with
      | other =>
        rw [hnamed, ← hs']
        exact (does_log _ _).bind fun s₂ hs₂ => hs₂ ▸ does_pure []
      | directory =>
        rw [← hs']
        exact does_filesAt (hs' ▸ hs) x.source
      | file path =>
        obtain ⟨hpath, hfile⟩ := hnamed
        have hfiles : sourceFilesAt c.tree x.source x.recursive = .ok [path] := by
          rw [hpath, sourceFilesAt, sourceFiles, if_pos hfile, if_pos (hsource path hpath hfile)]
        rw [hfiles, ← hs']
        exact does_pure [path]
  · refine .view ?_
    rw [hsettings, Option.map_some, hagrees.source]
    have hfiles := does_filesAt hs x.source
    cases hat : sourceFilesAt c.tree x.source x.recursive with
    | error f =>
      rw [hat] at hfiles
      exact hfiles.stop
    | ok files =>
      rw [hat] at hfiles
      refine hfiles.bind fun s₁ hs₁ => (does_log _ _).bind fun s₂ hs₂ => ?_
      rw [← hs₁, ← hs₂]
      exact does_pure files

/-! ## The run from the window -/

lemma config_eq (h : s.core.settings = some y) (hb : s.core.branded = false) : s.view.config = y.toValue := by
  change s.view.settings = some y at h
  change s.view.branded = false at hb
  rw [View.config, h, hb]
  rfl

lemma silent_told {level : Level} {message status : Text} {a : α} : Silent (do log level message; setStatus status; return a) :=
  (silent_log _ _).bind fun _ => (silent_setStatus _).bind fun _ => silent_pure a

lemma leaves_writeReports {a : Value} (ha : s.view.config = a) (es : List Entry) :
    Leaves (writeReports es) s (·.tree = ((Run.save a es).run.run s.core.tree).2) := by
  refine Leaves.recover (.view (Leaves.silent ?_ fun saved => ?_)) fun _ => silent_told
  · rw [ha]
    exact (does_onFiles _).leaves rfl
  · refine Silent.ite ?_ ?_
    · exact (silent_setStatus _).bind fun _ => (silent_log _ _).bind fun _ => silent_pure _
    · refine (silent_setStatus _).bind fun _ => Silent.bind (fun _ => (does_setVisible _ _).2) fun _ => ?_
      exact (silent_log _ _).bind fun _ => silent_pure _

def concludedTree (y : Settings) (t : Tree) : Run.Outcome → Tree
  | .documented (e :: es) => ((Run.save y.toValue (e :: es)).run.run t).2
  | _ => t

lemma leaves_conclude (hconfig : s.view.config = y.toValue) (outcome : Run.Outcome) :
    Leaves (conclude outcome) s (·.tree = concludedTree y s.core.tree outcome) := by
  match outcome with
  | .refused reason =>
    exact silent_told.leaves rfl
  | .documented [] =>
    exact silent_told.leaves rfl
  | .documented (e :: es) => exact leaves_writeReports hconfig (e :: es)

def documentedTree (y : Settings) (files : List Text) (t : Tree) : Tree :=
  match (Run.generate y.toValue files).run.run t with
  | (.ok outcome, t') => concludedTree y t' outcome
  | (.error _, t') => t'

lemma leaves_document (hsettings : s.core.settings = some y) (hbranded : s.core.branded = false) (files : List Text) :
    Leaves (document files) s (·.tree = documentedTree y files s.core.tree) := by
  refine .view ?_
  have hrun := does_onFiles (s := s) (Run.generate y.toValue files)
  rw [config_eq hsettings hbranded, documentedTree]
  match hgen : (Run.generate y.toValue files).run.run s.core.tree with
  | (.error f, t') =>
    rw [hgen] at hrun
    exact hrun.stop.leaves rfl
  | (.ok outcome, t') =>
    rw [hgen] at hrun
    refine (hrun.reaches (Q := (· = { s.core with tree := t' })) rfl).after fun s₂ hs₂ => ?_
    have hconfig : s₂.view.config = y.toValue := by
      refine config_eq ?_ ?_
      · rw [hs₂]
        exact hsettings
      · rw [hs₂]
        exact hbranded
    have hconclude := leaves_conclude hconfig outcome
    rw [hs₂] at hconclude
    exact hconclude

/-- The files that documenting from the window leaves, given the source files or the failure to name them. -/
def generatedTree (y : Settings) (files : Except Failure (List Text)) (t : Tree) : Tree :=
  match files with
  | .ok files => documentedTree y files t
  | .error _ => t

lemma leaves_generate (h : Opened s.core x)
    (hsource : ∀ path, x.source = .str path → s.core.tree.isFile path → Path.isSource path) :
    Leaves generate s fun d => ∃ y, Agrees s.core.tree x y ∧ d.tree =
      generatedTree y (sourceFilesAt s.core.tree x.source x.recursive) s.core.tree := by
  have hsame : ∀ {α : Type} {m : WindowM α} {s' : Session} {a : α}, s'.core = s.core → Does m s' (.ok a) s'.core →
      Reaches m s' a (· = s.core) := fun hs' hm => hm.reaches hs'
  refine (hsame rfl (does_log _ _)).after fun s₁ hs₁ => (hsame hs₁ (does_setVisible _ _)).after fun s₂ hs₂ =>
    (hsame hs₂ (does_setStatus _)).after fun s₃ hs₃ => (reaches_takeSettings h hs₃).after fun s₄ hs₄ => ?_
  obtain ⟨y, hsettings, hbranded, htree, hagrees⟩ := hs₄.view
  refine (?_ : Leaves _ s₄ (·.tree = generatedTree y _ _)).imp fun _ hd => ⟨y, hagrees, hd⟩
  have hsources := does_sourcesInWindow h hs₄ hsource
  cases hfiles : sourceFilesAt s.core.tree x.source x.recursive with
  | error f =>
    rw [hfiles] at hsources
    exact hsources.stop.leaves htree
  | ok files =>
    rw [hfiles] at hsources
    refine (hsources.reaches (Q := (· = s₄.core)) rfl).after fun s₅ hs₅ => ?_
    rw [← hs₅] at htree
    cases files with
    | nil =>
      -- Without source files nothing is documented, which is what documenting none of them leaves.
      exact silent_told.leaves htree
    | cons file files =>
      have hdocument := leaves_document ((congrArg Core.settings hs₅).trans hsettings)
        ((congrArg Core.branded hs₅).trans hbranded) (file :: files)
      rw [htree] at hdocument
      exact hdocument

/-! ## The same run without a window -/

lemma request_eq (x : Settings) :
    Run.Request.ofArguments x.arguments = .ok ⟨x.readOnly.isTrue, x.headerStyle, x.backup⟩ ∧
      Run.Request.ofArguments x.toValue = .ok ⟨x.readOnly.isTrue, x.headerStyle, x.backup⟩ := ⟨rfl, rfl⟩

lemma run_generate_eq (h : Agrees t x y) (files : List Text) (t : Tree) :
    (Run.generate y.toValue files).run.run t = (Run.generate x.arguments files).run.run t := by
  rw [Run.generate, Run.generate, (request_eq x).1, (request_eq y).2, h.readOnly]
  change (Run.documentFiles _ files).run.run t = (Run.documentFiles _ files).run.run t
  rcases h.written with hread | ⟨hstyle, hbackup⟩
  · rw [Run.documentFiles_readOnly hread, Run.documentFiles_readOnly hread]
  · rw [hstyle, hbackup]

/-- The run gives documented functions, and the first of their reports can be written. -/
def Reported (x : Settings) (t : Tree) : Prop :=
  ∃ files es t' fs, sourceFilesAt t x.source x.recursive = .ok files ∧
    Gives (Run.generate x.arguments files) t (.documented es) t' ∧ es ≠ [] ∧ x.formats = .list fs ∧ FirstWritable x.output fs t'

def commandTree (x : Settings) (t : Tree) : Tree :=
  match sourceFilesAt t x.source x.recursive with
  | .error _ => t
  | .ok files =>
    match (Run.generate x.arguments files).run.run t with
    | (.error _, t') => t'
    | (.ok outcome, t') => (App.reportOn x t' outcome).2

lemma runOnFiles_tree {i : App.Installation} {dir : Text} {o : App.Options} {now : Moment} (hfile : o.file = none)
    (hload : (Settings.load i now t (o.configPath dir)).1 = some x) :
    (App.runOnFiles i dir o now t).2 = commandTree x t := by
  have hsources : App.sourcesFor o x t = sourceFilesAt t x.source x.recursive := by rw [App.sourcesFor, hfile]
  rw [App.runOnFiles, hload, commandTree]
  dsimp only
  rw [hsources]
  cases sourceFilesAt t x.source x.recursive with
  | error f => rfl
  | ok files =>
    dsimp only
    rcases (Run.generate x.arguments files).run.run t with ⟨_ | outcome, t'⟩
    · rfl
    · rfl

lemma reportOn_documented (x : Settings) (t : Tree) (e : Entry) (es : List Entry) :
    (App.reportOn x t (.documented (e :: es))).2 = ((Run.save x.arguments (e :: es)).run.run t).2 := by
  rw [App.reportOn]
  rcases (Run.save x.arguments (e :: es)).run.run t with ⟨_ | saved, t'⟩
  · rfl
  · rfl

lemma sameFiles_outputPath (x : Settings) (t : Tree) : Tree.SameFiles t ((Run.outputPath x.arguments).run.run t).2 := by
  intro p bs
  rw [Run.run_outputPath rfl]
  cases hout : Run.outputTree x.output t with
  | error f => exact .rfl
  | ok saved => exact (Tree.ensureDirs_file (Run.outputTree_ok hout).2).symm

lemma sameFiles_of_not_reported (h : Agrees t x y) (hformats : x.formats = .list fs)
    (hfs : ∀ f ∈ fs, f ∈ Run.offeredFormats) (hnot : ¬Reported x t) :
    Tree.SameFiles (generatedTree y (sourceFilesAt t x.source x.recursive) t) (commandTree x t) := by
  rw [commandTree]
  cases hfiles : sourceFilesAt t x.source x.recursive with
  | error f => exact fun _ _ => Iff.rfl
  | ok files =>
    dsimp only [generatedTree]
    rw [documentedTree, run_generate_eq h]
    match hgen : (Run.generate x.arguments files).run.run t with
    | (.error f, t') => exact fun _ _ => Iff.rfl
    | (.ok (.refused reason), t') => exact sameFiles_outputPath x t'
    | (.ok (.documented []), t') => exact fun _ _ => Iff.rfl
    | (.ok (.documented (e :: es)), t') =>
      have hcomplete := Run.complete_of_generate hgen
      have hwritable : ¬FirstWritable x.output fs t' := fun hw =>
        hnot ⟨files, e :: es, t', fs, hfiles, hgen, List.cons_ne_nil e es, hformats, hw⟩
      have hsame := (Run.save_pair hcomplete hformats hfs h.output h.formats t').2.2.1 hwritable
      dsimp only [concludedTree]
      rw [reportOn_documented, hsame]
      exact fun _ _ => Iff.rfl

/-- With a report, both runs leave the same files but for the report, which differs: in the version only, if the same is known of
the document. -/
lemma differ_of_reported (h : Agrees t x y) (hformats : x.formats = .list fs)
    (hfs : ∀ f ∈ fs, f ∈ Run.offeredFormats) (hreported : Reported x t) :
    (∀ p, ¬ReportAt x.output (commandTree x t) p →
        (commandTree x t).at? p = (generatedTree y (sourceFilesAt t x.source x.recursive) t).at? p) ∧
      Tree.Differ (commandTree x t) (generatedTree y (sourceFilesAt t x.source x.recursive) t) ∧
      (y.document = x.document →
        Tree.SameButVersions (commandTree x t) (generatedTree y (sourceFilesAt t x.source x.recursive) t)) := by
  obtain ⟨files, es, t', fs', hfiles, hgen, hne, hfs', hwritable⟩ := hreported
  rw [hformats] at hfs'
  cases hfs'
  obtain ⟨e, es, rfl⟩ := List.exists_cons_of_ne_nil hne
  have hcommand : commandTree x t = ((Run.save x.arguments (e :: es)).run.run t').2 := by
    rw [Gives] at hgen
    simp only [commandTree, hfiles, hgen, reportOn_documented]
  have hwindow : generatedTree y (sourceFilesAt t x.source x.recursive) t = ((Run.save y.toValue (e :: es)).run.run t').2 := by
    rw [Gives] at hgen
    simp only [generatedTree, documentedTree, hfiles, run_generate_eq h, hgen, concludedTree]
  rw [hcommand, hwindow]
  obtain ⟨helse, hdiffer, -, hversions⟩ := Run.save_pair (Run.complete_of_generate hgen) hformats hfs h.output h.formats t'
  exact ⟨helse, hdiffer hwritable, hversions⟩

lemma Survives.offered (h : Survives b t x) : ∃ fs, x.formats = .list fs ∧ ∀ f ∈ fs, f ∈ Run.offeredFormats := by
  have hformats := h.formats
  simp only [List.mem_cons, List.not_mem_nil, or_false] at hformats
  rcases hformats with hf | hf | hf
  · exact ⟨_, hf, by decide⟩
  · exact ⟨_, hf, by decide⟩
  · exact ⟨_, hf, by decide⟩

def windowFiles (s : Session) (path : Text) : Tree := ((s.run (build (some path))).2.run generate).2.world.tree

def commandFiles (s : Session) (o : App.Options) : Tree :=
  ((App.runWithoutWindow s.installation s.programDir o).run.run s.world).2.tree

lemma runs_agree {path : Text} {o : App.Options} (hview : s.view = {}) (hpath : path ≠ []) (hconfig : o.config = some path)
    (hfile : o.file = none) (hload : Settings.load s.installation s.world.now s.world.tree path = (some x, []))
    (hopen : (s.run (build (some path))).1 = .ok ()) (hspeaks : Speaks (s.run (build (some path))).2.view.book)
    (hsurvives : Survives (s.run (build (some path))).2.view.book s.world.tree x) :
    ∃ y, Agrees s.world.tree x y ∧
      windowFiles s path = generatedTree y (sourceFilesAt s.world.tree x.source x.recursive) s.world.tree ∧
      commandFiles s o = commandTree x s.world.tree := by
  obtain ⟨hopened, htree⟩ := opened_of_build hview hpath hload hopen hspeaks hsurvives
  have hleaves := leaves_generate hopened (by rw [htree]; exact hsurvives.source)
  rw [htree] at hleaves
  obtain ⟨y, hagrees, hy⟩ := hleaves
  refine ⟨y, hagrees, ?_, ?_⟩
  · rw [← hy, windowFiles]
    exact congrArg Core.tree (keeps_showPending.silent _)
  · have hname : o.configPath s.programDir = path := by
      rw [App.Options.configPath, hconfig]
      exact if_neg (by simpa using hpath)
    rw [commandFiles, (App.runWithoutWindow_ends _ _ o s.world).tree]
    refine runOnFiles_tree hfile ?_
    rw [hname, hload]

def listPhrases : Value :=
  .obj [("settingsTab", .obj [("Allprefix", .str "all"), ("Defaultprefix", .str "default"), ("Doxygenprefix", .str "doxygen"),
    ("HMTLprefix", .str "html"), ("MDprefix", .str "md")])]

def sampleSession (x : Settings) : Session where
  installation := sampleHome
  programDir := "/app"
  world :=
    let w := sampleWorld x openSource
    { w with tree := ⟨(["app", "lang", "en.json"], .file (Bytes.ofText (Json.write listPhrases))) :: (["app", "lang"], .dir) ::
      (["app"], .dir) :: (["logo.svg"], .file []) :: w.tree.nodes, []⟩ }

deriving instance DecidableEq for Phrasebook

/-- The small project has these settings and the phrases of the lists, and no page of help. -/
def Sampled (x : Settings) : Prop :=
  Settings.load sampleHome (sampleSession x).world.now (sampleSession x).world.tree "c.json" = (some x, []) ∧
    Phrasebook.load sampleHome (sampleSession x).world.tree "en" = .ok (⟨"en", listPhrases⟩, none) ∧
    (sampleSession x).world.tree.pathExists (helpPath sampleHome) = false

instance : DecidablePred Sampled := fun _ => inferInstanceAs (Decidable (_ ∧ _))

lemma Sampled.opens {i : Nat} (h : Sampled x) (hi : formatEntry x.formats = .ok (some i)) :
    ((sampleSession x).run (build (some "c.json"))).1 = .ok () ∧
      ((sampleSession x).run (build (some "c.json"))).2.view.book = ⟨"en", listPhrases⟩ := by
  obtain ⟨hload, hbook, hhelp⟩ := h
  have hsections : Sectioned ⟨"en", listPhrases⟩ := ⟨_, rfl, List.forall_mem_singleton.mpr ⟨_, rfl⟩⟩
  have hfills : Fills ⟨"en", listPhrases⟩ (sampleSession x) := ⟨⟨none, hbook⟩, fun p hp => hsections.phrase hp, hhelp⟩
  exact hfills.opens (by decide) hload hi

lemma speaks_listPhrases : Speaks ⟨"en", listPhrases⟩ :=
  ⟨rfl, rfl, ⟨"all", rfl, by decide⟩, List.forall_mem_cons.mpr
    ⟨⟨"doxygen", rfl, by decide⟩, List.forall_mem_singleton.mpr ⟨"default", rfl, by decide⟩⟩⟩

/-- The settings of a run that writes comments into the source file, and no report. -/
def writtenOnly : Settings := { sampleSettings "md" with output := .null, readOnly := .bool false }

end FunctionDocs.Window
