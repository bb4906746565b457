import FunctionDocs.App.Settings
import FunctionDocs.Proofs.KeptCode

/-!
# Loading settings

Reading a configuration only adds messages, and it succeeds exactly on a sound one. So loading ends with settings unless neither
file can be used, and each look-up of a key that is missing gives one message.
-/

open List

namespace FunctionDocs.App.Settings

variable {α β : Type} {i : Installation} {now : Moment} {t : Tree} {path : Text} {config : Value} {m : ReadM α} {P Q : Prop} {a : α}
  {ns ns' : List Text}

/-- A step of reading settings: under a condition it gives a value and notes messages, and otherwise it fails. -/
structure Step (m : ReadM α) (P : Prop) (a : α) (ns : List Text) : Prop where
  gives : P → ∀ notes, m.run.run notes = (.ok a, notes ++ ns)
  breaks : ¬P → ∀ notes, ∃ f more, m.run.run notes = (.error f, notes ++ more)

lemma Step.bind {f : α → ReadM β} {b : β} (h : Step m P a ns)
    (hf : Step (f a) Q b ns') : Step (m >>= f) (P ∧ Q) b (ns ++ ns') := by
  refine ⟨fun ⟨hP, hQ⟩ notes => ?_, fun hnot notes => ?_⟩
  · rw [Run.run_bind, h.gives hP notes, ← append_assoc]
    exact hf.gives hQ _
  · by_cases hP : P
    · obtain ⟨e, more, hrun⟩ := hf.breaks (fun hQ => hnot ⟨hP, hQ⟩) (notes ++ ns)
      refine ⟨e, ns ++ more, ?_⟩
      rw [Run.run_bind, h.gives hP notes, ← append_assoc]
      exact hrun
    · obtain ⟨e, more, hrun⟩ := h.breaks hP notes
      exact ⟨e, more, by rw [Run.run_bind, hrun]⟩

lemma Step.congr (h : Step m P a ns) (hP : P ↔ Q) (hns : ns = ns') : Step m Q a ns' := by
  rw [← propext hP, ← hns]
  exact h

lemma step_pure (a : α) : Step (pure a) True a [] := ⟨fun _ notes => by rw [append_nil]; rfl, fun hnot => absurd trivial hnot⟩

lemma step_note (message : Text) : Step (note message) True () [message] := ⟨fun _ _ => rfl, fun hnot => absurd trivial hnot⟩

lemma step_throw (e : Failure) (a : α) (ns : List Text) (hP : ¬P) : Step (throw e) P a ns :=
  ⟨fun h => absurd h hP, fun _ notes => ⟨e, [], by rw [append_nil]; rfl⟩⟩

/-! ## What a configuration says -/

/-- The fields of a value; none if it is no object. -/
def fieldsIn : Value → List (Text × Value)
  | .obj fields => fields
  | _ => []

/-- The text in a value; empty if it is none. -/
def textIn : Value → Text
  | .str text => text
  | _ => []

/-- The document section; without fields if it is missing. -/
def documentIn (config : Value) : Value := (Value.lookup "document" (fieldsIn config)).getD (.obj [])

/-- A key that is looked up in the document section or outside of it, and what stands for it if it is missing. -/
structure Lookup where
  inDocument : Bool
  key : Text
  default : Value

namespace Lookup

def sectionIn (l : Lookup) (config : Value) : Value := if l.inDocument then documentIn config else config

def sectionName (l : Lookup) : Text := if l.inDocument then "document" else "root"

def value (l : Lookup) (config : Value) : Value := (Value.lookup l.key (fieldsIn (l.sectionIn config))).getD l.default

/-- The messages about the key: one if it is missing. -/
def notes (config : Value) (l : Lookup) : List Text :=
  if (Value.lookup l.key (fieldsIn (l.sectionIn config))).isSome then []
  else ["[configSetup] Missing key '" ++ l.key ++ "' in section '" ++ l.sectionName ++ "', using fallback: " ++ l.default.shown]

def version : Lookup := ⟨true, "version", .str "1.0"⟩

def logo : Lookup := ⟨true, "logoPath", .str "../generator/img/logo.svg"⟩

end Lookup

/-- The keys that are looked up, in order; one of them is looked up twice. -/
def lookups (i : Installation) (config : Value) : List Lookup :=
  let examples := i.resource "../fileExamples" (some "./assets/fileExamples")
  let word := Text.replaceAll (textIn (Lookup.version.value config)) "." "_"
  [⟨true, "date", .str "auto"⟩, .version, ⟨false, "output_format", .list [.str "md"]⟩,
    ⟨true, "title", .str "📄 Documentation"⟩, .version, ⟨true, "author", .str "Unknown"⟩, .logo,
    ⟨true, "highlightTodo", .bool true⟩, ⟨true, "showDocProgress", .bool true⟩, ⟨false, "source_dir", .str examples⟩,
    ⟨false, "recursive", .bool true⟩, ⟨false, "output_path", .str ("./docs/Documentation_" ++ word)⟩,
    ⟨false, "backup_path", .null⟩, ⟨false, "readonly", .bool true⟩, ⟨false, "headerCommentStyle", .null⟩]

/-- The messages about the document section: one if it is missing. -/
def sectionNotes (path : Text) (config : Value) : List Text :=
  if (Value.lookup "document" (fieldsIn config)).isSome then []
  else ["[configSetup] Missing key 'document' in section 'root' in config file '" ++ path ++ "'"]

def notesOn (i : Installation) (path : Text) (config : Value) : List Text :=
  sectionNotes path config ++ (lookups i config).flatMap (Lookup.notes config)

/-- Settings can be made of a configuration: it is an object, its document section is one, the version is a text, and so is the
place of the logo, unless the program runs from a bundle, which has its own. -/
structure Sound (i : Installation) (config : Value) : Prop where
  object : ∃ fields, config = .obj fields
  document : ∃ fields, documentIn config = .obj fields
  version : ∃ word, Lookup.version.value config = .str word
  logo : i.bundle = none → ∃ place, Lookup.logo.value config = .str place

lemma step_fieldsOf (v : Value) : Step (fieldsOf v) (∃ fields, v = .obj fields) (fieldsIn v) [] := by
  cases v with
  | obj fields => exact (step_pure fields).congr (by simp) rfl
  | _ => exact step_throw _ _ _ nofun

lemma step_fieldOr (config : Value) (l : Lookup) :
    Step (fieldOr (l.sectionIn config) l.key l.default l.sectionName) (∃ fields, l.sectionIn config = .obj fields)
      (l.value config) (l.notes config) := by
  refine ((step_fieldsOf (l.sectionIn config)).bind ?_).congr (and_iff_left trivial) (nil_append (l.notes config))
  rw [Lookup.value, Lookup.notes]
  cases Value.lookup l.key (fieldsIn (l.sectionIn config)) with
  | some v => exact step_pure v
  | none => exact ((step_note _).bind (step_pure l.default)).congr (and_iff_left trivial) rfl

lemma step_documentOf (path : Text) (config : Value) :
    Step (documentOf path (fieldsIn config)) True (documentIn config) (sectionNotes path config) := by
  rw [documentOf, documentIn, sectionNotes]
  cases Value.lookup "document" (fieldsIn config) with
  | some v => exact step_pure v
  | none => exact ((step_note _).bind (step_pure (Value.obj []))).congr (and_iff_left trivial) rfl

lemma step_versionWord (v : Value) : Step (versionWord v) (∃ word, v = .str word) (Text.replaceAll (textIn v) "." "_") [] := by
  cases v with
  | str word => exact (step_pure _).congr (by simp) rfl
  | _ => exact step_throw _ _ _ nofun

lemma step_logoOf (v : Value) : ∃ logo, Step (logoOf i v) (i.bundle = none → ∃ place, v = .str place) logo [] := by
  cases v with
  | str place => exact ⟨_, (step_pure _).congr (by simp) rfl⟩
  | _ =>
    cases hbundle : i.bundle with
    | some dir =>
      simp only [logoOf, Installation.resourceAt, hbundle]
      exact ⟨_, (step_pure _).congr (by simp) rfl⟩
    | none =>
      simp only [logoOf, Installation.resourceAt, hbundle]
      exact ⟨[], step_throw _ _ _ (by simp)⟩

lemma formatList_ne_str (v : Value) (format : Text) : formatList v ≠ .str format := by
  cases v <;> exact nofun

/-- Settings as reading a file at a path gives them. -/
structure Read (path : Text) (s : Settings) : Prop where
  path : s.path = path
  logo : ∃ logo, s.document.logo = .str logo
  formats : ∀ format, s.formats ≠ .str format

lemma step_ofConfig (i : Installation) (now : Moment) (path : Text) (config : Value) :
    ∃ s, Step (ofConfig i now path config) (Sound i config) s (notesOn i path config) ∧ Read path s := by
  obtain ⟨logo, hlogo⟩ := step_logoOf (i := i) (Lookup.logo.value config)
  have field := step_fieldOr config
  refine ⟨_, Step.congr ((step_fieldsOf config).bind <| (step_documentOf path config).bind <|
    (field ⟨true, "date", .str "auto"⟩).bind <| (field .version).bind <| (step_versionWord _).bind <|
    (field ⟨false, "output_format", .list [.str "md"]⟩).bind <| (field ⟨true, "title", .str "📄 Documentation"⟩).bind <|
    (field .version).bind <| (field ⟨true, "author", .str "Unknown"⟩).bind <| (field .logo).bind <| hlogo.bind <|
    (field ⟨true, "highlightTodo", .bool true⟩).bind <| (field ⟨true, "showDocProgress", .bool true⟩).bind <|
    (field ⟨false, "source_dir", _⟩).bind <| (field ⟨false, "recursive", .bool true⟩).bind <|
    (field ⟨false, "output_path", _⟩).bind <| (field ⟨false, "backup_path", .null⟩).bind <|
    (field ⟨false, "readonly", .bool true⟩).bind <| (field ⟨false, "headerCommentStyle", .null⟩).bind <| step_pure _) ?_ ?_,
    rfl, ⟨logo, rfl⟩, formatList_ne_str _⟩
  · constructor
    · intro h
      obtain ⟨hconfig, -, hdocument, -, hversion, -, -, -, -, -, hlogo, -⟩ := h
      exact ⟨hconfig, hdocument, hversion, hlogo⟩
    · rintro ⟨hconfig, hdocument, hversion, hlogo⟩
      exact ⟨hconfig, trivial, hdocument, hdocument, hversion, hconfig, hdocument, hdocument, hdocument, hdocument, hlogo,
        hdocument, hdocument, hconfig, hconfig, hconfig, hconfig, hconfig, hconfig, trivial⟩
  · simp only [notesOn, lookups, flatMap_cons, flatMap_nil, append_nil, nil_append]

/-! ## Files -/

/-- Settings can be made of the file at a path. -/
def Usable (i : Installation) (t : Tree) (path : Text) : Prop := ∃ config, readConfig t path = .ok config ∧ Sound i config

lemma isFile_of_readConfig (h : readConfig t path = .ok config) : t.isFile path := by
  obtain ⟨text, htext, -⟩ := ok_of_bind_ok h
  obtain ⟨bs, hbs, -⟩ := ok_of_bind_ok htext
  obtain ⟨node, hnode, hfile⟩ := ok_of_bind_ok hbs
  cases node with
  | dir => cases hfile
  | file bs => rw [Tree.isFile, hnode]

lemma tryFile_sound (hread : readConfig t path = .ok config) (h : Sound i config) (now : Moment) (before : List Text) :
    ∃ s, tryFile i now t path before = (some s, before ++ notesOn i path config) ∧ Read path s := by
  obtain ⟨s, hstep, hs⟩ := step_ofConfig i now path config
  refine ⟨s, ?_, hs⟩
  rw [tryFile, hread]
  dsimp only
  rw [hstep.gives h before]

lemma tryFile_unusable (h : ¬Usable i t path) (now : Moment) (before : List Text) :
    ∃ more, tryFile i now t path before = (none, before ++ more) ∧ more ≠ [] := by
  rw [tryFile]
  cases hread : readConfig t path with
  | error f => exact ⟨_, rfl, cons_ne_nil _ _⟩
  | ok config =>
    obtain ⟨s, hstep, -⟩ := step_ofConfig i now path config
    obtain ⟨f, more, hrun⟩ := hstep.breaks (fun hsound => h ⟨config, hread, hsound⟩) before
    dsimp only
    rw [hrun]
    exact ⟨more ++ [_], by dsimp only; rw [append_assoc], by simp⟩

lemma tryFile_keeps (now : Moment) (t : Tree) (path : Text) (before : List Text) :
    before <+: (tryFile i now t path before).2 := by
  by_cases h : Usable i t path
  · obtain ⟨config, hread, hsound⟩ := h
    obtain ⟨s, htry, -⟩ := tryFile_sound hread hsound now before
    rw [htry]
    exact prefix_append _ _
  · obtain ⟨more, htry, -⟩ := tryFile_unusable h now before
    rw [htry]
    exact prefix_append _ _

/-- The file that is tried first: an empty path stands for the one that comes with the program. -/
def firstFile (i : Installation) (path : Text) : Text := if path.isEmpty then defaultPath i else path

lemma load_sound (hread : readConfig t (firstFile i path) = .ok config) (h : Sound i config) (now : Moment) :
    ∃ s, load i now t path = (some s, notesOn i (firstFile i path) config) ∧ Read (firstFile i path) s := by
  obtain ⟨s, htry, hs⟩ := tryFile_sound hread h now []
  refine ⟨s, ?_, hs⟩
  rw [nil_append] at htry
  rw [load]
  split
  next hempty =>
    rwa [firstFile, if_pos hempty] at htry ⊢
  next hpath =>
    rw [firstFile, if_neg hpath] at htry ⊢
    rw [htry]

lemma load_unusable (h : ¬Usable i t (firstFile i path)) (now : Moment) :
    ∃ more, more ≠ [] ∧ load i now t path = if path.isEmpty then (none, more) else tryFile i now t (defaultPath i) more := by
  obtain ⟨more, htry, hmore⟩ := tryFile_unusable h now []
  refine ⟨more, hmore, ?_⟩
  rw [nil_append] at htry
  rw [load]
  split
  next hempty =>
    rwa [firstFile, if_pos hempty] at htry
  next hpath =>
    rw [firstFile, if_neg hpath] at htry
    rw [htry]

lemma load_spec {s : Settings} (hpath : path ≠ []) (h : load i now t path = (some s, [])) : t.isFile path ∧ Read path s := by
  have hfirst : firstFile i path = path := if_neg (by simpa using hpath)
  by_cases husable : Usable i t (firstFile i path)
  · obtain ⟨config, hread, hsound⟩ := husable
    obtain ⟨s', hload, hs'⟩ := load_sound hread hsound now
    obtain rfl : s = s' := Option.some.inj (Prod.mk.inj (h.symm.trans hload)).1
    rw [hfirst] at hread hs'
    exact ⟨isFile_of_readConfig hread, hs'⟩
  · obtain ⟨more, hmore, hload⟩ := load_unusable husable now
    rw [h, if_neg (by simpa using hpath)] at hload
    obtain ⟨rest, hrest⟩ := tryFile_keeps now t (defaultPath i) more
    rw [← hload] at hrest
    exact absurd (append_eq_nil_iff.mp hrest).1 hmore

/-! ## Loading ends in a usable state -/

lemma load_cases (i : Installation) (now : Moment) (t : Tree) (path : Text) :
    (∃ s notes file, load i now t path = (some s, notes) ∧ Read file s ∧
        (Usable i t (firstFile i path) ∨ Usable i t (defaultPath i))) ∨
      ∃ notes, load i now t path = (none, notes) ∧ notes ≠ [] ∧ ¬Usable i t (firstFile i path) ∧ ¬Usable i t (defaultPath i) := by
  by_cases hfirst : Usable i t (firstFile i path)
  · obtain ⟨config, hread, hsound⟩ := id hfirst
    obtain ⟨s, hload, hs⟩ := load_sound hread hsound now
    exact .inl ⟨s, _, _, hload, hs, .inl hfirst⟩
  · obtain ⟨more, hmore, hload⟩ := load_unusable hfirst now
    by_cases hempty : path.isEmpty
    · rw [if_pos hempty] at hload
      rw [firstFile, if_pos hempty] at hfirst ⊢
      exact .inr ⟨more, hload, hmore, hfirst, hfirst⟩
    · rw [if_neg hempty] at hload
      by_cases hdefault : Usable i t (defaultPath i)
      · obtain ⟨config, hread, hsound⟩ := id hdefault
        obtain ⟨s, htry, hs⟩ := tryFile_sound hread hsound now more
        exact .inl ⟨s, _, _, hload.trans htry, hs, .inr hdefault⟩
      · obtain ⟨last, htry, -⟩ := tryFile_unusable hdefault now more
        exact .inr ⟨_, hload.trans htry, append_ne_nil_of_left_ne_nil hmore _, hfirst, hdefault⟩

def settingsKeys : List Text := ["document", "config_path", "source_dir", "recursive", "output_format", "output_path",
  "backup_path", "readonly", "headerCommentStyle"]

def documentKeys : List Text := ["title", "version", "author", "date", "logoPath", "highlightTodo", "showDocProgress"]

end FunctionDocs.App.Settings
