import FunctionDocs.Proofs.KeptCode

/-!
# The backups of a run

A run that writes copies every file into one directory before it rewrites it, under the last part of the file's path. The
directory thus ends up with one copy for each such name, that of the last file with this name; what else it holds stays. No
original is lost exactly if every file that has a later namesake left its bytes elsewhere in the directory.
-/

open List

namespace FunctionDocs

/-! ## Places in a directory -/

namespace Path

open Text

variable {n : Text} {dir : Text}

/-- A name that can be put behind a directory: it is one step. -/
structure Name (n : Text) : Prop where
  slashless : '/' ∉ n
  step : n ≠ [] ∧ n ≠ "." ∧ n ≠ ".."

lemma Name.isAbsolute (h : Name n) : isAbsolute n = false := startsWith_of_not_mem h.slashless

lemma not_mem_base (p : Text) : '/' ∉ base p := by
  intro h
  have := mem_takeWhile_imp (mem_reverse.mp h)
  simp at this

lemma backupName_name (path : Text) : Name (Run.backupName path) := by
  refine ⟨fun h => ?_, ?_⟩
  · rcases mem_append.mp h with h | h
    · exact not_mem_base path h
    · exact absurd h (by decide)
  · have hlast : ∀ t : Text, Run.backupName path = t → t.getLast? = some 'k' := by
      rintro t rfl
      exact getLast?_append_of_ne_nil _ (by decide)
    exact ⟨fun h => absurd (hlast _ h) (by decide), fun h => absurd (hlast _ h) (by decide),
      fun h => absurd (hlast _ h) (by decide)⟩

lemma isAbsolute_append {a : Text} (ha : a ≠ []) (b : Text) : isAbsolute (a ++ b) = isAbsolute a := by
  cases a with
  | nil => exact absurd rfl ha
  | cons c r => rfl

lemma steps_join (hn : Name n) : steps (join dir n) = steps dir ++ [n] := by
  have hkept : (splitOnChar '/' n).filter (fun s : Text => !s.isEmpty && s != ".") = [n] := by
    have hne : n.isEmpty = false := by simpa using hn.step.1
    have hdot : (n != ".") := by simpa using hn.step.2.1
    rw [splitOnChar_of_not_mem hn.slashless, filter_singleton, hne, hdot]
    rfl
  have hslash : ∀ a : Text, steps (a ++ '/' :: n) = steps a ++ [n] := by
    intro a
    rw [steps, steps, splitOnChar_append_cons, filter_append, hkept]
  rw [join, hn.isAbsolute, if_neg (by simp)]
  split
  next hdir =>
    rw [Bool.or_eq_true] at hdir
    rcases hdir with hdir | hdir
    · rw [isEmpty_iff.mp hdir, nil_append, steps, hkept]
      rfl
    · obtain ⟨a, rfl⟩ := endsWith_iff.mp hdir
      have hdrop : steps (a ++ "/") = steps a := by
        change steps (a ++ '/' :: []) = steps a
        rw [steps, steps, splitOnChar_append_cons]
        simp [splitOnChar]
      have happend : a ++ "/" ++ n = a ++ '/' :: n := by simp
      rw [hdrop, happend, hslash]
  · have happend : dir ++ "/" ++ n = dir ++ '/' :: n := by simp
    rw [happend, hslash]

lemma isAbsolute_join (hdir : dir ≠ []) (hn : Name n) : isAbsolute (join dir n) = isAbsolute dir := by
  rw [join, hn.isAbsolute, if_neg (by simp)]
  split
  · exact isAbsolute_append hdir n
  · rw [append_assoc]
    exact isAbsolute_append hdir _

end Path

namespace Tree

variable {p : Place} {t t' : Tree} {q : Place} {path : Text} {bs : List UInt8}

lemma resolve_join {dir n : Text} (hdir : dir ≠ []) (hn : Path.Name n) (h : t.resolve (Path.join dir n) = .ok q) :
    ∃ d, t.resolve dir = .ok d ∧ t.at? d = some .dir ∧ q = d ++ [n] := by
  obtain ⟨-, hwalk, -⟩ := resolve_iff.mp h
  rw [Path.steps_join hn, Path.isAbsolute_join hdir hn, foldlM_append] at hwalk
  obtain ⟨d, hd, hlast⟩ := ok_of_bind_ok hwalk
  obtain ⟨q', hq, hend⟩ := ok_of_bind_ok hlast
  cases hend
  rw [stepTo] at hq
  split at hq
  next hat =>
    rw [if_neg (by simpa using hn.step.2.2)] at hq
    cases hq
    have hsame : Widens t t := (Keeps.refl [] t).toWidens
    refine ⟨d, resolve_iff.mpr ⟨hdir, hsame.walk _ _ hd, fun _ bs hfile => ?_⟩, hat, rfl⟩
    rw [hat] at hfile
    cases hfile
  · cases hq
  · cases hq

/-! ## What a change leaves in other places -/

lemma ensureDirs_file (h : t.ensureDirs path = .ok t') : t'.at? q = some (.file bs) ↔ t.at? q = some (.file bs) := by
  constructor
  · rw [ensureDirs] at h
    split at h
    · cases h; exact id
    · refine makeDirs_induct (R := fun t t' => t'.at? q = some (.file bs) → t.at? q = some (.file bs)) (fun _ => id)
        (fun hab hbc hc => hab (hbc hc)) ?_ h
      intro path t t' hmake hfile
      rw [makeDir] at hmake
      split at hmake
      · cases hmake
      · obtain ⟨p, -, hmake⟩ := ok_of_bind_ok hmake
        split at hmake
        · cases hmake
        next hnone =>
          split at hmake
          · cases hmake
            have hfree : t.at? p ≠ some .dir := by simp [hnone]
            rw [at_set (ne_nil_of_at hfree)] at hfile
            split at hfile
            · cases hfile
            · exact hfile
          · cases hmake
          · cases hmake
  · intro hfile
    rw [(ensureDirs_keeps (by rw [hfile]; rfl) h).node]
    exact hfile

/-- A copy holds the bytes of its source and stands elsewhere; all other places stay as they are. -/
lemma copyFile_ok {source target : Text} (hp : t.resolve source = .ok p)
    (hfile : t.at? p = some (.file bs)) (h : t.copyFile source target = .ok t') :
    ∃ q, t.resolve target = .ok q ∧ q ≠ p ∧ Widens t t' ∧ ∀ r, t'.at? r = if r = q then some (.file bs) else t.at? r := by
  unfold copyFile at h
  extract_lets same at h
  split at h
  · cases h
  next hsame =>
    obtain ⟨cs, hread, hwrite⟩ := ok_of_bind_ok h
    obtain rfl := Except.ok.inj (hread.symm.trans (readBytes_iff.mpr ⟨p, hp, hfile⟩))
    obtain ⟨q, hq, hdir, rfl⟩ := writeBytes_ok hwrite
    refine ⟨q, hq, ?_, widens_set hdir _, at_set (ne_nil_of_at hdir) _⟩
    rintro rfl
    simp [same, hp, hq, hfile] at hsame

/-- Only one file is rewritten. -/
structure Rewrites (p : Place) (t t' : Tree) : Prop extends Widens t t' where
  others : ∀ q, q ≠ p → t'.at? q = t.at? q

lemma Rewrites.trans {t'' : Tree} (h : Rewrites p t t') (h' : Rewrites p t' t'') : Rewrites p t t'' :=
  ⟨h.toWidens.trans h'.toWidens, fun q hq => (h'.others q hq).trans (h.others q hq)⟩

lemma writeText_rewrites {text : Text} (hp : t.resolve path = .ok p) (h : t.writeText path text = .ok t') : Rewrites p t t' := by
  obtain ⟨q, hq, hdir, rfl⟩ := writeBytes_ok h
  obtain rfl := Except.ok.inj (hp.symm.trans hq)
  refine ⟨widens_set hdir _, fun q hq => ?_⟩
  rw [at_set (ne_nil_of_at hdir), if_neg hq]

end Tree

namespace Run

open Tree Path

variable {result : Option (List Entry)} {o : Original} {r : Request} {dir path : Text} {t t' : Tree} {style : Value}
  {es : List Entry} {os : List Original}

/-! ## One file -/

/-- A file before a run: its path, the place this leads to and its bytes. -/
structure Original where
  path : Text
  place : Place
  bytes : List UInt8
  deriving DecidableEq

/-- The file stands in a tree. -/
@[mk_iff]
structure Original.In (o : Original) (t : Tree) : Prop where
  leads : t.resolve o.path = .ok o.place
  file : t.at? o.place = some (.file o.bytes)

instance (o : Original) (t : Tree) : Decidable (o.In t) := decidable_of_iff _ (Original.in_iff ..).symm

lemma rewriteFile_rewrites {p : Place} {bs : List UInt8} (hp : t.resolve path = .ok p) (hfile : t.at? p = some (.file bs))
    (h : Gives (rewriteFile style path) t result t') : Rewrites p t t' := by
  obtain ⟨_, new, mid, _, _, _, -, -, hwritten, -, -, -, hlast⟩ := rewriteFile_gives h
  have hfirst := writeText_rewrites hp hwritten
  split at hlast
  · obtain ⟨ls, -, hwritten', -⟩ := hlast
    exact hfirst.trans (writeText_rewrites (hfirst.toWidens.resolve hp hfile) hwritten')
  · rwa [hlast.2]

lemma rewriteFile_widens (h : Gives (rewriteFile style path) t result t') : Widens t t' := by
  obtain ⟨_, new, mid, _, _, _, -, -, hwritten, -, -, -, hlast⟩ := rewriteFile_gives h
  have hfirst := writeBytes_widens hwritten
  split at hlast
  · obtain ⟨ls, -, hwritten', -⟩ := hlast
    exact hfirst.trans (writeBytes_widens hwritten')
  · rwa [hlast.2]

/-- A file was copied into a directory and then rewritten. -/
structure BackedUp (d : Place) (o : Original) (t t' : Tree) : Prop extends Widens t t' where
  dir : t'.at? d = some .dir
  apart : d ++ [backupName o.path] ≠ o.place
  copy : t'.at? (d ++ [backupName o.path]) = some (.file o.bytes)
  others : ∀ q bs, q ≠ o.place → q ≠ d ++ [backupName o.path] → (t'.at? q = some (.file bs) ↔ t.at? q = some (.file bs))

lemma backUp_copies (ho : o.In t) (h : Gives (backUp o.path (.str dir)) t true t') :
    ∃ d, t'.resolve dir = .ok d ∧ BackedUp d o t t' ∧ o.In t' := by
  rcases backUp_gives h with ⟨hdone, -⟩ | ⟨_, mid, -, heq, hlooks, hdirs, hcopy⟩
  · cases hdone
  · cases heq
    have hne : dir ≠ [] := by
      rintro rfl
      cases hlooks
    have hmade := ensureDirs_keeps (by rw [ho.file]; rfl) hdirs
    have hleads := hmade.toWidens.resolve ho.leads ho.file
    have hthere : mid.at? o.place = some (.file o.bytes) := hmade.node.trans ho.file
    obtain ⟨q, hq, hqne, hwide, hat⟩ := copyFile_ok hleads hthere hcopy
    obtain ⟨d, hd, hdat, rfl⟩ := resolve_join hne (backupName_name o.path) hq
    refine ⟨d, hwide.resolve_dir hd hdat, ⟨hmade.toWidens.trans hwide, hwide.dirs d hdat, hqne, ?_, fun q bs _ hq => ?_⟩,
      hwide.resolve hleads hthere, ?_⟩
    · rw [hat, if_pos rfl]
    · rw [hat, if_neg hq]
      exact ensureDirs_file hdirs
    · rw [hat, if_neg hqne.symm]
      exact hthere

lemma backUp_widens {directory : Value} {done : Bool} (h : Gives (backUp path directory) t done t') : Widens t t' := by
  rcases backUp_gives h with ⟨-, -, rfl⟩ | ⟨dir, mid, -, -, -, hdirs, hcopy⟩
  · exact .refl _
  · have hmade := ensureDirs_keeps (p := []) rfl hdirs
    obtain ⟨bs, hwrite⟩ := copyFile_writes hcopy
    exact hmade.toWidens.trans (writeBytes_widens hwrite)

lemma documentFile_backedUp (hwrite : r.readOnly = false) (hbackup : r.backup = .str dir) (ho : o.In t)
    (h : Gives (documentFile r o.path) t (some es) t') : ∃ d, t'.resolve dir = .ok d ∧ BackedUp d o t t' := by
  obtain ⟨kept, mid, hkept, hrest⟩ := documentFile_writes hwrite h
  have hnull : (Value.str dir != .null) := rfl
  rw [hbackup, if_pos hnull] at hkept
  split at hrest
  next hdone =>
    obtain ⟨d, hd, hcopy, hmid⟩ := backUp_copies ho (hdone ▸ hkept)
    have hrewrites := rewriteFile_rewrites hmid.leads hmid.file hrest
    refine ⟨d, hrewrites.toWidens.resolve_dir hd hcopy.dir, hcopy.toWidens.trans hrewrites.toWidens,
      hrewrites.dirs d hcopy.dir, hcopy.apart, ?_, fun q bs hq hq' => ?_⟩
    · rw [hrewrites.others _ hcopy.apart]
      exact hcopy.copy
    · rw [hrewrites.others q hq]
      exact hcopy.others q bs hq hq'
  · cases hrest.1

lemma documentFile_widens (hwrite : r.readOnly = false) (h : Gives (documentFile r path) t result t') : Widens t t' := by
  obtain ⟨kept, mid, hkept, hrest⟩ := documentFile_writes hwrite h
  have hmid : Widens t mid := by
    split at hkept
    · exact backUp_widens hkept
    · rw [hkept.2]
      exact .refl _
  split at hrest
  · exact hmid.trans (rewriteFile_widens hrest)
  · rwa [hrest.2]

/-! ## All files -/

def lastNamed (name : Text) (os : List Original) : Option Original := os.reverse.find? (backupName ·.path == name)

lemma lastNamed_cons (name : Text) (o : Original) (os : List Original) :
    lastNamed name (o :: os) = (lastNamed name os).or (if backupName o.path = name then some o else none) := by
  simp [lastNamed]

lemma mem_of_lastNamed {name : Text} (h : lastNamed name os = some o) : o ∈ os ∧ backupName o.path = name :=
  ⟨mem_reverse.mp (mem_of_find?_eq_some h), by simpa using find?_some h⟩

lemma BackedUp.keeps {d : Place} {k : Original} (h : BackedUp d o t t') (hk : k.In t)
    (hplace : k.place ≠ o.place) (houtside : ¬d <+: k.place) : k.In t' := by
  refine ⟨h.toWidens.resolve hk.leads hk.file, (h.others k.place k.bytes hplace ?_).mpr hk.file⟩
  intro heq
  exact houtside (heq ▸ prefix_append _ _)

lemma documentFiles_widens {paths : List Text} {o : Outcome} (hwrite : r.readOnly = false)
    (h : Gives (documentFiles r paths) t o t') : Widens t t' := by
  induction paths generalizing t o with
  | nil =>
    obtain ⟨-, rfl⟩ := gives_pure h
    exact .refl _
  | cons path paths ih =>
    obtain ⟨result, mid, hfile, hmore⟩ := documentFiles_gives h
    have hfirst := documentFile_widens hwrite hfile
    cases result with
    | none => rwa [hmore.2]
    | some es =>
      obtain ⟨rest, hrest, -⟩ := hmore
      exact hfirst.trans (ih hrest)

lemma documentFiles_backups (hwrite : r.readOnly = false) (hbackup : r.backup = .str dir) (hin : ∀ o ∈ os, o.In t)
    (hdistinct : (os.map (·.place)).Nodup) (houtside : ∀ d, t'.resolve dir = .ok d → ∀ o ∈ os, ¬d <+: o.place)
    (h : Gives (documentFiles r (os.map (·.path))) t (.documented es) t') :
    (os = [] ∨ ∃ d, t'.resolve dir = .ok d ∧ t'.at? d = some .dir) ∧
      ∀ d, t'.resolve dir = .ok d → ∀ name bs, t'.at? (d ++ [name]) = some (.file bs) ↔
        match lastNamed name os with
        | some o => o.bytes = bs
        | none => t.at? (d ++ [name]) = some (.file bs) := by
  induction os generalizing t es with
  | nil =>
    obtain ⟨-, rfl⟩ := gives_pure h
    exact ⟨.inl rfl, fun d _ name bs => .rfl⟩
  | cons o os ih =>
    obtain ⟨first, more, mid, hfile, hrest, -⟩ := documentFiles_documented h
    obtain ⟨ho, hos⟩ := forall_mem_cons.mp hin
    obtain ⟨hnew, hdistinct⟩ := nodup_cons.mp hdistinct
    obtain ⟨d, hd, hcopied⟩ := documentFile_backedUp hwrite hbackup ho hfile
    have hwide := documentFiles_widens hwrite hrest
    have hd' := hwide.resolve_dir hd hcopied.dir
    obtain ⟨hout, houts⟩ := forall_mem_cons.mp (houtside d hd')
    have hin' : ∀ k ∈ os, k.In mid := by
      intro k hk
      refine hcopied.keeps (hos k hk) (fun heq => hnew ?_) (houts k hk)
      exact mem_map.mpr ⟨k, hk, heq⟩
    refine ⟨.inr ⟨d, hd', hwide.dirs d hcopied.dir⟩, fun e he name bs => ?_⟩
    obtain rfl := Except.ok.inj (hd'.symm.trans he)
    obtain ⟨-, hall⟩ := ih hin' hdistinct (fun e he => (forall_mem_cons.mp (houtside e he)).2) hrest
    rw [hall d hd' name bs, lastNamed_cons]
    cases hlast : lastNamed name os with
    | some k => exact .rfl
    | none =>
      by_cases hname : backupName o.path = name
      · rw [← hname]
        simp [hcopied.copy]
      · rw [if_neg hname]
        refine hcopied.others _ bs (fun heq => ?_) (fun heq => hname ?_)
        · exact hout (heq ▸ prefix_append _ _)
        · exact (singleton_inj.mp (append_cancel_left heq)).symm

/-- A later file with the same name took the place of the backup of a file. -/
def Overwritten (os : List Original) (o : Original) : Prop := lastNamed (backupName o.path) os ≠ some o
  deriving Decidable

/-- A run that writes and documents files loses no original exactly if the bytes of every file whose backup was overwritten are
kept in another backup or stood in the directory before under a name that no backup took. -/
theorem generate_originals_kept_iff {arguments : Value} {r : Request} {dir : Text} {os : List Original} {t t' : Tree}
    {es : List Entry} (hrequest : Request.ofArguments arguments = .ok r) (hwrite : r.readOnly = false)
    (hbackup : r.backup = .str dir) (hin : ∀ o ∈ os, o.In t) (hdistinct : (os.map (·.place)).Nodup)
    (houtside : ∀ d, t'.resolve dir = .ok d → ∀ o ∈ os, ¬d <+: o.place)
    (h : (generate arguments (os.map (·.path))).run.run t = (.ok (.documented es), t')) :
    os = [] ∨ ∃ d, t'.resolve dir = .ok d ∧ t'.at? d = some .dir ∧
      ((∀ o ∈ os, ∃ name, t'.at? (d ++ [name]) = some (.file o.bytes)) ↔
        ∀ o ∈ os, Overwritten os o → (∃ k ∈ os, ¬Overwritten os k ∧ k.bytes = o.bytes) ∨
          ∃ name, lastNamed name os = none ∧ t.at? (d ++ [name]) = some (.file o.bytes)) := by
  obtain ⟨hdir, hall⟩ := documentFiles_backups hwrite hbackup hin hdistinct houtside (generate_gives hrequest h)
  refine hdir.imp_right ?_
  rintro ⟨d, hd, hat⟩
  refine ⟨d, hd, hat, ⟨fun hkept o ho _ => ?_, fun hspared o ho => ?_⟩⟩
  · obtain ⟨name, hname⟩ := hkept o ho
    have hname := (hall d hd name o.bytes).mp hname
    cases hlast : lastNamed name os with
    | none =>
      rw [hlast] at hname
      exact Or.inr ⟨name, hlast, hname⟩
    | some k =>
      rw [hlast] at hname
      obtain ⟨hk, hkname⟩ := mem_of_lastNamed hlast
      exact Or.inl ⟨k, hk, not_not.mpr (hkname ▸ hlast), hname⟩
  · have hbacked : ∀ k ∈ os, ¬Overwritten os k → ∃ name, t'.at? (d ++ [name]) = some (.file k.bytes) := by
      intro k _ hk
      refine ⟨backupName k.path, (hall d hd _ k.bytes).mpr ?_⟩
      rw [not_not.mp hk]
    by_cases hover : Overwritten os o
    · rcases hspared o ho hover with ⟨k, hk, hlast, hbytes⟩ | ⟨name, hfree, hstood⟩
      · exact hbytes ▸ hbacked k hk hlast
      · refine ⟨name, (hall d hd name o.bytes).mpr ?_⟩
        rw [hfree]
        exact hstood
    · exact hbacked o ho hover

/-! ## Files with one name in two directories -/

def backupArguments : Value :=
  .obj [("readonly", .bool false), ("headerCommentStyle", .str "default"), ("backup_path", .str "./kept")]

def keptPlace : Place := ["kept"]

/-- Files of a working directory as a tree of files, with the directories they are in. -/
def treeOf (dirs : List Place) (os : List Original) : Tree :=
  ⟨dirs.map (·, .dir) ++ os.map fun o => (o.place, .file o.bytes), []⟩

/-- Two files with one name and one text, and a third file. -/
def twins : List Original :=
  [⟨"a/x.cpp", ["a", "x.cpp"], Bytes.ofText "int x;\n"⟩, ⟨"b/x.cpp", ["b", "x.cpp"], Bytes.ofText "int x;\n"⟩,
    ⟨"y.cpp", ["y.cpp"], Bytes.ofText "int f() \x7b\n\x7d\n"⟩]

/-- No original is lost where only files with one text share a name. -/
theorem twins_originals_kept :
    Request.ofArguments backupArguments = .ok ⟨false, .str "default", .str "./kept"⟩ ∧
      (∀ o ∈ twins, o.In (treeOf [["a"], ["b"]] twins)) ∧ (twins.map (·.place)).Nodup ∧
      ∃ es t', (generate backupArguments (twins.map (·.path))).run.run (treeOf [["a"], ["b"]] twins) =
          (.ok (.documented es), t') ∧ t'.resolve "./kept" = .ok keptPlace ∧
        ∀ o ∈ twins, ¬keptPlace <+: o.place ∧ ∃ name, t'.at? (keptPlace ++ [name]) = some (.file o.bytes) := by
  have hrequest : Request.ofArguments backupArguments = .ok ⟨false, .str "default", .str "./kept"⟩ := rfl
  have hin : ∀ o ∈ twins, o.In (treeOf [["a"], ["b"]] twins) := by decide +kernel
  have hdistinct : (twins.map (·.place)).Nodup := by decide
  have hout : ∀ o ∈ twins, ¬keptPlace <+: o.place := by decide
  have hspared : ∀ o ∈ twins, Overwritten twins o → ∃ k ∈ twins, ¬Overwritten twins k ∧ k.bytes = o.bytes := by decide
  obtain ⟨es, t', hrun, hplace⟩ : ∃ es t', (generate backupArguments (twins.map (·.path))).run.run (treeOf [["a"], ["b"]] twins) =
      (.ok (.documented es), t') ∧ t'.resolve "./kept" = .ok keptPlace := by decide +kernel
  have houtside : ∀ d, t'.resolve "./kept" = .ok d → ∀ o ∈ twins, ¬d <+: o.place := by
    intro d hd
    obtain rfl := Except.ok.inj (hplace.symm.trans hd)
    exact hout
  refine ⟨hrequest, hin, hdistinct, es, t', hrun, hplace, fun o ho => ⟨hout o ho, ?_⟩⟩
  rcases generate_originals_kept_iff hrequest rfl rfl hin hdistinct houtside hrun with hnil | ⟨d, hd, -, hiff⟩
  · cases hnil
  · obtain rfl := Except.ok.inj (hplace.symm.trans hd)
    exact hiff.mpr (fun k hk hover => Or.inl (hspared k hk hover)) o ho

def namesakes : List Original :=
  [⟨"a/x.cpp", ["a", "x.cpp"], Bytes.ofText "int f() \x7b\n\x7d\n"⟩, ⟨"b/x.cpp", ["b", "x.cpp"], Bytes.ofText "int x;\n"⟩]

/-- Of two files with one name, the first is rewritten and its backup overwritten: nothing is left with the bytes it had. -/
theorem namesakes_original_lost :
    ∃ es t', (generate backupArguments (namesakes.map (·.path))).run.run (treeOf [["a"], ["b"]] namesakes) =
        (.ok (.documented es), t') ∧
      ∃ o ∈ namesakes, o.In (treeOf [["a"], ["b"]] namesakes) ∧ ∀ n ∈ t'.nodes, n.2 ≠ .file o.bytes := by
  decide +kernel

end Run

end FunctionDocs
