import FunctionDocs.Proofs.Backups

/-!
# Runs that change nothing

A run that only reads is a function of the files: it gives the documented functions of all files in order, or the first failure,
and leaves the files as they are. Whether a run is refused depends on its request alone, so a refused run is refused at its first
file, before anything is written.
-/

namespace FunctionDocs.Run

variable {r : Request} {path : Text} {t' : Tree} {result : Option (List Entry)}

/-! ## Reading -/

lemma documentFiles_readOnly (h : r.readOnly) (paths : List Text) (t : Tree) :
    (documentFiles r paths).run.run t = ((paths.mapM (documentedIn t)).map fun ess => .documented ess.flatten, t) := by
  induction paths with
  | nil => rfl
  | cons path paths ih =>
    rw [documentFiles, run_bind, documentFile_readOnly h, List.mapM_cons]
    cases documentedIn t path with
    | error e => rfl
    | ok es =>
      change (documentFiles r paths >>= fun o => _).run.run t = _
      rw [run_bind, ih]
      cases paths.mapM (documentedIn t) <;> rfl

/-! ## Refusal -/

/-- A request that is refused: it asks for backups in a place that is not taken for a directory. -/
def Request.refused (r : Request) : Bool := !r.readOnly && r.backup != .null && refuses r.backup

lemma documentFile_refused {t : Tree} (h : Gives (documentFile r path) t result t') :
    (result = none ↔ r.refused) ∧ (r.refused → t' = t) := by
  have hrewritten : ∀ {mid : Tree}, r.refused = false → Gives (rewriteFile r.style path) mid result t' →
      (result = none ↔ r.refused) ∧ (r.refused → t' = t) := by
    intro mid hnot hrest
    obtain ⟨_, _, _, _, _, es, -, -, -, -, -, rfl, -⟩ := rewriteFile_gives hrest
    simp [hnot]
  cases hread : r.readOnly with
  | true =>
    obtain ⟨es, -, rfl, rfl⟩ := documentFile_reads hread h
    simp [Request.refused, hread]
  | false =>
    obtain ⟨kept, mid, hkept, hrest⟩ := documentFile_writes hread h
    split at hkept
    next hbackup =>
      have hrefused : r.refused = refuses r.backup := by rw [Request.refused, hread, hbackup]; rfl
      rcases backUp_gives hkept with ⟨rfl, href, rfl⟩ | ⟨dir, _, rfl, hdir, hlooks, -⟩
      · obtain ⟨rfl, rfl⟩ := hrest
        simp [hrefused, href]
      · exact hrewritten (by simp [hrefused, hdir, refuses, hlooks]) hrest
    next hbackup =>
      obtain ⟨rfl, rfl⟩ := hkept
      exact hrewritten (by simp [Request.refused, hbackup]) hrest

lemma documentFiles_refused {paths : List Text} {t : Tree} {reason : Text}
    (h : Gives (documentFiles r paths) t (.refused reason) t') : r.refused ∧ t' = t := by
  induction paths generalizing t t' reason with
  | nil =>
    obtain ⟨heq, -⟩ := gives_pure h
    cases heq
  | cons path paths ih =>
    obtain ⟨result, mid, hfile, hmore⟩ := documentFiles_gives h
    obtain ⟨hnone, hsame⟩ := documentFile_refused hfile
    cases result with
    | none =>
      have href := hnone.mp rfl
      exact ⟨href, hmore.2.trans (hsame href)⟩
    | some es =>
      obtain ⟨rest, hrest, heq⟩ := hmore
      cases rest with
      | documented more => cases heq
      | refused reason' =>
        -- the later files make the same request, which the first one showed not to be refused
        have href := (ih hrest).1
        cases hnone.mpr href

/-! ## All arguments -/

/-- A run that only reads gives the documented functions of all files in order, or the first failure among them, and leaves the
files as they are; a run that is refused leaves the files as they are. -/
theorem generate_changes_nothing {arguments : Value} {r : Request} (hrequest : Request.ofArguments arguments = .ok r)
    (paths : List Text) (t : Tree) :
    (r.readOnly = true → (generate arguments paths).run.run t =
      ((paths.mapM (documentedIn t)).map fun ess => .documented ess.flatten, t)) ∧
    ∀ reason t', (generate arguments paths).run.run t = (.ok (.refused reason), t') → t' = t := by
  have hrun : (generate arguments paths).run.run t = (documentFiles r paths).run.run t := by
    rw [generate, run_bind, run_settle, hrequest]
  rw [hrun]
  refine ⟨fun hread => documentFiles_readOnly hread paths t, fun reason t' hrefused => ?_⟩
  exact (documentFiles_refused hrefused).2

def styledArguments (readOnly : Bool) (backup : Text) : Value :=
  .obj [("readonly", .bool readOnly), ("headerCommentStyle", .str "doxygen"), ("backup_path", .str backup)]

def twoFiles : Tree :=
  ⟨[(["a.cpp"], .file (Bytes.ofText "int f(int x) \x7b\n\x7d\n")), (["b.cpp"], .file (Bytes.ofText "/* adds */\nint g() \x7b\n\x7d\n"))],
    []⟩

/-- Two files that are only read give their two functions and stay; they stay as well if their backup is refused. -/
theorem twoFiles_unchanged :
    Request.ofArguments (styledArguments true "./kept") = .ok ⟨true, .str "doxygen", .str "./kept"⟩ ∧
      (∃ es, (generate (styledArguments true "./kept") ["a.cpp", "b.cpp"]).run.run twoFiles = (.ok (.documented es), twoFiles) ∧
        es.map (·.name) = [some "f".toList, some "g".toList]) ∧
      Request.ofArguments (styledArguments false "kept.txt") = .ok ⟨false, .str "doxygen", .str "kept.txt"⟩ ∧
      ∃ reason, (generate (styledArguments false "kept.txt") ["a.cpp", "b.cpp"]).run.run twoFiles =
        (.ok (.refused reason), twoFiles) := by
  have hread : Request.ofArguments (styledArguments true "./kept") = .ok ⟨true, .str "doxygen", .str "./kept"⟩ := rfl
  have hwrite : Request.ofArguments (styledArguments false "kept.txt") = .ok ⟨false, .str "doxygen", .str "kept.txt"⟩ := rfl
  refine ⟨hread, ?_, hwrite, ?_⟩
  · obtain ⟨es, t', hrun, hnames⟩ : ∃ es t', (generate (styledArguments true "./kept") ["a.cpp", "b.cpp"]).run.run twoFiles =
        (.ok (.documented es), t') ∧ es.map (·.name) = [some "f".toList, some "g".toList] := by decide
    have hsame := (generate_changes_nothing hread ["a.cpp", "b.cpp"] twoFiles).1 rfl
    rw [hrun] at hsame
    exact ⟨es, by rw [hrun, (Prod.mk.inj hsame).2], hnames⟩
  · obtain ⟨o, t', hrun, hrefused⟩ : ∃ o t', (generate (styledArguments false "kept.txt") ["a.cpp", "b.cpp"]).run.run twoFiles =
        (.ok o, t') ∧ o matches .refused _ := by decide
    cases o with
    | documented es => cases hrefused
    | refused reason => exact ⟨reason, by rw [hrun, (generate_changes_nothing hwrite _ twoFiles).2 reason t' hrun]⟩

end FunctionDocs.Run
