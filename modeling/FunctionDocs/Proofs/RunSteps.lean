import FunctionDocs.Proofs.Functions
import FunctionDocs.Run

/-!
# The steps of a run

What each step of a run does where it succeeds. A step that reads or writes one file is undone into what was read and what was
written; the steps over all files are undone into the first file and the others. All laws of runs are derived from these.
-/

namespace FunctionDocs.Run

open Text Header

/-- Steps over a tree give a result and lead to another tree. -/
def Gives {α : Type} (x : FilesM α) (t : Tree) (a : α) (t' : Tree) : Prop := x.run.run t = (.ok a, t')

variable {t t' : Tree}

section Steps

variable {α β : Type} {a : α}

/-- The second step starts from the tree that the first one leads to; a failure ends both. -/
lemma run_bind {ε σ : Type} (x : ExceptT ε (StateM σ) α) (f : α → ExceptT ε (StateM σ) β) (t : σ) :
    (x >>= f).run.run t =
      match x.run.run t with
      | (.ok a, mid) => (f a).run.run mid
      | (.error e, mid) => (.error e, mid) := by
  simp only [ExceptT.run_bind, StateT.run_bind]
  cases x.run.run t with
  | mk result mid => cases result <;> rfl

/-- A failure is handled in the state that the step leads to. -/
lemma run_tryCatch {ε σ : Type} (x : ExceptT ε (StateM σ) α) (handle : ε → ExceptT ε (StateM σ) α) (t : σ) :
    (tryCatch x handle).run.run t =
      match x.run.run t with
      | (.ok a, mid) => (.ok a, mid)
      | (.error e, mid) => (handle e).run.run mid := by
  rw [ExceptT.run_tryCatch, StateT.run_bind]
  cases x.run.run t with
  | mk result mid => cases result <;> rfl

lemma ran_bind {ε σ : Type} {x : ExceptT ε (StateM σ) α} {f : α → ExceptT ε (StateM σ) β} {s s' : σ} {b : β}
    (h : (x >>= f).run.run s = (.ok b, s')) : ∃ a mid, x.run.run s = (.ok a, mid) ∧ (f a).run.run mid = (.ok b, s') := by
  rw [run_bind] at h
  split at h
  next a mid hx =>
    exact ⟨a, mid, hx, h⟩
  · cases h

/-- Whether steps succeed with a result and a state of some kind is told by taking them. -/
instance decidableExistsOk {ε σ : Type} (x : Except ε α × σ) (p : α → σ → Prop) [∀ a s, Decidable (p a s)] :
    Decidable (∃ a s, x = (.ok a, s) ∧ p a s) :=
  match x with
  | (.ok a, s) => decidable_of_iff (p a s) ⟨fun h => ⟨a, s, rfl, h⟩, by rintro ⟨_, _, ⟨⟩, h⟩; exact h⟩
  | (.error _, _) => .isFalse (by rintro ⟨_, _, ⟨⟩, -⟩)

lemma run_settle (x : Except Failure α) (t : Tree) : (settle x).run.run t = (x, t) := by
  cases x <;> rfl

lemma run_look (f : Tree → Except Failure α) (t : Tree) : (look f).run.run t = (f t, t) := run_settle (f t) t

lemma gives_bind {x : FilesM α} {f : α → FilesM β} {b : β} (h : Gives (x >>= f) t b t') :
    ∃ a mid, Gives x t a mid ∧ Gives (f a) mid b t' := ran_bind h

lemma gives_pure {b : α} (h : Gives (pure a) t b t') : b = a ∧ t' = t := by
  cases h
  exact ⟨rfl, rfl⟩

lemma gives_settle {x : Except Failure α} (h : Gives (settle x) t a t') : x = .ok a ∧ t' = t := by
  rw [Gives, run_settle] at h
  cases h
  exact ⟨rfl, rfl⟩

lemma gives_look {f : Tree → Except Failure α} (h : Gives (look f) t a t') : f t = .ok a ∧ t' = t := by
  rw [Gives, run_look] at h
  exact ⟨congrArg Prod.fst h, (congrArg Prod.snd h).symm⟩

lemma gives_change {f : Tree → Except Failure Tree} {u : Unit} (h : Gives (change f) t u t') : f t = .ok t' := by
  obtain ⟨s, mid, hget, h⟩ := gives_bind h
  cases hget
  cases hf : f t with
  | error e => rw [hf] at h; cases h
  | ok s => rw [hf] at h; cases h; rfl

end Steps

variable {ls : List Text} {path : Text} {es : List Entry} {r : Request} {result : Option (List Entry)} {o : Outcome} {paths : List Text}

/-! ## One file -/

def entriesOf (path content : Text) : Except Failure (List Entry) := do
  let found ← Source.functionsOf content path
  (found.map Entry.ofFunction).mapM DocBlock.document

def documentedIn (t : Tree) (path : Text) : Except Failure (List Entry) := do
  entriesOf path (← t.readText path)

def readEntries (path : Text) : FilesM (List Entry) := do
  settle (((← extract path).map Entry.ofFunction).mapM DocBlock.document)

lemma run_readEntries (path : Text) (t : Tree) : (readEntries path).run.run t = (documentedIn t path, t) := by
  rw [readEntries, extract, run_bind, run_bind, run_look, documentedIn]
  cases t.readText path with
  | error e => rfl
  | ok content =>
    dsimp only
    rw [run_settle]
    simp only [bind, Except.bind, entriesOf]
    cases Source.functionsOf content path with
    | error e => rfl
    | ok found => exact run_settle _ t

/-- Rewrites a file that was backed up. -/
def rewriteFile (style : Value) (path : Text) : FilesM (Option (List Entry)) := do
  insertInto path (some style)
  let es ← readEntries path
  if style == .str "doxygen" then
    let ls ← replaceIn path es
    match updateStarts ls es with
    | (es, none) => return some es
    | (_, some f) => throw f
  else return some es

/-- Headers are put into the file, and entries are made of its text; in the Doxygen style their documentation is put in as well, and
they get new lines. -/
lemma rewriteFile_gives {style : Value} (h : Gives (rewriteFile style path) t result t') :
    ∃ content new mid text es₀ es, t.readText path = .ok content ∧ insertComments content (some style) = .ok new ∧
      t.writeText path new = .ok mid ∧ mid.readText path = .ok text ∧ entriesOf path text = .ok es₀ ∧ result = some es ∧
      if style == .str "doxygen" then
        ∃ ls, replaceHeaders text es₀ = .ok ls ∧ mid.writeText path (unlines ls ++ "\n") = .ok t' ∧ updateStarts ls es₀ = (es, none)
      else es = es₀ ∧ t' = mid := by
  obtain ⟨_, mid, hinsert, hafter⟩ := gives_bind h
  obtain ⟨content, _, hlook, hedit⟩ := gives_bind hinsert
  obtain ⟨hcontent, rfl⟩ := gives_look hlook
  obtain ⟨new, _, hsettle, hwrite⟩ := gives_bind hedit
  obtain ⟨hnew, rfl⟩ := gives_settle hsettle
  obtain ⟨es₀, _, hread, hlast⟩ := gives_bind hafter
  rw [Gives, run_readEntries] at hread
  obtain ⟨hdocumented, rfl⟩ := Prod.mk.inj hread
  obtain ⟨text, htext, hes₀⟩ := ok_of_bind_ok hdocumented
  split at hlast
  next hstyle =>
    obtain ⟨ls, last, hreplace, hstarts⟩ := gives_bind hlast
    obtain ⟨text', _, hlook', hdoc⟩ := gives_bind hreplace
    obtain ⟨htext', rfl⟩ := gives_look hlook'
    obtain rfl := Except.ok.inj (htext.symm.trans htext')
    obtain ⟨_, _, hsettle', hput⟩ := gives_bind hdoc
    obtain ⟨hls, rfl⟩ := gives_settle hsettle'
    obtain ⟨_, _, hchange, hdone⟩ := gives_bind hput
    obtain ⟨rfl, rfl⟩ := gives_pure hdone
    split at hstarts
    next es hupdate =>
      obtain ⟨rfl, rfl⟩ := gives_pure hstarts
      refine ⟨content, new, _, text, es₀, es, hcontent, hnew, gives_change hwrite, htext, hes₀, rfl, ?_⟩
      rw [if_pos hstyle]
      exact ⟨ls, hls, gives_change hchange, hupdate⟩
    · cases hstarts
  next hstyle =>
    obtain ⟨rfl, rfl⟩ := gives_pure hlast
    refine ⟨content, new, _, text, es₀, es₀, hcontent, hnew, gives_change hwrite, htext, hes₀, rfl, ?_⟩
    rw [if_neg hstyle]
    exact ⟨rfl, rfl⟩

def backupName (path : Text) : Text := Path.base path ++ ".bak"

def refuses : Value → Bool
  | .str dir => !Path.looksLikeDirectory dir
  | _ => true

/-- A place for backups is refused, or the file is copied into a directory there. -/
lemma backUp_gives {directory : Value} {done : Bool} (h : Gives (backUp path directory) t done t') :
    (done = false ∧ refuses directory ∧ t' = t) ∨
      ∃ dir mid, done = true ∧ directory = .str dir ∧ Path.looksLikeDirectory dir ∧ t.ensureDirs dir = .ok mid ∧
        mid.copyFile path (Path.join dir (backupName path)) = .ok t' := by
  have hrefused : refuses directory → Gives (pure false) t done t' → done = false ∧ refuses directory ∧ t' = t := by
    intro href h
    obtain ⟨rfl, rfl⟩ := gives_pure h
    exact ⟨rfl, href, rfl⟩
  cases directory with
  | str dir =>
    rw [backUp] at h
    split at h
    next hlooks =>
      obtain ⟨_, mid, hdirs, h⟩ := gives_bind h
      obtain ⟨_, last, hcopy, h⟩ := gives_bind h
      obtain ⟨rfl, rfl⟩ := gives_pure h
      exact .inr ⟨dir, mid, rfl, rfl, hlooks, gives_change hdirs, gives_change hcopy⟩
    next hlooks => exact .inl (hrefused (by simpa [refuses] using hlooks) h)
  | _ => exact .inl (hrefused rfl h)

lemma documentFile_readOnly (h : r.readOnly) (path : Text) (t : Tree) :
    (documentFile r path).run.run t = ((documentedIn t path).map some, t) := by
  have hsteps : documentFile r path = (do return some (← readEntries path)) := by
    simp only [documentFile, readEntries, h, Bool.not_true, Bool.and_false, bind_assoc]
    rfl
  rw [hsteps, run_bind, run_readEntries]
  cases documentedIn t path <;> rfl

/-- A file that is only read gives the entries of its text. -/
lemma documentFile_reads (h : r.readOnly) (hgives : Gives (documentFile r path) t result t') :
    ∃ es, documentedIn t path = .ok es ∧ result = some es ∧ t' = t := by
  rw [Gives, documentFile_readOnly h] at hgives
  obtain ⟨hes, rfl⟩ := Prod.mk.inj hgives
  cases hdocumented : documentedIn t path with
  | error e =>
    rw [hdocumented] at hes
    cases hes
  | ok es =>
    rw [hdocumented] at hes
    cases hes
    exact ⟨es, rfl, rfl, rfl⟩

/-- A file that may be written is rewritten, after a backup or without one, or the backup is refused. -/
lemma documentFile_writes (h : r.readOnly = false) (hgives : Gives (documentFile r path) t result t') :
    ∃ kept mid, (if r.backup != .null then Gives (backUp path r.backup) t kept mid else kept = true ∧ mid = t) ∧
      if kept then Gives (rewriteFile r.style path) mid result t' else result = none ∧ t' = mid := by
  have hsteps : documentFile r path =
      if r.backup != .null then do if ← backUp path r.backup then rewriteFile r.style path else return none
      else rewriteFile r.style path := by
    simp only [documentFile, rewriteFile, readEntries, h, Bool.not_false, Bool.and_true, bind_assoc]
    cases r.backup != .null with
    | false => rfl
    | true => exact bind_congr fun kept => by cases kept <;> rfl
  rw [hsteps] at hgives
  split at hgives
  next hbackup =>
    obtain ⟨kept, mid, hkept, hrest⟩ := gives_bind hgives
    refine ⟨kept, mid, by rwa [if_pos hbackup], ?_⟩
    cases kept with
    | true => exact hrest
    | false => exact gives_pure hrest
  next hbackup => exact ⟨true, t, by rw [if_neg hbackup]; exact ⟨rfl, rfl⟩, hgives⟩

/-! ## All files -/

/-- What files give of which the first gives some entries. -/
def Outcome.behind (es : List Entry) : Outcome → Outcome
  | .documented more => .documented (es ++ more)
  | .refused reason => .refused reason

instance decidableExistsDocumented (x : Except Failure Outcome × Tree) (p : List Entry → Tree → Prop)
    [∀ es t, Decidable (p es t)] : Decidable (∃ es t, x = (.ok (.documented es), t) ∧ p es t) :=
  match x with
  | (.ok (.documented es), t) => decidable_of_iff (p es t) ⟨fun h => ⟨es, t, rfl, h⟩, by rintro ⟨_, _, ⟨⟩, h⟩; exact h⟩
  | (.ok (.refused _), _) | (.error _, _) => .isFalse (by rintro ⟨_, _, ⟨⟩, -⟩)

lemma documentFiles_gives (h : Gives (documentFiles r (path :: paths)) t o t') :
    ∃ result mid, Gives (documentFile r path) t result mid ∧
      match result with
      | none => (∃ reason, o = .refused reason) ∧ t' = mid
      | some es => ∃ rest, Gives (documentFiles r paths) mid rest t' ∧ o = rest.behind es := by
  obtain ⟨result, mid, hfile, hmore⟩ := gives_bind h
  refine ⟨result, mid, hfile, ?_⟩
  cases result with
  | none =>
    obtain ⟨rfl, rfl⟩ := gives_pure hmore
    exact ⟨⟨_, rfl⟩, rfl⟩
  | some es =>
    obtain ⟨rest, last, hrest, hdone⟩ := gives_bind hmore
    have ⟨ho, hlast⟩ : o = rest.behind es ∧ t' = last := by
      cases rest <;> exact gives_pure hdone
    exact ⟨rest, hlast ▸ hrest, ho⟩

/-- Files that are documented are so one by one. -/
lemma documentFiles_documented (h : Gives (documentFiles r (path :: paths)) t (.documented es) t') :
    ∃ es₁ es₂ mid, Gives (documentFile r path) t (some es₁) mid ∧ Gives (documentFiles r paths) mid (.documented es₂) t' ∧
      es = es₁ ++ es₂ := by
  obtain ⟨result, mid, hfile, hrest⟩ := documentFiles_gives h
  cases result with
  | none =>
    obtain ⟨⟨reason, heq⟩, -⟩ := hrest
    cases heq
  | some es₁ =>
    obtain ⟨rest, hrest, heq⟩ := hrest
    cases rest with
    | refused reason => cases heq
    | documented es₂ => exact ⟨es₁, es₂, mid, hfile, hrest, Outcome.documented.inj heq⟩

lemma generate_gives {arguments : Value} (hrequest : Request.ofArguments arguments = .ok r)
    (h : Gives (generate arguments paths) t o t') : Gives (documentFiles r paths) t o t' := by
  rwa [Gives, generate, run_bind, run_settle, hrequest] at h

end FunctionDocs.Run
