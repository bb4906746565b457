import FunctionDocs.Files.Tree
import FunctionDocs.Proofs.Bytes

/-!
# What changes to a tree leave alone

A change widens a tree if all directories stay directories; paths that led to a file then lead to the same place. New
directories and copies widen the tree and leave the file they are made for as it was, and a file that was written holds what was
written.
-/

namespace FunctionDocs.Tree

variable {bs : List UInt8} {p : Place} {path : Text} {t t' : Tree} {t'' : Tree} {text source target : Text} {fuel : Nat}

lemma at_set (hp : p ≠ []) (n : Node) (q : Place) : (t.set p n).at? q = if q = p then some n else t.at? q := by
  have hfind : ∀ es : List (Place × Node), ((setNode p n es).find? (·.1 == q)).map (·.2) =
      if q = p then some n else (es.find? (·.1 == q)).map (·.2) := by
    intro es
    induction es with
    | nil =>
      by_cases hq : q = p
      · simp [setNode, hq]
      · simp [setNode, hq, Ne.symm hq]
    | cons e es ih =>
      rw [setNode]
      by_cases he : e.1 = p
      · rw [if_pos (by simpa using he), List.find?_cons, List.find?_cons]
        by_cases hq : q = p
        · simp [hq]
        · have hne : (p == q) = false := by simpa using Ne.symm hq
          simp only [he, hne, if_neg hq]
      · rw [if_neg (by simpa using he), List.find?_cons, List.find?_cons]
        by_cases heq : e.1 = q
        · have hq : q ≠ p := fun h => he (heq.trans h)
          simp [heq, hq]
        · have hne : (e.1 == q) = false := by simpa using heq
          simp only [hne]
          exact ih
  rw [at?, at?, set, hfind]
  by_cases hq : q = p
  · rw [if_pos hq, if_pos hq, if_neg (by simpa [hq] using hp)]
  · rw [if_neg hq, if_neg hq]

/-- All directories stay, and so does the working directory. -/
structure Widens (t t' : Tree) : Prop where
  here : t'.here = t.here
  dirs : ∀ q, t.at? q = some .dir → t'.at? q = some .dir

/-- What stands at a place stays, too. -/
structure Keeps (p : Place) (t t' : Tree) : Prop extends Widens t t' where
  node : t'.at? p = t.at? p

lemma Widens.refl (t : Tree) : Widens t t := ⟨rfl, fun _ h => h⟩

lemma Widens.trans (h : Widens t t') (h' : Widens t' t'') : Widens t t'' :=
  ⟨h'.here.trans h.here, fun q hq => h'.dirs q (h.dirs q hq)⟩

lemma Keeps.refl (p : Place) (t : Tree) : Keeps p t t := ⟨Widens.refl t, rfl⟩

lemma Keeps.trans (h : Keeps p t t') (h' : Keeps p t' t'') : Keeps p t t'' := ⟨h.toWidens.trans h'.toWidens, h'.node.trans h.node⟩

lemma ne_nil_of_at (h : t.at? p ≠ some .dir) : p ≠ [] := by
  rintro rfl
  exact h rfl

lemma widens_set (h : t.at? p ≠ some .dir) (n : Node) : Widens t (t.set p n) := by
  refine ⟨rfl, fun q hq => ?_⟩
  rw [at_set (ne_nil_of_at h), if_neg]
  · exact hq
  · rintro rfl
    exact h hq

lemma keeps_set {q : Place} (h : t.at? q ≠ some .dir) (hne : p ≠ q) (n : Node) : Keeps p t (t.set q n) :=
  ⟨widens_set h n, by rw [at_set (ne_nil_of_at h), if_neg hne]⟩

lemma Widens.walk {path' : Text} (h : Widens t t') (ss : List Text) (q : Place)
    (hq : ss.foldlM (t.stepTo path) q = .ok p) : ss.foldlM (t'.stepTo path') q = .ok p := by
  induction ss generalizing q with
  | nil => exact hq
  | cons s ss ih =>
    rw [List.foldlM_cons] at hq ⊢
    obtain ⟨r, hr, hrest⟩ := ok_of_bind_ok hq
    have hdir : t.at? q = some .dir := by
      rw [stepTo] at hr
      split at hr
      · assumption
      · cases hr
      · cases hr
    have hstep : t'.stepTo path' q s = .ok r := by
      rw [stepTo, h.dirs q hdir]
      rw [stepTo, hdir] at hr
      exact hr
    rw [hstep]
    exact ih r hrest

lemma resolve_iff :
    t.resolve path = .ok p ↔ path ≠ [] ∧
      (Path.steps path).foldlM (t.stepTo path) (if Path.isAbsolute path then [] else t.here) = .ok p ∧
      (Text.endsWithAny path ["/", "/."] → ∀ bs, t.at? p ≠ some (.file bs)) := by
  constructor
  · intro h
    rw [resolve] at h
    split at h
    · cases h
    next hpath =>
      obtain ⟨q, hq, hlast⟩ := ok_of_bind_ok h
      split at hlast
      · split at hlast
        · cases hlast
        next hnone =>
          cases hlast
          exact ⟨by simpa using hpath, hq, fun _ => hnone⟩
      next hslash =>
        cases hlast
        exact ⟨by simpa using hpath, hq, fun hends => absurd hends hslash⟩
  · rintro ⟨hpath, hwalk, hlast⟩
    rw [resolve, if_neg (by simpa using hpath), hwalk]
    change (if Text.endsWithAny path ["/", "/."] = true then _ else _) = _
    split
    next hslash =>
      split
      next bs hfile =>
        exact absurd hfile (hlast hslash bs)
      · rfl
    · rfl

lemma Widens.resolve (h : Widens t t') (hp : t.resolve path = .ok p) (hfile : t.at? p = some (.file bs)) : t'.resolve path = .ok p := by
  obtain ⟨hpath, hwalk, hlast⟩ := resolve_iff.mp hp
  refine resolve_iff.mpr ⟨hpath, ?_, fun hslash => absurd hfile (hlast hslash bs)⟩
  rw [h.here]
  exact h.walk _ _ hwalk

lemma Widens.resolve_dir (h : Widens t t') (hp : t.resolve path = .ok p) (hdir : t.at? p = some .dir) : t'.resolve path = .ok p := by
  obtain ⟨hpath, hwalk, -⟩ := resolve_iff.mp hp
  refine resolve_iff.mpr ⟨hpath, ?_, fun _ bs hfile => ?_⟩
  · rw [h.here]
    exact h.walk _ _ hwalk
  · rw [h.dirs p hdir] at hfile
    cases hfile

/-! ## Reading and writing -/

lemma readBytes_iff : t.readBytes path = .ok bs ↔ ∃ p, t.resolve path = .ok p ∧ t.at? p = some (.file bs) := by
  constructor
  · intro h
    obtain ⟨node, hnode, h⟩ := ok_of_bind_ok h
    obtain ⟨p, hp, hat⟩ := ok_of_bind_ok hnode
    refine ⟨p, hp, ?_⟩
    cases hn : t.at? p with
    | none => rw [hn] at hat; cases hat
    | some n =>
      rw [hn] at hat
      cases hat
      cases node with
      | dir => cases h
      | file cs => cases h; rfl
  · rintro ⟨p, hp, hat⟩
    simp only [readBytes, stat, hp, bind, Except.bind, hat]
    rfl

lemma writeBytes_ok (h : t.writeBytes path bs = .ok t') :
    ∃ p, t.resolve path = .ok p ∧ t.at? p ≠ some .dir ∧ t' = t.set p (.file bs) := by
  obtain ⟨p, hp, h⟩ := ok_of_bind_ok h
  refine ⟨p, hp, ?_⟩
  split at h
  · cases h
  next old hold =>
    cases h
    exact ⟨by simp [hold], rfl⟩
  next hnone =>
    split at h
    · cases h
    · split at h
      · cases h
        exact ⟨by simp [hnone], rfl⟩
      · cases h
      · cases h

lemma writeBytes_widens (h : t.writeBytes path bs = .ok t') : Widens t t' := by
  obtain ⟨q, -, hdir, rfl⟩ := writeBytes_ok h
  exact widens_set hdir _

lemma readBytes_writeBytes {old : List UInt8} (hread : t.readBytes path = .ok old)
    (h : t.writeBytes path bs = .ok t') : t'.readBytes path = .ok bs := by
  obtain ⟨p, hp, hfile⟩ := readBytes_iff.mp hread
  obtain ⟨q, hq, hdir, rfl⟩ := writeBytes_ok h
  obtain rfl := Except.ok.inj (hp.symm.trans hq)
  refine readBytes_iff.mpr ⟨p, (widens_set hdir _).resolve hp hfile, ?_⟩
  rw [at_set (ne_nil_of_at hdir), if_pos rfl]

lemma readText_writeText {old : Text} (hread : t.readText path = .ok old) (htext : '\r' ∉ text)
    (h : t.writeText path text = .ok t') : t'.readText path = .ok text := by
  obtain ⟨bs, hbs, -⟩ := ok_of_bind_ok hread
  rw [readText, readBytes_writeBytes hbs h]
  change (do return Bytes.unifyLineEnds (← Bytes.toText (Bytes.ofText text))) = _
  rw [Bytes.toText_ofText]
  change Except.ok (Bytes.unifyLineEnds text) = _
  rw [Bytes.unifyLineEnds_eq htext]

lemma Keeps.readText (h : Keeps p t t') (hp : t.resolve path = .ok p)
    (hread : t.readText path = .ok text) : t'.readText path = .ok text := by
  obtain ⟨bs, hbs, hrest⟩ := ok_of_bind_ok hread
  obtain ⟨q, hq, hfile⟩ := readBytes_iff.mp hbs
  obtain rfl := Except.ok.inj (hp.symm.trans hq)
  have hbs' : t'.readBytes path = .ok bs := readBytes_iff.mpr ⟨p, h.toWidens.resolve hp hfile, h.node.trans hfile⟩
  rw [Tree.readText, hbs']
  exact hrest

/-! ## Directories and copies -/

lemma makeDir_keeps (hp : (t.at? p).isSome) (h : t.makeDir path = .ok t') : Keeps p t t' := by
  rw [makeDir] at h
  split at h
  · cases h
  · obtain ⟨q, -, h⟩ := ok_of_bind_ok h
    split at h
    · cases h
    next hnone =>
      split at h
      · cases h
        refine keeps_set (by simp [hnone]) ?_ _
        rintro rfl
        rw [hnone] at hp
        cases hp
      · cases h
      · cases h

lemma makeDirs_induct {R : Tree → Tree → Prop} (hrefl : ∀ t, R t t) (htrans : ∀ {a b c}, R a b → R b c → R a c)
    (hstep : ∀ {path : Text} {t t' : Tree}, t.makeDir path = .ok t' → R t t') {path : Text} {t t' : Tree}
    (h : makeDirs fuel path t = .ok t') : R t t' := by
  induction fuel generalizing path t t' with
  | zero => exact hstep h
  | succ fuel ih =>
    rw [makeDirs] at h
    dsimp only at h
    split at h
    · have hrest : ∀ {mid : Tree}, R t mid →
          (if (headAndTail path).2 == "." then .ok mid else mid.makeDir path) = .ok t' → R t t' := by
        intro mid hmid hlast
        split at hlast
        · cases hlast; exact hmid
        · exact htrans hmid (hstep hlast)
      split at h
      next made hmade =>
        exact hrest (ih hmade) h
      · exact hrest (hrefl t) h
      · cases h
    · exact hstep h

lemma makeDirs_keeps (hp : (t.at? p).isSome) (h : makeDirs fuel path t = .ok t') : Keeps p t t' := by
  refine makeDirs_induct (R := fun t t' => (t.at? p).isSome → Keeps p t t') (fun t _ => .refl p t) ?_
    (fun h hp => makeDir_keeps hp h) h hp
  intro a b c hab hbc ha
  exact (hab ha).trans (hbc (by rw [(hab ha).node]; exact ha))

lemma ensureDirs_keeps (hp : (t.at? p).isSome) (h : t.ensureDirs path = .ok t') : Keeps p t t' := by
  rw [ensureDirs] at h
  split at h
  · cases h; exact .refl p t
  · exact makeDirs_keeps hp h

lemma copyFile_writes (h : t.copyFile source target = .ok t') : ∃ bs, t.writeBytes target bs = .ok t' := by
  unfold copyFile at h
  extract_lets same at h
  split at h
  · cases h
  · obtain ⟨bs, -, h⟩ := ok_of_bind_ok h
    exact ⟨bs, h⟩

lemma copyFile_keeps (hsource : t.resolve source = .ok p)
    (hp : (t.at? p).isSome) (h : t.copyFile source target = .ok t') : Keeps p t t' := by
  obtain ⟨bs, hwrite⟩ := copyFile_writes h
  obtain ⟨q, hq, hdir, rfl⟩ := writeBytes_ok hwrite
  refine keeps_set hdir ?_ _
  rintro rfl
  rw [copyFile, hsource, hq] at h
  simp [hp] at h

end FunctionDocs.Tree
