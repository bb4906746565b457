import FunctionDocs.Proofs.Progress
import FunctionDocs.Proofs.Reports
import FunctionDocs.Proofs.Values

/-!
# Saving reports

The same functions are reported with the program's particulars and without them. Both reports go to the same places, and what they
say of the program's version tells them apart.
-/

namespace FunctionDocs.Tree

variable {t t' : Tree} {p : Place}

/-- Two trees with directories and files at the same places. -/
structure SameShape (t t' : Tree) : Prop where
  here : t'.here = t.here
  dirs : ∀ p, t'.at? p = some .dir ↔ t.at? p = some .dir
  free : ∀ p, t'.at? p = none ↔ t.at? p = none

lemma SameShape.refl (t : Tree) : SameShape t t := ⟨rfl, fun _ => Iff.rfl, fun _ => Iff.rfl⟩

lemma SameShape.file (h : SameShape t t') {bs : List UInt8} (hp : t.at? p = some (.file bs)) :
    ∃ bs', t'.at? p = some (.file bs') := by
  match hp' : t'.at? p with
  | none => rw [(h.free p).mp hp'] at hp; cases hp
  | some .dir => rw [(h.dirs p).mp hp'] at hp; cases hp
  | some (.file bs') => exact ⟨bs', rfl⟩

lemma SameShape.stepTo (h : SameShape t t') (path : Text) : t'.stepTo path = t.stepTo path := by
  funext p s
  match hp : t.at? p with
  | none => simp only [Tree.stepTo, hp, (h.free p).mpr hp]
  | some .dir => simp only [Tree.stepTo, hp, (h.dirs p).mpr hp]
  | some (.file bs) =>
    obtain ⟨bs', hp'⟩ := h.file hp
    simp only [Tree.stepTo, hp, hp']

lemma SameShape.resolve (h : SameShape t t') (path : Text) : t'.resolve path = t.resolve path := by
  simp only [Tree.resolve, h.stepTo, h.here]
  split
  · rfl
  · cases (Path.steps path).foldlM (t.stepTo path) (if Path.isAbsolute path then [] else t.here) with
    | error f => rfl
    | ok p =>
      simp only [bind, Except.bind]
      rcases hp : t.at? p with _ | _ | bs
      · rw [(h.free p).mpr hp]
      · rw [(h.dirs p).mpr hp]
      · obtain ⟨bs', hp'⟩ := h.file hp
        rw [hp']

lemma SameShape.set (h : SameShape t t') (hp : p ≠ []) (x y : List UInt8) :
    SameShape (t.set p (.file x)) (t'.set p (.file y)) := by
  refine ⟨h.here, fun q => ?_, fun q => ?_⟩
  · rw [at_set hp, at_set hp]
    split
    · simp
    · exact h.dirs q
  · rw [at_set hp, at_set hp]
    split
    · simp
    · exact h.free q

lemma SameShape.writeBytes (h : SameShape t t') (path : Text) (x y : List UInt8) :
    (∃ p, t.resolve path = .ok p ∧ t.at? p ≠ some .dir ∧ t.writeBytes path x = .ok (t.set p (.file x)) ∧
        t'.writeBytes path y = .ok (t'.set p (.file y))) ∨
      ∃ f, t.writeBytes path x = .error f ∧ t'.writeBytes path y = .error f := by
  simp only [Tree.writeBytes, h.resolve]
  cases t.resolve path with
  | error f => exact .inr ⟨f, rfl, rfl⟩
  | ok p =>
    simp only [bind, Except.bind]
    match hp : t.at? p with
    | some .dir => rw [(h.dirs p).mpr hp]; exact .inr ⟨_, rfl, rfl⟩
    | some (.file bs) =>
      obtain ⟨bs', hp'⟩ := h.file hp
      rw [hp']
      exact .inl ⟨p, rfl, by simp [hp], rfl, rfl⟩
    | none =>
      rw [(h.free p).mpr hp]
      dsimp only
      split
      · exact .inr ⟨_, rfl, rfl⟩
      · match hd : t.at? p.dropLast with
        | some .dir => rw [(h.dirs _).mpr hd]; exact .inl ⟨p, rfl, by simp [hp], rfl, rfl⟩
        | none => rw [(h.free _).mpr hd]; exact .inr ⟨_, rfl, rfl⟩
        | some (.file bs) =>
          obtain ⟨bs', hd'⟩ := h.file hd
          rw [hd']
          exact .inr ⟨_, rfl, rfl⟩

/-- A file can be written at the path. -/
def Writable (t : Tree) (path : Text) : Prop := (t.writeText path []).isOk = true

lemma writeText_cases (t : Tree) (path text : Text) :
    (t.Writable path ∧ ∃ t', t.writeText path text = .ok t') ∨ (¬t.Writable path ∧ ∃ f, t.writeText path text = .error f) := by
  rcases (SameShape.refl t).writeBytes path (Bytes.ofText text) (Bytes.ofText []) with ⟨p, -, -, htext, hnone⟩ | ⟨f, htext, hnone⟩
  · exact .inl ⟨by rw [Writable, writeText, hnone]; rfl, _, htext⟩
  · exact .inr ⟨by rw [Writable, writeText, hnone]; exact Bool.false_ne_true, f, htext⟩

/-- Two trees with the same files. -/
def SameFiles (t t' : Tree) : Prop := ∀ p bs, t.at? p = some (.file bs) ↔ t'.at? p = some (.file bs)

/-- The same text, but for the version of the program in it. -/
def Versioned (x y : List UInt8) : Prop :=
  ∃ front back : Text, x = Bytes.ofText (front ++ App.version ++ back) ∧ y = Bytes.ofText (front ++ "1.0" ++ back)

/-- Two trees with the same files, but for versions of the program in them. -/
def SameButVersions (t t' : Tree) : Prop :=
  ∀ p, (∀ x, t.at? p = some (.file x) → ∃ y, t'.at? p = some (.file y) ∧ (y = x ∨ Versioned x y)) ∧
    ∀ y, t'.at? p = some (.file y) → ∃ x, t.at? p = some (.file x)

lemma SameFiles.sameButVersions (h : SameFiles t t') : SameButVersions t t' :=
  fun p => ⟨fun x hx => ⟨x, (h p x).mp hx, Or.inl rfl⟩, fun y hy => ⟨y, (h p y).mpr hy⟩⟩

lemma SameButVersions.set (h : SameButVersions t t') (hp : p ≠ []) {x y : List UInt8} (hxy : Versioned x y) :
    SameButVersions (t.set p (.file x)) (t'.set p (.file y)) := by
  intro q
  rw [at_set hp, at_set hp]
  split
  · refine ⟨fun a ha => ?_, fun b _ => ⟨x, rfl⟩⟩
    cases ha
    exact ⟨y, rfl, .inr hxy⟩
  · exact h q

/-- Some file has other bytes in one tree than in the other. -/
def Differ (t t' : Tree) : Prop := ∃ q x y, x ≠ y ∧ t.at? q = some (.file x) ∧ t'.at? q = some (.file y)

end FunctionDocs.Tree

namespace FunctionDocs.Run

open Report App FunctionDocs.Tree

def offeredFormats : List Value := [.str "html", .str "md"]

def reportPath (output : Text) (format : Value) : Text := output ++ if format == .str "html" then ".html" else ".md"

def closingOf (format : Value) : Text := if format == .str "html" then Html.closing else Markdown.closing

variable {t t' : Tree} {output : Text} {es : List Entry} {path : Text} {f : Value} {p : Place} {fs : List Value}

lemma run_change (f : Tree → Except Failure Tree) (t : Tree) :
    (change f).run.run t = match f t with
      | .ok t' => (.ok (), t')
      | .error e => (.error e, t) := by
  change (match f t with | .ok t' => set t' | .error e => throw e : FilesM Unit).run.run t = _
  cases f t <;> rfl

lemma run_writeDraft {d : Draft} (h : d.Sound) (t : Tree) :
    (writeDraft path (.ok d)).run.run t = match t.writeText path d.written with
      | .ok t' => (.ok (), t')
      | .error e => (.error e, t) := by
  change ((change (·.writeText path d.written)) >>= fun _ => _).run.run t = _
  rw [run_bind, run_change, h.failure]
  cases t.writeText path d.written <;> rfl

lemma run_writeReport (hes : ∀ e ∈ es, e.Complete) (d : Document) (output : Text) (st : Coverage.Stats)
    (hf : f ∈ offeredFormats) :
    ∃ front : Text, ∀ {a : Value} {version : Text}, Value.fieldOf a "document" = .ok d.toValue →
      softwareVersion a = .ok version → ∀ t, (writeReport output es a st f).run.run t =
        match t.writeText (reportPath output f) (front ++ version ++ closingOf f) with
        | .ok t' => (.ok (reportPath output f), t')
        | .error e => (.error e, t) := by
  obtain ⟨page, ⟨front, hfront⟩, hsteps⟩ : ∃ page, Closes page d (closingOf f) ∧ ∀ a, writeReport output es a st f = do
      writeDraft (reportPath output f) (page a)
      return reportPath output f := by
    rcases List.mem_pair.mp hf with rfl | rfl
    · exact ⟨_, Html.page_complete hes d st, fun _ => rfl⟩
    · exact ⟨_, Markdown.page_complete hes d st, fun _ => rfl⟩
  refine ⟨front, fun {a version} hinfo hversion t => ?_⟩
  obtain ⟨p, hpage, hsound, hend⟩ := hfront hinfo hversion
  rw [hsteps, hpage, ← hend, run_bind, run_writeDraft hsound]
  cases t.writeText (reportPath output f) p.written <;> rfl

lemma ne_of_versions {a b v v' c : Text} (hne : v ≠ []) (hne' : v' ≠ []) (hlast : v.getLast? ≠ v'.getLast?) :
    a ++ v ++ c ≠ b ++ v' ++ c := by
  intro h
  have hversions := congrArg List.getLast? (List.append_cancel_right h)
  rw [List.getLast?_append_of_ne_nil _ hne, List.getLast?_append_of_ne_nil _ hne'] at hversions
  exact hlast hversions

lemma ofText_injective {x y : Text} (h : Bytes.ofText x = Bytes.ofText y) : x = y := by
  have hx := Bytes.toText_ofText x
  rw [h, Bytes.toText_ofText y] at hx
  exact (Except.ok.inj hx).symm

/-! ## Two reports on the same functions -/

/-- The report with the program's particulars and the one without them are written to the same place, and differ; or neither can
be written. If the same is known of the document, they differ in the version only. -/
lemma writeReport_pair (s s' : Settings) (st : Coverage.Stats) (output : Text) (h : SameShape t t')
    (hes : ∀ e ∈ es, e.Complete) (hf : f ∈ offeredFormats) :
    (t.Writable (reportPath output f) ∧ ∃ p x y, x ≠ y ∧ (s'.document = s.document → Versioned x y) ∧
        t.resolve (reportPath output f) = .ok p ∧ t.at? p ≠ some .dir ∧
        (writeReport output es s.arguments st f).run.run t = (.ok (reportPath output f), t.set p (.file x)) ∧
        (writeReport output es s'.toValue st f).run.run t' = (.ok (reportPath output f), t'.set p (.file y))) ∨
      (¬t.Writable (reportPath output f) ∧ ∃ e, (writeReport output es s.arguments st f).run.run t = (.error e, t) ∧
        (writeReport output es s'.toValue st f).run.run t' = (.error e, t')) := by
  have hversion : softwareVersion s.arguments = .ok version := rfl
  have hversion' : softwareVersion s'.toValue = .ok "1.0" := rfl
  obtain ⟨front, hfront⟩ := run_writeReport hes s.document output st hf
  obtain ⟨front', hsame, hfront'⟩ : ∃ front', (s'.document = s.document → front' = front) ∧
      ∀ t, (writeReport output es s'.toValue st f).run.run t =
        match t.writeText (reportPath output f) (front' ++ "1.0" ++ closingOf f) with
        | .ok t' => (.ok (reportPath output f), t')
        | .error e => (.error e, t) := by
    by_cases hdocument : s'.document = s.document
    · exact ⟨front, fun _ => rfl, hfront (by rw [← hdocument]; rfl) hversion'⟩
    · obtain ⟨front', hfront'⟩ := run_writeReport hes s'.document output st hf
      exact ⟨front', fun heq => absurd heq hdocument, hfront' rfl hversion'⟩
  have hne : Bytes.ofText (front ++ version ++ closingOf f) ≠ Bytes.ofText (front' ++ "1.0" ++ closingOf f) := fun heq =>
    ne_of_versions (by decide) (by decide) (by decide) (ofText_injective heq)
  have hcases := writeText_cases t (reportPath output f) (front ++ version ++ closingOf f)
  rw [hfront rfl hversion, hfront']
  rcases h.writeBytes (reportPath output f) (Bytes.ofText (front ++ version ++ closingOf f))
    (Bytes.ofText (front' ++ "1.0" ++ closingOf f)) with ⟨p, hp, hdir, htx, hty⟩ | ⟨e, htx, hty⟩
  · rw [writeText, htx] at hcases ⊢
    rw [writeText, hty]
    rcases hcases with ⟨hwritable, -⟩ | ⟨-, e, he⟩
    · exact .inl ⟨hwritable, p, _, _, hne, fun hd => ⟨front, closingOf f, rfl, by rw [hsame hd]⟩, hp, hdir, rfl, rfl⟩
    · cases he
  · rw [writeText, htx] at hcases ⊢
    rw [writeText, hty]
    rcases hcases with ⟨-, u, hu⟩ | ⟨hwritable, -⟩
    · cases hu
    · exact .inr ⟨hwritable, e, rfl, rfl⟩

lemma differ_set {x y : List UInt8} (hp : p ≠ []) (hne : x ≠ y) : Differ (t.set p (.file x)) (t'.set p (.file y)) := by
  refine ⟨p, x, y, hne, ?_, ?_⟩
  · rw [at_set hp, if_pos rfl]
  · rw [at_set hp, if_pos rfl]

lemma getLast_of_suffix {u v : Text} (h : u <:+ v) (hne : u ≠ []) : v.getLast? = u.getLast? := by
  obtain ⟨a, rfl⟩ := h
  exact List.getLast?_append_of_ne_nil _ hne

/-- The path of a report leads to the same place in a wider tree: it does not end as the path of a directory. -/
lemma resolve_reportPath (h : Widens t t') (hp : t.resolve (reportPath output f) = .ok p) :
    t'.resolve (reportPath output f) = .ok p := by
  obtain ⟨hpath, hwalk, -⟩ := resolve_iff.mp hp
  refine resolve_iff.mpr ⟨hpath, ?_, fun hslash => absurd hslash ?_⟩
  · rw [h.here]
    exact h.walk _ _ hwalk
  · have hlast : (reportPath output f).getLast? = some 'l' ∨ (reportPath output f).getLast? = some 'd' := by
      rw [reportPath]
      split
      · exact .inl (List.getLast?_append_of_ne_nil _ (by decide))
      · exact .inr (List.getLast?_append_of_ne_nil _ (by decide))
    simp only [Text.endsWithAny, List.any_cons, List.any_nil, Bool.or_false, Bool.or_eq_true, Text.endsWith_iff]
    rintro (hends | hends)
    · rw [getLast_of_suffix hends (by decide)] at hlast
      exact absurd hlast (by decide)
    · rw [getLast_of_suffix hends (by decide)] at hlast
      exact absurd hlast (by decide)

/-- The files after reports were written, up to the first one that cannot be. -/
def reportsTree (output : Text) (es : List Entry) (a : Value) (st : Coverage.Stats) (fs : List Value) (t : Tree) : Tree :=
  ((fs.mapM (writeReport output es a st)).run.run t).2

lemma reportsTree_nil (output : Text) (es : List Entry) (a : Value) (st : Coverage.Stats) (t : Tree) :
    reportsTree output es a st [] t = t := rfl

lemma reportsTree_cons (output : Text) (es : List Entry) (a : Value) (st : Coverage.Stats) (f : Value) (fs : List Value)
    (t : Tree) :
    reportsTree output es a st (f :: fs) t =
      match (writeReport output es a st f).run.run t with
      | (.ok _, mid) => reportsTree output es a st fs mid
      | (.error _, mid) => mid := by
  rw [reportsTree, List.mapM_cons, run_bind]
  match (writeReport output es a st f).run.run t with
  | (.error e, mid) => rfl
  | (.ok path, mid) =>
    dsimp only
    rw [run_bind, reportsTree]
    match (fs.mapM (writeReport output es a st)).run.run mid with
    | (.error e, last) => rfl
    | (.ok paths, last) => rfl

/-- Reports with the program's particulars and without them are written in the same places, and nothing else changes. What differs
once goes on to differ; but if the same is known of the document, it differs in versions only. -/
lemma reportsTree_pair (s s' : Settings) (st : Coverage.Stats) (output : Text) (hes : ∀ e ∈ es, e.Complete)
    (hfs : ∀ f ∈ fs, f ∈ offeredFormats) (h : SameShape t t') :
    Widens t (reportsTree output es s.arguments st fs t) ∧
      (∀ q, (∀ f ∈ fs, (reportsTree output es s.arguments st fs t).resolve (reportPath output f) ≠ .ok q) → t.at? q = t'.at? q →
        (reportsTree output es s.arguments st fs t).at? q = (reportsTree output es s'.toValue st fs t').at? q) ∧
      (Differ t t' → Differ (reportsTree output es s.arguments st fs t) (reportsTree output es s'.toValue st fs t')) ∧
      (s'.document = s.document → SameButVersions t t' →
        SameButVersions (reportsTree output es s.arguments st fs t) (reportsTree output es s'.toValue st fs t')) := by
  induction fs generalizing t t' with
  | nil => exact ⟨.refl t, fun _ _ heq => heq, id, fun _ => id⟩
  | cons f fs ih =>
    obtain ⟨hf, hfs⟩ := List.forall_mem_cons.mp hfs
    rw [reportsTree_cons, reportsTree_cons]
    rcases writeReport_pair s s' st output h hes hf with ⟨-, p, x, y, hne, hversions, hp, hdir, hrun, hrun'⟩ | ⟨-, e, hrun, hrun'⟩
    · rw [hrun, hrun']
      have hroot : p ≠ [] := ne_nil_of_at hdir
      obtain ⟨hwidens, halike, hdiffer, hsame⟩ := ih hfs (h.set hroot x y)
      have hall : Widens t _ := (widens_set hdir (.file x)).trans hwidens
      refine ⟨hall, fun q hq heq => ?_, fun _ => hdiffer (differ_set hroot hne),
        fun hd ht => hsame hd (ht.set hroot (hversions hd))⟩
      obtain ⟨hpq, hq⟩ := List.forall_mem_cons.mp hq
      have hother : q ≠ p := by
        rintro rfl
        exact hpq (resolve_reportPath hall hp)
      refine halike q hq ?_
      rw [at_set hroot, at_set hroot, if_neg hother, if_neg hother]
      exact heq
    · rw [hrun, hrun']
      exact ⟨.refl t, fun _ _ heq => heq, id, fun _ => id⟩

/-! ## Saving -/

lemma ofEntries_complete (hes : ∀ e ∈ es, e.Complete) : ∃ st, Coverage.Stats.ofEntries es = .ok st := by
  refine ⟨_, Coverage.ofEntries_eq fun e he => ?_⟩
  obtain ⟨f, line, comment, rfl⟩ := hes e he
  exact nofun

/-- The files once the directory of the reports is there, if the output names one and it can be made. -/
def outputTree (output : Value) (t : Tree) : Except Failure (Text × Tree) :=
  match output with
  | .str path => (t.ensureDirs (Path.directory path)).map (path, ·)
  | other => .error (.notPath other.kind)

lemma outputTree_ok {v : Value} (h : outputTree v t = .ok (path, t')) :
    v = .str path ∧ t.ensureDirs (Path.directory path) = .ok t' := by
  cases v with
  | str p =>
    rw [outputTree] at h
    cases hdirs : t.ensureDirs (Path.directory p) with
    | error e => rw [hdirs] at h; cases h
    | ok u => rw [hdirs] at h; cases h; exact ⟨rfl, hdirs⟩
  | _ => cases h

lemma run_outputPath {a v : Value} (h : Value.fieldOf a "output_path" = .ok v) (t : Tree) :
    (outputPath a).run.run t = match outputTree v t with
      | .ok (path, t') => (.ok path, t')
      | .error e => (.error e, t) := by
  rw [outputPath, h]
  cases v with
  | str path =>
    change (change (·.ensureDirs (Path.directory path)) >>= fun _ => pure path).run.run t = _
    rw [run_bind, run_change, outputTree]
    cases t.ensureDirs (Path.directory path) <;> rfl
  | _ => rfl

lemma save_tree {a v : Value} {st : Coverage.Stats} (houtput : Value.fieldOf a "output_path" = .ok v)
    (hformats : Value.fieldOf a "output_format" = .ok (.list fs)) (hst : Coverage.Stats.ofEntries es = .ok st) (t : Tree) :
    ((save a es).run.run t).2 = match outputTree v t with
      | .ok (output, t') => reportsTree output es a st fs t'
      | .error _ => t := by
  rw [save, run_bind, run_outputPath houtput]
  match outputTree v t with
  | .error e => rfl
  | .ok (output, t') =>
    dsimp only
    rw [hst]
    change ((settle (Value.fieldOf a "output_format" >>= Value.itemsOf) >>= fun formats => _).run.run t').2 = _
    rw [hformats]
    change ((fs.mapM (writeReport output es a st) >>= fun paths => _).run.run t').2 = _
    rw [run_bind, reportsTree]
    match (fs.mapM (writeReport output es a st)).run.run t' with
    | (.error e, last) => rfl
    | (.ok paths, last) => rfl

/-- The report in the first format can be written. -/
def FirstWritable (output : Value) (fs : List Value) (t : Tree) : Prop :=
  ∃ path t' f, outputTree output t = .ok (path, t') ∧ fs.head? = some f ∧ t'.Writable (reportPath path f)

/-- The place belongs to a report. -/
def ReportAt (output : Value) (t : Tree) (q : Place) : Prop :=
  ∃ path, output = .str path ∧ ∃ f ∈ offeredFormats, t.resolve (reportPath path f) = .ok q

lemma save_pair {s s' : Settings} (hes : ∀ e ∈ es, e.Complete) (hformats : s.formats = .list fs)
    (hfs : ∀ f ∈ fs, f ∈ offeredFormats) (houtput : s'.output = s.output) (hsame : s'.formats = s.formats) (t : Tree) :
    (∀ q, ¬ReportAt s.output ((save s.arguments es).run.run t).2 q →
        ((save s.arguments es).run.run t).2.at? q = ((save s'.toValue es).run.run t).2.at? q) ∧
      (FirstWritable s.output fs t → Differ ((save s.arguments es).run.run t).2 ((save s'.toValue es).run.run t).2) ∧
      (¬FirstWritable s.output fs t → ((save s.arguments es).run.run t).2 = ((save s'.toValue es).run.run t).2) ∧
      (s'.document = s.document → SameButVersions ((save s.arguments es).run.run t).2 ((save s'.toValue es).run.run t).2) := by
  obtain ⟨st, hst⟩ := ofEntries_complete hes
  have hfields : Value.fieldOf s.arguments "output_path" = .ok s.output ∧
      Value.fieldOf s.arguments "output_format" = .ok s.formats := ⟨rfl, rfl⟩
  have hfields' : Value.fieldOf s'.toValue "output_path" = .ok s'.output ∧
      Value.fieldOf s'.toValue "output_format" = .ok s'.formats := ⟨rfl, rfl⟩
  rw [hformats] at hfields
  rw [houtput, hsame, hformats] at hfields'
  rw [save_tree hfields.1 hfields.2 hst, save_tree hfields'.1 hfields'.2 hst]
  have hrefl : ∀ u : Tree, SameButVersions u u := fun u => SameFiles.sameButVersions fun _ _ => Iff.rfl
  cases hout : outputTree s.output t with
  | error e =>
    refine ⟨fun _ _ => rfl, ?_, fun _ => rfl, fun _ => hrefl t⟩
    rintro ⟨path, t', f, h, -, -⟩
    rw [hout] at h
    cases h
  | ok saved =>
    obtain ⟨path, t'⟩ := saved
    dsimp only
    obtain ⟨-, halike, -, hversions⟩ := reportsTree_pair s s' st path hes hfs (SameShape.refl t')
    have hpath : s.output = .str path := (outputTree_ok hout).1
    refine ⟨fun q hq => ?_, ?_, ?_, fun hd => hversions hd (hrefl t')⟩
    · refine halike q (fun f hf hplace => hq ⟨path, hpath, f, hfs f hf, hplace⟩) rfl
    · rintro ⟨path', u, f, h, hhead, hwritable⟩
      rw [hout] at h
      cases h
      obtain ⟨fs, rfl⟩ : ∃ fs', fs = f :: fs' := by
        cases fs with
        | nil => cases hhead
        | cons g fs => cases hhead; exact ⟨fs, rfl⟩
      obtain ⟨hf, hfs⟩ := List.forall_mem_cons.mp hfs
      rw [reportsTree_cons, reportsTree_cons]
      rcases writeReport_pair s s' st path (SameShape.refl t') hes hf with
        ⟨-, p, x, y, hne, -, -, hdir, hrun, hrun'⟩ | ⟨hnot, -⟩
      · rw [hrun, hrun']
        have hroot : p ≠ [] := ne_nil_of_at hdir
        exact (reportsTree_pair s s' st path hes hfs ((SameShape.refl t').set hroot x y)).2.2.1 (differ_set hroot hne)
      · exact absurd hwritable hnot
    · intro hnot
      cases fs with
      | nil => rw [reportsTree_nil, reportsTree_nil]
      | cons f fs =>
        obtain ⟨hf, -⟩ := List.forall_mem_cons.mp hfs
        rw [reportsTree_cons, reportsTree_cons]
        rcases writeReport_pair s s' st path (SameShape.refl t') hes hf with ⟨hwritable, -⟩ | ⟨-, e, hrun, hrun'⟩
        · exact absurd ⟨path, t', f, hout, rfl, hwritable⟩ hnot
        · rw [hrun, hrun']

end FunctionDocs.Run
