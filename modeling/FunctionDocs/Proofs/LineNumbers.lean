import FunctionDocs.Proofs.Sighting
import FunctionDocs.Proofs.Unchanged

/-!
# The line numbers of a run

The entries that a run gives carry a line number. The number is counted from zero if the run only reads or writes plain headers, and
is then one less than the number of the line. In the Doxygen style it comes from a search of the new text and is counted from one,
so it is right exactly if the search sights the function where it starts, after as many sightings as there are functions before it
with its name and parameters.
-/

open List

namespace FunctionDocs

namespace Source

open Text

/-! ## A function and its number -/

lemma Counted.eq_of_same {fs : List Function} {f g : Function} (h : Counted fs) (hf : f ∈ fs) (hg : g ∈ fs) (hsame : Same f g) :
    f = g :=
  inj_on_of_nodup_map h.nodup hf hg (by rw [hsame.name, hsame.params, hsame.count])

/-! ## An empty line at the end -/

lemma lines_concat_feed (t : Text) : ∃ e ∈ [[], [[]]], lines (t ++ ['\n']) = lines t ++ e := by
  fun_induction lines t with
  | case1 => exact ⟨[[]], by simp, rfl⟩
  | case2 r ih =>
    obtain ⟨e, he, ih⟩ := ih
    have happend : '\r' :: '\n' :: r ++ ['\n'] = '\r' :: '\n' :: (r ++ ['\n']) := rfl
    exact ⟨e, he, by rw [happend, lines, ih]; rfl⟩
  | case3 c r hpair hc ih =>
    by_cases hreturn : c = '\r' ∧ r = []
    · obtain ⟨rfl, rfl⟩ := hreturn
      exact ⟨[], by simp, rfl⟩
    · have hpair' : ∀ r', c = '\r' → r ++ ['\n'] = '\n' :: r' → False := by
        intro r' hcr hr
        cases r with
        | nil => exact hreturn ⟨hcr, rfl⟩
        | cons d r =>
          cases hr
          exact hpair r hcr rfl
      obtain ⟨e, he, ih⟩ := ih
      exact ⟨e, he, by rw [cons_append, lines.eq_3 c _ hpair', if_pos hc, ih]; rfl⟩
  | case4 c r hpair hc hr ih =>
    obtain ⟨e, he, ih⟩ := ih
    refine ⟨[], by simp, ?_⟩
    rw [cons_append, lines.eq_3 c _ fun _ hcr _ => hc (by rw [hcr]; rfl), if_neg hc, ih, hr]
    rcases mem_pair.mp he with rfl | rfl <;> rfl
  | case5 c r hpair hc k ks hr ih =>
    obtain ⟨e, he, ih⟩ := ih
    exact ⟨e, he, by rw [cons_append, lines.eq_3 c _ fun _ hcr _ => hc (by rw [hcr]; rfl), if_neg hc, ih, hr]; rfl⟩

lemma visibleFrom_concat_empty (i : Nat) (inComment : Bool) (ls : List Text) :
    ∃ k, visibleFrom i inComment (ls ++ [[]]) = visibleFrom i inComment ls ∨
      visibleFrom i inComment (ls ++ [[]]) = visibleFrom i inComment ls ++ [(k, [])] := by
  induction ls generalizing i inComment with
  | nil =>
    cases inComment with
    | false => exact ⟨i, .inr rfl⟩
    | true => exact ⟨i, .inl rfl⟩
  | cons l ls ih =>
    simp only [cons_append, visibleFrom]
    split
    · exact ih _ _
    · split
      · exact ih _ _
      · split
        · exact ih _ _
        · obtain ⟨k, hk⟩ := ih (i + 1) false
          refine ⟨k, hk.imp (fun h => by rw [h]) fun h => by rw [h]; rfl⟩

lemma opensDeclaration_nil (name : Text) : opensDeclaration name [] = false := by
  have hhere : isNameHere name [] = false := by
    rw [isNameHere]
    simp
  rw [opensDeclaration, mentions, hhere]
  rfl

lemma declarationsFrom_concat_empty (name : Text) (pending : Option (Nat × Text)) (vs : List (Nat × Text)) (k : Nat) :
    declarationsFrom name pending (vs ++ [(k, [])]) = declarationsFrom name pending vs := by
  induction vs generalizing pending with
  | nil =>
    cases pending with
    | none =>
      simp only [nil_append, declarationsFrom, opensDeclaration_nil, Bool.false_eq_true, if_false]
    | some p => rfl
  | cons v vs ih =>
    cases pending with
    | none => simp only [cons_append, declarationsFrom, ih]
    | some p => simp only [cons_append, declarationsFrom, ih]

lemma sightings_concat_feed (t name : Text) (params : Option Text) : sightings (t ++ ['\n']) name params = sightings t name params := by
  unfold sightings
  obtain ⟨e, he, h⟩ := lines_concat_feed t
  rw [h]
  rcases mem_pair.mp he with rfl | rfl
  · rw [append_nil]
  · obtain ⟨k, hvisible⟩ := visibleFrom_concat_empty 0 false t.lines
    rcases hvisible with hvisible | hvisible
    · rw [hvisible]
    · rw [hvisible, declarationsFrom_concat_empty]

end Source

namespace Header

open Text

variable {ls : List Text} {ls' : List Text}

/-! ## Documentation brings no line ends -/

lemma mem_putDoc {i : Int} {doc : Text} (h : putDoc ls i doc = .ok ls') : ∀ l ∈ ls', l ∈ ls ∨ l = [] ∨ l ∈ doc.lines := by
  unfold putDoc at h
  extract_lets gap comment new after at h
  obtain ⟨next, -, h⟩ := ok_of_bind_ok h
  cases h
  have hgap : ∀ l ∈ gap, l = [] := by
    intro l hl
    simp only [gap] at hl
    split at hl
    · simpa using hl
    · split at hl
      · simpa using hl
      · cases hl
  have hnew : ∀ l ∈ new, l ∈ ls ∨ l = [] ∨ l ∈ doc.lines := by
    intro l hl
    rcases mem_append.mp hl with hl | hl
    · rcases mem_append.mp hl with hl | hl
      · exact .inl (mem_of_mem_take hl)
      · rcases mem_append.mp hl with hl | hl
        · exact .inr (.inl (hgap l hl))
        · exact .inr (.inr hl)
    · exact .inl (mem_of_mem_drop hl)
  intro l hl
  rcases mem_append.mp hl with hl | hl
  · exact hnew l (mem_of_mem_take hl)
  · exact hnew l (mem_of_mem_drop hl)

lemma flat_replaceFor {e : Entry} (hflat : ∀ l ∈ ls, Flat l) (h : replaceFor ls e = .ok ls') : ∀ l ∈ ls', Flat l := by
  rw [replaceFor_eq] at h
  obtain ⟨r?, hr, h⟩ := ok_of_bind_ok h
  cases r? with
  | none =>
    cases h
    exact hflat
  | some r =>
    have hleft : ∀ l ∈ r.lines, Flat l := by
      rcases (replacement_some hr).1 with ⟨-, hsame⟩ | ⟨start, -, hremove⟩
      · rw [hsame]
        exact hflat
      · rcases removeHeader_cases hremove with ⟨-, hsame⟩ | ⟨above, header, below, -, hls, hsame⟩
        · rw [hsame]
          exact hflat
        · intro l hl
          refine hflat l ?_
          rw [hsame] at hl
          rw [hls]
          rcases mem_append.mp hl with hl | hl
          · exact mem_append_left _ (mem_append_left _ hl)
          · exact mem_append_right _ hl
    intro l hl
    rcases mem_putDoc h l hl with hl | rfl | hl
    · exact hleft l hl
    · exact nofun
    · exact (mem_lines hl).2

lemma flat_replaceHeaders {content : Text} {es : List Entry} (h : replaceHeaders content es = .ok ls) : ∀ l ∈ ls, Flat l := by
  have hrun : ∀ {es : List Entry} {ls₀ : List Text}, (∀ l ∈ ls₀, Flat l) → es.foldlM replaceFor ls₀ = .ok ls → ∀ l ∈ ls, Flat l := by
    intro es
    induction es with
    | nil =>
      intro ls₀ hflat h
      cases h
      exact hflat
    | cons e es ih =>
      intro ls₀ hflat h
      obtain ⟨mid, hmid, h⟩ := ok_of_bind_ok h
      exact ih (flat_replaceFor hflat hmid) h
  exact hrun (fun l hl => (mem_lines hl).2) h

end Header

namespace Run

open Text Source Header

variable {e : Entry} {es : List Entry} {ls : List Text} {path : Text} {t t' : Tree} {g : Function} {content : Text} {i : Int}
  {style : Value} {r : Request}

/-! ## The number of an entry -/

/-- An entry tells of a function of a text. -/
structure Tells (e : Entry) (g : Function) : Prop where
  name : e.name = some g.name
  params : e.params = some g.params
  count : e.count = some (g.count : Int)

lemma Tells.same {f : Function} (hf : Tells e f) (hg : Tells e g) : Same f g where
  name := Option.some.inj (hg.name.symm.trans hf.name)
  params := Option.some.inj (hg.params.symm.trans hf.params)
  count := Int.ofNat.inj (Option.some.inj (hg.count.symm.trans hf.count))

/-- An entry carries the number, counted from one, of the line on which its function starts in a text. -/
def RightLine (path content : Text) (e : Entry) : Prop :=
  ∃ fs, functionsOf content path = .ok fs ∧ ∃ g ∈ fs, Tells e g ∧ e.startLine = some ((g.startLine : Int) + 1)

/-- The function of an entry is sighted on the line it starts on, after as many sightings as there are functions before it with its
name and parameters. -/
def Sighted (path content : Text) (e : Entry) : Prop :=
  ∃ before g after, functionsOf content path = .ok (before ++ g :: after) ∧ Tells e g ∧
    ∃ above below, sightings content g.name (some g.params) = above ++ .line g.startLine :: below ∧
      above.length = countSame g.name g.params before

lemma entriesOf_startLine (h : entriesOf path content = .ok es) :
    ∃ fs, functionsOf content path = .ok fs ∧ ∀ e ∈ es, ∃ f ∈ fs, Tells e f ∧ e.startLine = some (f.startLine : Int) := by
  obtain ⟨fs, hfs, hdocument⟩ := ok_of_bind_ok h
  refine ⟨fs, hfs, fun e he => ?_⟩
  obtain ⟨x, hx, hdoc⟩ := mem_of_mapM_ok hdocument e he
  obtain ⟨f, hf, rfl⟩ := mem_map.mp hx
  obtain ⟨text, -, hdoc⟩ := ok_of_bind_ok hdoc
  cases hdoc
  exact ⟨f, hf, ⟨rfl, rfl, rfl⟩, rfl⟩

lemma not_rightLine_of_entriesOf (h : entriesOf path content = .ok es) {e : Entry} (he : e ∈ es) : ¬RightLine path content e := by
  rintro ⟨gs, hgs, g, hg, htells, hline⟩
  obtain ⟨fs, hfs, hall⟩ := entriesOf_startLine h
  obtain rfl := Except.ok.inj (hfs.symm.trans hgs)
  obtain ⟨f, hf, htells', hline'⟩ := hall e he
  obtain rfl := (functionsOf_counted hfs).eq_of_same hf hg (htells'.same htells)
  have := Option.some.inj (hline.symm.trans hline')
  omega

/-- The entries with their new lines: each has the line that is found for it. -/
lemma mem_updateStarts {es' : List Entry} (h : updateStarts ls es = (es', none)) :
    ∀ e ∈ es', ∃ e₀ ∈ es, ∃ i, newStartLine ls e₀ = .ok i ∧ e = { e₀ with startLine := some i } := by
  induction es generalizing es' with
  | nil =>
    cases h
    simp
  | cons e₀ es ih =>
    rw [updateStarts] at h
    split at h
    · cases h
    next i hi =>
      cases hrest : updateStarts ls es with
      | mk rest failure =>
        rw [hrest] at h
        cases h
        intro e he
        rcases mem_cons.mp he with rfl | he
        · exact ⟨e₀, mem_cons_self, i, hi, rfl⟩
        · obtain ⟨e₁, he₁, rest⟩ := ih hrest e he
          exact ⟨e₁, mem_cons_of_mem _ he₁, rest⟩

lemma newStartLine_eq_iff (htells : Tells e g)
    (h : newStartLine ls e = .ok i) (k n : Nat) (hn : g.count = n + 1) :
    i = (k : Int) + 1 ↔
      ∃ above below, sightings (unlines ls ++ ['\n']) g.name (some g.params) = above ++ .line k :: below ∧ above.length = n := by
  have hline : newStartLine ls e = (lineOf ls g.name g.params g.count .addition).map (· + 1) := by
    rw [newStartLine, Entry.name!, Entry.params!, Entry.count!, htells.name, htells.params, htells.count]
    simp only [require, bind, Except.bind]
    cases lineOf ls g.name g.params g.count .addition <;> rfl
  rw [sightings_concat_feed, ← pick_eq_line_iff, ← hn, ← locate_eq_pick]
  rw [hline, lineOf] at h
  cases hlocate : locate (unlines ls) g.name (some g.params) g.count with
  | line m =>
    rw [hlocate] at h
    cases h
    simp only [Sighting.line.injEq]
    omega
  | nowhere =>
    rw [hlocate] at h
    cases h
    simp only [reduceCtorEq, iff_false]
    omega
  | unplaced =>
    rw [hlocate] at h
    cases h

lemma rightLine_iff_sighted {e₀ : Entry} (hi : newStartLine ls e₀ = .ok i) (he : e = { e₀ with startLine := some i }) :
    RightLine path (unlines ls ++ ['\n']) e ↔ Sighted path (unlines ls ++ ['\n']) e := by
  have hback : ∀ {g : Function}, Tells e g → Tells e₀ g := by
    intro g h
    subst he
    exact ⟨h.name, h.params, h.count⟩
  have hstart : e.startLine = some i := by rw [he]
  constructor
  · rintro ⟨fs, hfs, g, hg, htells, hline⟩
    obtain ⟨before, after, rfl⟩ := append_of_mem hg
    refine ⟨before, g, after, hfs, htells, ?_⟩
    exact (newStartLine_eq_iff (hback htells) hi _ _ (functionsOf_counted hfs _ _ _ rfl)).mp
      (Option.some.inj (hstart.symm.trans hline))
  · rintro ⟨before, g, after, hfs, htells, hsighted⟩
    refine ⟨_, hfs, g, by simp, htells, ?_⟩
    rw [hstart, (newStartLine_eq_iff (hback htells) hi _ _ (functionsOf_counted hfs _ _ _ rfl)).mpr hsighted]

/-! ## The numbers of a run -/

/-- The entries of a rewritten file with plain headers have the lines that they had when its text was read; in the Doxygen style they
have the lines that are found in the new text. -/
lemma rewriteFile_startLine (h : Gives (rewriteFile style path) t (some es) t') :
    ∃ content', t'.readText path = .ok content' ∧ ∀ e ∈ es, RightLine path content' e ↔
      (style == .str "doxygen") ∧ Sighted path content' e := by
  obtain ⟨_, _, mid, text, es₀, _, -, -, -, htext, hes₀, heq, hlast⟩ := rewriteFile_gives h
  cases heq
  split at hlast
  next hstyle =>
    obtain ⟨ls, hls, hwritten, hupdate⟩ := hlast
    refine ⟨_, Tree.readText_writeText htext (not_mem_unlines (flat_replaceHeaders hls)) hwritten, fun e he => ?_⟩
    obtain ⟨e₀, -, i, hi, he⟩ := mem_updateStarts hupdate e he
    exact (rightLine_iff_sighted hi he).trans ⟨fun hsighted => ⟨hstyle, hsighted⟩, fun h => h.2⟩
  next hstyle =>
    obtain ⟨rfl, rfl⟩ := hlast
    exact ⟨text, htext, fun e he => iff_of_false (not_rightLine_of_entriesOf hes₀ he) fun h => hstyle h.1⟩

lemma documentFile_startLine (h : Gives (documentFile r path) t (some es) t') :
    ∃ content', t'.readText path = .ok content' ∧ ∀ e ∈ es, RightLine path content' e ↔
      r.readOnly = false ∧ (r.style == .str "doxygen") ∧ Sighted path content' e := by
  cases hread : r.readOnly with
  | true =>
    obtain ⟨_, hdocumented, heq, rfl⟩ := documentFile_reads hread h
    cases heq
    obtain ⟨content, htext, hes⟩ := ok_of_bind_ok hdocumented
    exact ⟨content, htext, fun e he => iff_of_false (not_rightLine_of_entriesOf hes he) fun h => Bool.noConfusion h.1⟩
  | false =>
    -- a backup may have changed the tree before, but not what rewriting the file reports
    obtain ⟨kept, mid, -, hrest⟩ := documentFile_writes hread h
    split at hrest
    · simpa using rewriteFile_startLine hrest
    · cases hrest.1

lemma documentFile_of_generate {arguments : Value} (hrequest : Request.ofArguments arguments = .ok r)
    (h : (generate arguments [path]).run.run t = (.ok (.documented es), t')) : Gives (documentFile r path) t (some es) t' := by
  obtain ⟨es₁, es₂, mid, hfile, hnone, rfl⟩ := documentFiles_documented (generate_gives hrequest h)
  obtain ⟨heq, rfl⟩ := gives_pure hnone
  cases heq
  rwa [append_nil]

/-- The documentation that a function `f` of `eitherCase` gets. -/
def eitherDoc : Text := "/**\n * @brief f -->> TODO: Add your description here\n * @param x TODO\n * @return TODO\n */"

/-- The text `eitherCase` with documentation. -/
def eitherDocumented : Text :=
  "#if A\n\n".toList ++ eitherDoc ++ "\nint f(int x) \x7b\n\x7d /* f() */\n#else\n\n\n" ++ eitherDoc ++
    "\nint f(int x) \x7b\n\x7d /* f() */\n#endif\n"

/-- The function with a number on a line of `eitherDocumented`. -/
def eitherFunction (line count : Nat) : Function :=
  ⟨"f", "int", "int x", false, eitherDoc, true, "a.cpp", line, count, false, none⟩

end Run

end FunctionDocs
