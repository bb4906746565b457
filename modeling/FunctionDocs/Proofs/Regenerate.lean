import FunctionDocs.Proofs.ParamLines

/-!
# Composing a comment again

A composed comment stands above its function when a comment is composed for it the next time, and is then read back. If what
it says is read as it was written, only the lines of the parameters can change from one time to the next: what is left of hints
that cannot be taken off is added to their descriptions each time. So the comment stays as it is exactly when all hints that
count can be taken off.
-/

open List

namespace FunctionDocs.DocBlock

open Text

variable {ps : List Text} {ns : Notes} {p : Parts} {f : Source.Function} {name q : Text} {α : Type} {xs : List α} {l last : Text}
  {ls init : List Text} {notes : List (List Text)} {said : Text → List Text × Text} {a b : α → Text}

/-! ## Sections of a comment -/

def again (f : Source.Function) (comment : Text) : Source.Function := { f with comment := comment, isDoxygen := true }

def partsOf (ps : List Text) : Parts := (readAll ({}, .none) (ps.flatMap rowsOf)).1

def tparamLines (f : Source.Function) (tparams : Notes) : List Text :=
  (tparamsOf (Entry.ofFunction f) (tparams.map fun n => (n.1, layOut margin n.2))).map tparamLine

def front (f : Source.Function) (p : Parts) : List Text :=
  (" * @brief " ++ layOut margin p.brief) :: tparamLines f p.tparams

def middle (f : Source.Function) (p : Parts) : List Text :=
  (documented f.params).map (paramLine (p.params.map fun n => (n.1, layOut margin n.2)))

def back (f : Source.Function) (p : Parts) : List Text :=
  resultParagraph f.returnType (layOut resultMargin p.result) ++ notesParagraph (unlines (p.notes.map (layOut margin))) ++
    p.others.flatMap otherLines

lemma paragraphs_again (hfed : ∀ p ∈ ps, Fed p) (hbrief : layOut margin (partsOf ps).brief ≠ []) :
    paragraphs (.ofFunction (again f (block ps))) = front f (partsOf ps) ++ middle f (partsOf ps) ++ back f (partsOf ps) := by
  have hread : .ofLines (bodyLines (block ps)) = partsOf ps := ofLines_block hfed
  have hsaid : saidOf (.ofFunction (again f (block ps))) = (partsOf ps).texts := by
    have hform : saidOf (.ofFunction (again f (block ps))) = saidBy f.name (trim (block ps)) true := rfl
    have hne : ¬(block ps).isEmpty := by
      rw [block]
      simp
    rw [hform, trim_block, saidBy, if_neg hne, if_pos rfl]
    have hparts : partsOfDoxygen (block ps) = (partsOf ps).texts := by rw [← hread]; rfl
    rw [hparts, if_neg (by simpa [Parts.texts] using hbrief)]
  have hwhole : paragraphs (.ofFunction (again f (block ps))) =
      (" * @brief " ++ (partsOf ps).texts.brief) ::
        (tparamsOf (.ofFunction f) (partsOf ps).texts.tparams).map tparamLine ++
        paramLines (partsOf ps).texts.params f.params ++ resultParagraph f.returnType (partsOf ps).texts.result ++
        notesParagraph (partsOf ps).texts.notes ++ (partsOf ps).texts.others.flatMap otherLines := by
    rw [paragraphs, hsaid]
    rfl
  rw [hwhole, paramLines_eq]
  simp only [front, middle, back, tparamLines, Parts.texts, append_assoc]

/-! ## The description -/

lemma brief_read (p : Parts) (part : Part) (l : Text) : p.brief <+: (p.read part l).1.brief := by
  have hcontinue : p.brief <+: (p.continueWith part l).brief := by
    cases part with
    | brief => exact prefix_append _ _
    | _ => exact prefix_refl _
  simp only [Parts.read]
  repeat' split
  all_goals first
    | exact prefix_append _ _
    | exact prefix_refl _
    | exact hcontinue

lemma brief_readAll (s : Parts × Part) (rows : List Text) : s.1.brief <+: (readAll s rows).1.brief := by
  induction rows generalizing s with
  | nil => exact prefix_refl _
  | cons l rows ih => exact (brief_read s.1 s.2 l).trans (ih _)

lemma saidBy_brief_head (name comment : Text) (isDoxygen : Bool) :
    ∃ c t, (saidBy name comment isDoxygen).brief = c :: t ∧ isBlank c = false := by
  have hbrief : ∀ s : Texts, (∀ c t, s.brief = c :: t → isBlank c = false) →
      ∃ c t, (if s.brief.isEmpty then { s with brief := todoDescription name } else s).brief = c :: t ∧ isBlank c = false := by
    intro s hs
    split
    · exact ⟨'T', _, rfl, by decide⟩
    next hne =>
      obtain ⟨c, t, hct⟩ := exists_cons_of_ne_nil (by simpa using hne : s.brief ≠ [])
      exact ⟨c, t, hct, hs c t hct⟩
  apply hbrief
  split
  · simp
  · split
    · intro c t hct
      exact (trimmed_layOut _ _).head c (by rw [← head?_cons, ← hct]; rfl)
    · intro c t hct
      -- The first line of a plain comment has lost all white space at its start.
      have hframe : ∀ l ∈ plainLines comment, ∃ d u, l = d :: u ∧ isBlank d = false := by
        intro l hl
        obtain ⟨hl, hne⟩ := mem_filter.mp hl
        obtain ⟨m, -, rfl⟩ := mem_map.mp hl
        obtain ⟨d, u, hdu⟩ := exists_cons_of_ne_nil (by simpa using hne : (trim m).dropWhile isFrame ≠ [])
        have hd := head?_dropWhile_not isFrame (trim m)
        rw [hdu] at hd
        refine ⟨d, u, hdu, ?_⟩
        simp only [isFrame, Bool.or_eq_false_iff] at hd
        exact hd.2
      cases hlines : plainLines comment with
      | nil =>
        rw [hlines] at hct
        cases hct
      | cons l ls =>
        obtain ⟨d, u, rfl, hd⟩ := hframe l (by rw [hlines]; exact mem_cons_self)
        have hhead : (joinWith "\n * " ((d :: u) :: ls)).head? = some d := by cases ls <;> rfl
        rw [hlines] at hct
        have hct : joinWith "\n * " ((d :: u) :: ls) = c :: t := hct
        rw [hct] at hhead
        cases hhead
        exact hd

lemma brief_partsOf (e : Entry) : ∃ l ls, (partsOf (paragraphs e)).brief = l :: ls ∧ l ≠ [] := by
  obtain ⟨c, t, hct, hc⟩ := saidBy_brief_head (e.name.getD []) (trim (e.comment.getD [])) (e.isDoxygen.getD false)
  have hfeed : c ≠ '\n' := by
    rintro rfl
    exact absurd hc (by decide)
  obtain ⟨first, more, hpieces⟩ : ∃ first more, rowsOf (" * @brief ".toList ++ c :: t) =
      readRow (" * @brief ".toList ++ c :: first) :: more := by
    have hnone : ∀ {a : Text}, '\n' ∉ a → '\n' ∉ " * @brief ".toList ++ c :: a := by
      intro a ha
      simp only [mem_append, mem_cons, not_or]
      exact ⟨by decide, hfeed.symm, ha⟩
    rcases not_mem_or_split '\n' t with h | ⟨a, b, rfl, ha⟩
    · exact ⟨t, [], by rw [rowsOf, splitOnChar_of_not_mem (hnone h)]; rfl⟩
    · refine ⟨a, rowsOf b, ?_⟩
      have hsplit : " * @brief ".toList ++ c :: (a ++ '\n' :: b) = (" * @brief ".toList ++ c :: a) ++ '\n' :: b := by simp
      rw [hsplit, rowsOf_append_feed, rowsOf, splitOnChar_of_not_mem (hnone ha)]
      rfl
  have htrim : trim (c :: first) ≠ [] := by
    intro hnil
    have hblank := isBlankLine_iff.mp (trim_eq_nil_iff.mp hnil) c mem_cons_self
    rw [hc] at hblank
    cases hblank
  have hrow : readRow (" * @brief ".toList ++ c :: first) = "@brief " ++ trim (c :: first) := by
    have hform : " * @brief ".toList ++ c :: first = ' ' :: '*' :: ([' '] ++ ("@brief ".toList ++ c :: first)) := rfl
    have hsolid : isBlankLine (c :: first) = false := by simp [isBlankLine, hc]
    rw [hform, readRow_star _ rfl (by simp), trim_eq_trimRight (by rintro c ⟨⟩; decide), trimRight_append_of_not_blank hsolid,
      trim_eq_trimRight (by rintro d ⟨⟩; exact hc)]
  have hstart : ∃ rest, (paragraphs e).flatMap rowsOf = ("@brief " ++ trim (c :: first)) :: rest := by
    have hparagraphs : ∃ rest, paragraphs e = (" * @brief ".toList ++ (saidOf e).brief) :: rest := ⟨_, rfl⟩
    obtain ⟨rest, hrest⟩ := hparagraphs
    have hbrief : (saidOf e).brief = c :: t := hct
    exact ⟨more ++ rest.flatMap rowsOf, by rw [hrest, hbrief, flatMap_cons, hpieces, hrow, cons_append]⟩
  obtain ⟨rest, hrest⟩ := hstart
  have hread : readAll ({}, .none) ["@brief " ++ trim (c :: first)] = _ := readAll_brief (trimmed_trim _) (by simp)
  have hgrows := brief_readAll (readAll ({}, .none) ["@brief " ++ trim (c :: first)]) rest
  rw [← readAll_append, hread] at hgrows
  obtain ⟨more, hmore⟩ := hgrows
  refine ⟨trim (c :: first), more, ?_, htrim⟩
  rw [partsOf, hrest]
  exact hmore.symm

/-! ## Reading sections back -/

/-- Rows that change one list of notes only change it in turn. -/
lemma readAll_flatMap {rows : α → List Text} {F : Notes → Parts} {step : Notes → α → Notes}
    (h : ∀ x ∈ xs, ∀ ms part, ∃ part', readAll (F ms, part) (rows x) = (F (step ms x), part')) (ms : Notes) (part : Part) :
    ∃ part', readAll (F ms, part) (xs.flatMap rows) = (F (xs.foldl step ms), part') := by
  induction xs generalizing ms part with
  | nil => exact ⟨part, rfl⟩
  | cons x xs ih =>
    obtain ⟨hx, hxs⟩ := forall_mem_cons.mp h
    obtain ⟨part₁, hfirst⟩ := hx ms part
    obtain ⟨part₂, hrest⟩ := ih hxs (step ms x) part₁
    exact ⟨part₂, by rw [flatMap_cons, readAll_append, hfirst, hrest, foldl_cons]⟩

lemma linesOf_fresh (h : name ∉ ns.map (·.1)) : linesOf name ns = [] := by
  have hfind : ns.find? (·.1 == name) = none := by
    rw [find?_eq_none]
    intro n hn hname
    exact h (mem_map.mpr ⟨n, hn, by simpa using hname⟩)
  rw [linesOf, hfind]
  rfl

lemma foldl_fresh {key : α → Text} {val : α → List Text} {F : Notes → α → Notes}
    (hF : ∀ ms x, key x ∉ ms.map (·.1) → F ms x = ms ++ [(key x, val x)]) {xs : List α} (hkeys : (xs.map key).Nodup)
    {ms : Notes} (hms : ∀ x ∈ xs, key x ∉ ms.map (·.1)) : xs.foldl F ms = ms ++ xs.map fun x => (key x, val x) := by
  induction xs generalizing ms with
  | nil => simp
  | cons x xs ih =>
    rw [map_cons, nodup_cons] at hkeys
    obtain ⟨hx, hxs⟩ := forall_mem_cons.mp hms
    rw [foldl_cons, hF ms x hx, ih hkeys.2, append_assoc]
    · rfl
    · intro y hy hmem
      rw [map_append, mem_append, map_singleton, mem_singleton] at hmem
      rcases hmem with hmem | hmem
      · exact hxs y hy hmem
      · exact hkeys.1 (mem_map.mpr ⟨y, hy, hmem⟩)

/-! ### Template parameters -/

/-- The lines of a template parameter, with the mark of an open place if there are none. -/
def filled (n : Text × List Text) : List Text := if n.2.isEmpty then [todo] else n.2

lemma row_todo : Row todo := ⟨by decide, ⟨by decide, by decide⟩⟩

lemma tparamLine_filled (n : Text × List Text) :
    tparamLine (n.1, layOut margin (filled n)) = tparamLine (n.1, layOut margin n.2) := by
  rw [filled]
  split
  next hnil =>
    rw [List.isEmpty_iff] at hnil
    rw [hnil, layOut_singleton row_todo]
    rfl
  · rfl

lemma layOut_ne_nil {m : Text} (hrows : ∀ r ∈ l :: ls, Row r) (hne : l ≠ []) : layOut m (l :: ls) ≠ [] := by
  rw [layOut_eq hrows hne]
  intro hnil
  obtain ⟨r, hr, hsplit⟩ := trimRight_split (l ++ below (ls.map (m ++ ·)))
  rw [hnil, nil_append] at hsplit
  rw [← hsplit, isBlankLine_append, isBlankLine_row (hrows l mem_cons_self) hne] at hr
  cases hr.1

lemma unmarked_tagged {tag : Text} (htag : ∀ c ∈ ['–', '('], c ∉ tag)
    (hmarks : ∀ r ∈ l :: ls, Unmarked r) : Unmarked (tag ++ (l ++ below (ls.map (margin ++ ·)))) := by
  have hline : ∀ {c : Char} {m : Text}, c ∈ ['–', '('] → '\n' ∉ c :: m →
      c :: m <:+: tag ++ (l ++ below (ls.map (margin ++ ·))) → ∃ r ∈ l :: ls, c :: m <:+: r := by
    intro c m hc hfeed h
    have h := infix_of_head_not_mem (htag c hc) h
    have hmargin : c ∉ margin := by
      intro hmem
      have hnone : ∀ c ∈ ['–', '('], c ∉ margin := by decide
      exact hnone c hc hmem
    rcases (infix_below_iff hfeed _).mp (h.trans (prefix_append _ ('\n' :: [])).isInfix) with h | ⟨p, hp, h⟩ | h
    · exact ⟨l, mem_cons_self, h⟩
    · obtain ⟨r, hr, rfl⟩ := mem_map.mp hp
      exact ⟨r, mem_cons_of_mem _ hr, infix_of_head_not_mem hmargin h⟩
    · exact absurd h (by simp)
  constructor
  · intro h
    obtain ⟨r, hr, hm⟩ := hline (by decide) (by decide) h
    exact (hmarks r hr).default hm
  · intro h
    obtain ⟨r, hr, hm⟩ := hline (by decide) (by decide) h
    exact (hmarks r hr).pointer hm

lemma readAll_tparamLine {n : Text × List Text} (hn : Word n.1) (hrows : ∀ l ∈ n.2, Row l) (htagless : ∀ l ∈ n.2, Tagless l)
    (hmarks : ∀ l ∈ n.2, Unmarked l) (hbegun : n.2.head? ≠ some []) (p : Parts) (part : Part) :
    ∃ part', readAll (p, part) (rowsOf (tparamLine (n.1, layOut margin n.2))) =
      ({ p with tparams := setLines n.1 (filled n) p.tparams }, part') := by
  obtain ⟨l, ls, hls, hgood⟩ : ∃ l ls, filled n = l :: ls ∧ (∀ r ∈ l :: ls, Row r ∧ Tagless r ∧ Unmarked r) ∧ l ≠ [] := by
    rw [filled]
    obtain ⟨name, rows⟩ := n
    cases rows with
    | nil =>
      have htodo : Unmarked todo := ⟨by decide, by decide⟩
      exact ⟨todo, [], rfl, by simpa using ⟨row_todo, rfl, htodo⟩, by decide⟩
    | cons l ls =>
      exact ⟨l, ls, rfl, fun r hr => ⟨hrows r hr, htagless r hr, hmarks r hr⟩, fun hnil => hbegun (by rw [hnil]; rfl)⟩
  obtain ⟨hgood, hne⟩ := hgood
  have hrow := fun r hr => (hgood r hr).1
  have htext : layOut margin (l :: ls) ≠ [] := layOut_ne_nil hrow hne
  have hline : tparamLine (n.1, layOut margin n.2) = " * @tparam " ++ n.1 ++ " " ++ layOut margin (l :: ls) := by
    have hclosed : Closed (" * @tparam ".toList ++ n.1 ++ " ".toList ++ layOut margin (l :: ls)) :=
      closed_append htext (trimmed_layOut _ _).last
    have hunmarked : Unmarked (" * @tparam ".toList ++ n.1 ++ " ".toList ++ layOut margin (l :: ls)) := by
      have htag : ∀ c ∈ ['–', '('], c ∉ " * @tparam ".toList ++ n.1 ++ " ".toList := by
        have hnone : ∀ c ∈ ['–', '('], c ∉ " * @tparam ".toList ∧ isWordChar c = false ∧ c ∉ " ".toList := by decide +kernel
        intro c hc
        obtain ⟨hbefore, hword, hbehind⟩ := hnone c hc
        have hname : c ∉ n.1 := fun hmem => by rw [hn.chars c hmem] at hword; cases hword
        simp only [mem_append, not_or]
        exact ⟨⟨hbefore, hname⟩, hbehind⟩
      refine (unmarked_tagged htag fun r hr => (hgood r hr).2.2).of_part ?_
      rw [layOut_eq hrow hne]
      obtain ⟨r, -, hsplit⟩ := trimRight_split (l ++ below (ls.map (margin ++ ·)))
      nth_rewrite 2 [hsplit]
      rw [← append_assoc]
      exact (prefix_append _ _).isInfix
    rw [← tparamLine_filled, hls, tparamLine]
    dsimp only
    rw [(trimmed_layOut _ _).trim_eq, if_neg (by simpa using htext)]
    exact (hunmarked.kept hclosed).dropHints_eq
  have htag : Flat (" * @tparam ".toList ++ n.1 ++ " ".toList) :=
    ((by decide : Flat " * @tparam ".toList).append hn.flat).append (by decide)
  have hfirst : readRow (" * @tparam ".toList ++ n.1 ++ " ".toList ++ l) = "@tparam" ++ ([' '] ++ (n.1 ++ ' ' :: l)) := by
    have hclosed : Closed (n.1 ++ ' ' :: l) :=
      closed_append (by simp) (closed_append (t := [' ']) hne (hrow l mem_cons_self).trimmed.last)
    rw [append_assoc, append_assoc]
    exact readRow_tag "@tparam" (by decide) (by decide) (by simp) hclosed
  have hbelow : ∀ x ∈ ls, Tagless x := fun x hx => (hgood x (mem_cons_of_mem _ hx)).2.1
  refine ⟨.tparam n.1, ?_⟩
  rw [hline, rowsOf_tagged isMargin_margin htag hrow hne, hfirst, readAll_tparam hn (hrow l mem_cons_self) hne hbelow, hls]

/-! ### Result, notes and other tags -/

/-- The lines of a result as they are written: none if the function returns nothing, and an open place if nothing is said. -/
def shownResult (returnType : Text) (rows : List Text) : List Text :=
  if contains returnType "void" || returnType.isEmpty then [] else if rows.isEmpty then [todo] else rows

lemma resultParagraph_shown (returnType : Text) (rows : List Text) :
    resultParagraph returnType (layOut resultMargin (shownResult returnType rows)) =
      resultParagraph returnType (layOut resultMargin rows) := by
  rw [resultParagraph, resultParagraph, shownResult]
  split
  · rfl
  · cases rows <;> rfl

lemma readAll_resultParagraph (returnType : Text) {rows : List Text} (hrows : ∀ l ∈ rows, Row l)
    (htagless : ∀ l ∈ rows, Tagless l) (hreturns : ∀ l ∈ rows, contains l "@returns" = false)
    (hbegun : rows.head? ≠ some []) (p : Parts) (part : Part) (hp : p.result = []) :
    ∃ part', readAll (p, part) ((resultParagraph returnType (layOut resultMargin rows)).flatMap rowsOf) =
      ({ p with result := shownResult returnType rows }, part') := by
  rw [resultParagraph, shownResult]
  split
  · have hsame : { p with result := [] } = p := by cases p; cases hp; rfl
    exact ⟨part, by rw [hsame]; rfl⟩
  · obtain ⟨l, ls, hls, hgood, hne⟩ : ∃ l ls, (if rows.isEmpty then [todo] else rows) = l :: ls ∧
        (∀ r ∈ l :: ls, Row r ∧ Tagless r ∧ contains r "@returns" = false) ∧ l ≠ [] := by
      cases rows with
      | nil => exact ⟨todo, [], rfl, by simpa using ⟨row_todo, rfl, by decide⟩, by decide⟩
      | cons l ls =>
        exact ⟨l, ls, rfl, fun r hr => ⟨hrows r hr, htagless r hr, hreturns r hr⟩, fun hnil => hbegun (by rw [hnil]; rfl)⟩
    have hrow := fun r hr => (hgood r hr).1
    have htext : (if (layOut resultMargin rows).isEmpty then todo else layOut resultMargin rows) =
        layOut resultMargin (l :: ls) := by
      rw [← hls]
      cases rows with
      | nil => exact (layOut_singleton row_todo).symm
      | cons r rs =>
        have hr : r ≠ [] := fun hnil => hbegun (by rw [hnil]; rfl)
        rw [if_neg (by simpa using layOut_ne_nil hrows hr)]
        rfl
    have hfirst : readRow (" * @return ".toList ++ l) = "@return ".toList ++ l :=
      readRow_tag "@return" (by decide) (by decide) hne (hrow l mem_cons_self).trimmed.last
    have hbelow : ∀ x ∈ ls, Tagless x := fun x hx => (hgood x (mem_cons_of_mem _ hx)).2.1
    refine ⟨.result, ?_⟩
    rw [hls, htext, flatMap_singleton, rowsOf_tagged isMargin_resultMargin (by decide) hrow hne, hfirst,
      readAll_result (hrow l mem_cons_self) hne (hgood l mem_cons_self).2.2 hbelow, hp]
    rfl

lemma unlines_singleton (t : Text) : unlines [t] = t := rfl

lemma readAll_notesParagraph (hrows : ∀ n ∈ notes, ∀ l ∈ n, Row l)
    (htagless : ∀ n ∈ notes, ∀ l ∈ n, Tagless l) (hbegun : ∀ n ∈ notes, n.head? ≠ some []) (hone : notes.length ≤ 1)
    (p : Parts) (part : Part) (hp : p.notes = []) :
    ∃ part', readAll (p, part) ((notesParagraph (unlines (notes.map (layOut margin)))).flatMap rowsOf) =
      ({ p with notes := notes.filter (!·.isEmpty) }, part') := by
  have hsame : { p with notes := [] } = p := by cases p; cases hp; rfl
  match notes with
  | [] => exact ⟨part, by rw [filter_nil, hsame]; rfl⟩
  | [[]] => exact ⟨part, by rw [filter_cons_of_neg (by simp), filter_nil, hsame]; rfl⟩
  | [l :: ls] =>
    have hrow := hrows _ mem_cons_self
    have hne : l ≠ [] := fun hnil => hbegun _ mem_cons_self (by rw [hnil]; rfl)
    have htext : notesParagraph (unlines ([l :: ls].map (layOut margin))) = [" * @note ".toList ++ layOut margin (l :: ls)] := by
      rw [map_singleton, unlines_singleton, notesParagraph, (trimmed_layOut _ _).trim_eq,
        if_neg (by simpa using layOut_ne_nil hrow hne)]
    have hfirst : readRow (" * @note ".toList ++ l) = "@note ".toList ++ l :=
      readRow_tag "@note" (by decide) (by decide) hne (hrow l mem_cons_self).trimmed.last
    have hbelow : ∀ x ∈ ls, Tagless x := fun x hx => htagless _ mem_cons_self x (mem_cons_of_mem _ hx)
    refine ⟨.note, ?_⟩
    rw [htext, flatMap_singleton, rowsOf_tagged isMargin_margin (by decide) hrow hne, hfirst,
      readAll_note (hrow l mem_cons_self) hne hbelow, hp]
    rfl
  | _ :: _ :: _ => simp at hone

lemma notesParagraph_filter (hone : notes.length ≤ 1) :
    notesParagraph (unlines ((notes.filter (!·.isEmpty)).map (layOut margin))) =
      notesParagraph (unlines (notes.map (layOut margin))) := by
  match notes with
  | [] => rfl
  | [[]] => rfl
  | [l :: ls] => rfl
  | _ :: _ :: _ => simp at hone

lemma otherLines_filter (ns : Notes) : (ns.filter (!·.2.isEmpty)).flatMap otherLines = ns.flatMap otherLines := by
  induction ns with
  | nil => rfl
  | cons n ns ih =>
    obtain ⟨tag, rows⟩ := n
    cases rows with
    | nil => exact ih
    | cons l ls => rw [filter_cons_of_pos (by simp), flatMap_cons, flatMap_cons, ih]

lemma readAll_otherLines {n : Text × List Text} (htag : OtherTag n.1) (hne : n.2 ≠ []) (hrows : ∀ l ∈ n.2, Row l)
    (htagless : ∀ l ∈ n.2, Tagless l) (p : Parts) (part : Part) :
    ∃ part', readAll (p, part) ((otherLines n).flatMap rowsOf) =
      ({ p with others := setLines n.1 (linesOf n.1 p.others ++ n.2) p.others }, part') := by
  obtain ⟨tag, rows⟩ := n
  cases rows with
  | nil => exact absurd rfl hne
  | cons l ls =>
    obtain ⟨hl, hls⟩ := forall_mem_cons.mp hrows
    obtain ⟨-, hbelow⟩ := forall_mem_cons.mp htagless
    have hmap : ls.map (fun l => margin ++ trim l) = ls.map (margin ++ ·) :=
      map_congr_left fun r hr => by rw [(hls r hr).trimmed.trim_eq]
    have hmargins : (ls.map (margin ++ ·)).flatMap rowsOf = ls := by
      rw [flatMap_map, flatMap_congr, flatMap_singleton']
      intro r hr
      rw [rowsOf_flat (flat_margin.append (hls r hr).flat), isMargin_margin.readRow (hls r hr).trimmed]
    have hform : " * @" ++ tag ++ " " ++ trim l = ' ' :: '*' :: ([' '] ++ ('@' :: (tag ++ ' ' :: l))) := by
      rw [hl.trimmed.trim_eq, append_assoc]
      rfl
    have hflat : Flat (" * @" ++ tag ++ " " ++ trim l) :=
      (((by decide : Flat " * @").append htag.word.flat).append (by decide)).append (row_trim hl.flat).flat
    have hlines : otherLines (tag, l :: ls) = (" * @" ++ tag ++ " " ++ trim l) :: ls.map fun l => margin ++ trim l := rfl
    refine ⟨.other tag, ?_⟩
    rw [hlines, hmap, flatMap_cons, hmargins, rowsOf_flat hflat, hform, readRow_star _ rfl (by simp),
      singleton_append, readAll_other htag hl hbelow]

/-! ## What is written is read back -/

def Parts.descriptions (p : Parts) : List (List Text) :=
  p.brief :: p.result :: (p.notes ++ p.params.map (·.2) ++ p.tparams.map (·.2))

/-- A parameter of a list behind which none of its name stands. -/
def LastOf (ps : List Text) (q : Text) : Prop :=
  ∃ before after, ps = before ++ q :: after ∧ ∀ p ∈ after, paramName p ≠ paramName q

/-- What a comment says of a parameter are lines without the words of hints, and the hints of the parameter behind the last of
them, or alone on a line if they can be taken off. -/
def SaidWithHints (p : Parts) (q : Text) : Prop :=
  ∃ init last, (paramName q, ended init last (hints q)) ∈ p.params ∧ (∀ l ∈ init ++ [last], Row l ∧ Unmarked l) ∧
    (last = [] → Removable q)

/-- Parts of the comment of a function that are read back as they are written: no line begins with a tag, no description with
an empty line, the words of hints stand only in the hints, and there is one note at most. -/
structure Plain (f : Source.Function) (p : Parts) : Prop where
  name : Flat f.name
  params : Flat f.params
  unmarked : Unmarked f.params
  named : ∀ q ∈ documented f.params, paramName q ≠ todo
  tagless : ∀ ls ∈ p.descriptions ++ p.others.map (·.2), ∀ l ∈ ls, Tagless l
  begun : ∀ ls ∈ p.descriptions, ls.head? ≠ some []
  returns : ∀ l ∈ p.result, contains l "@returns" = false
  note : p.notes.length ≤ 1
  tparams : ∀ n ∈ p.tparams, ∀ l ∈ n.2, Unmarked l
  opens : p.tparams = [] → tparamsOf (Entry.ofFunction f) [] = []
  said : ∀ q, LastOf (documented f.params) q → paramName q ≠ [] → SaidWithHints p q

lemma tparamLines_of_ne_nil (h : ns ≠ []) (f : Source.Function) :
    tparamLines f ns = ns.map fun n => tparamLine (n.1, layOut margin n.2) := by
  rw [tparamLines, tparamsOf, if_pos (by simpa using h), map_map, Function.comp_def]

lemma tparamLines_eq (h : Plain f p) : tparamLines f p.tparams = p.tparams.map fun n => tparamLine (n.1, layOut margin n.2) := by
  by_cases hnil : p.tparams = []
  · rw [hnil, tparamLines, map_nil, h.opens hnil]
    rfl
  · exact tparamLines_of_ne_nil hnil f

lemma readAll_front (h : Plain f p) (hclean : p.Clean) (hbrief : p.brief ≠ []) :
    ∃ part, readAll ({}, .none) ((front f p).flatMap rowsOf) =
      ({ brief := p.brief, tparams := p.tparams.map fun n => (n.1, filled n) }, part) := by
  obtain ⟨l, ls, hls⟩ := exists_cons_of_ne_nil hbrief
  have hmem : p.brief ∈ p.descriptions := mem_cons_self
  have hne : l ≠ [] := fun hnil => h.begun _ hmem (by rw [hls, hnil]; rfl)
  have hrows : ∀ r ∈ l :: ls, Row r := hls ▸ hclean.brief
  have hbelow : ∀ x ∈ ls, Tagless x := fun x hx =>
    h.tagless _ (mem_append_left _ hmem) x (by rw [hls]; exact mem_cons_of_mem _ hx)
  have hfirst : readRow (" * @brief ".toList ++ l) = "@brief ".toList ++ l :=
    readRow_tag "@brief" (by decide) (by decide) hne (hrows l mem_cons_self).trimmed.last
  have hread : readAll ({}, .none) (rowsOf (" * @brief " ++ layOut margin p.brief)) = ({ brief := p.brief }, .brief) := by
    rw [hls, rowsOf_tagged isMargin_margin (by decide) hrows hne, hfirst, readAll_brief (hrows l mem_cons_self).trimmed hbelow]
    rfl
  have hstep : ∀ n ∈ p.tparams, ∀ (ms : Notes) (part : Part), ∃ part',
      readAll ({ brief := p.brief, tparams := ms }, part) (rowsOf (tparamLine (n.1, layOut margin n.2))) =
        ({ brief := p.brief, tparams := setLines n.1 (filled n) ms }, part') := by
    intro n hn ms
    obtain ⟨hword, hrows⟩ := hclean.tparams.rows n hn
    have hmem : n.2 ∈ p.descriptions := mem_cons_of_mem _ (mem_cons_of_mem _ (mem_append_right _ (mem_map.mpr ⟨n, hn, rfl⟩)))
    exact readAll_tparamLine hword hrows (h.tagless _ (mem_append_left _ hmem)) (h.tparams n hn) (h.begun _ hmem)
      { brief := p.brief, tparams := ms }
  obtain ⟨part, hrest⟩ := readAll_flatMap hstep [] .brief
  have hfresh : p.tparams.foldl (fun ms n => setLines n.1 (filled n) ms) [] = p.tparams.map fun n => (n.1, filled n) := by
    have hnew := @foldl_fresh _ (·.1) filled (fun ms n => setLines n.1 (filled n) ms) (fun ms n hn => setLines_of_not_mem hn _)
      p.tparams hclean.tparams.keys [] (by simp)
    simpa using hnew
  refine ⟨part, ?_⟩
  rw [front, flatMap_cons, readAll_append, hread, tparamLines_eq h, flatMap_map, hrest, hfresh]

lemma readAll_back (h : Plain f p) (hclean : p.Clean) (q : Parts) (part : Part)
    (hresult : q.result = []) (hnotes : q.notes = []) (hothers : q.others = []) :
    ∃ part', readAll (q, part) ((back f p).flatMap rowsOf) =
      ({ q with
          result := shownResult f.returnType p.result
          notes := p.notes.filter (!·.isEmpty)
          others := p.others.filter (!·.2.isEmpty) }, part') := by
  have hrmem : p.result ∈ p.descriptions := mem_cons_of_mem _ mem_cons_self
  have hnmem : ∀ n ∈ p.notes, n ∈ p.descriptions := fun n hn =>
    mem_cons_of_mem _ (mem_cons_of_mem _ (mem_append_left _ (mem_append_left _ hn)))
  obtain ⟨part₁, hread₁⟩ := readAll_resultParagraph f.returnType hclean.result
    (h.tagless _ (mem_append_left _ hrmem)) h.returns (h.begun _ hrmem) q part hresult
  obtain ⟨part₂, hread₂⟩ := readAll_notesParagraph hclean.notes
    (fun n hn => h.tagless _ (mem_append_left _ (hnmem n hn))) (fun n hn => h.begun _ (hnmem n hn)) h.note
    { q with result := shownResult f.returnType p.result } part₁ hnotes
  let shown : Notes → Parts := fun ms =>
    { q with result := shownResult f.returnType p.result, notes := p.notes.filter (!·.isEmpty), others := ms }
  have hstep : ∀ n ∈ p.others.filter (!·.2.isEmpty), ∀ (ms : Notes) (part : Part), ∃ part',
      readAll (shown ms, part) ((otherLines n).flatMap rowsOf) = (shown (setLines n.1 (linesOf n.1 ms ++ n.2) ms), part') := by
    intro n hn ms
    obtain ⟨hn, hne⟩ := mem_filter.mp hn
    obtain ⟨htag, hrows⟩ := hclean.others.rows n hn
    exact readAll_otherLines htag (by simpa using hne) hrows
      (h.tagless _ (mem_append_right _ (mem_map.mpr ⟨n, hn, rfl⟩))) (shown ms)
  obtain ⟨part₃, hread₃⟩ := readAll_flatMap hstep q.others part₂
  have hfresh : (p.others.filter (!·.2.isEmpty)).foldl (fun ms n => setLines n.1 (linesOf n.1 ms ++ n.2) ms) [] =
      p.others.filter (!·.2.isEmpty) := by
    have hkeys : ((p.others.filter (!·.2.isEmpty)).map (·.1)).Nodup := hclean.others.keys.sublist (filter_sublist.map _)
    have hnew := @foldl_fresh (Text × List Text) (·.1) (·.2) (fun ms n => setLines n.1 (linesOf n.1 ms ++ n.2) ms)
      (fun ms n hn => by rw [linesOf_fresh hn, nil_append, setLines_of_not_mem hn]) _ hkeys [] (by simp)
    simpa using hnew
  refine ⟨part₃, ?_⟩
  rw [back, flatMap_append, flatMap_append, readAll_append, readAll_append, hread₁, hread₂, ← otherLines_filter, flatMap_assoc]
  refine hread₃.trans ?_
  rw [hothers, hfresh]

def readBack (f : Source.Function) (p : Parts) (params : Notes) : Parts where
  brief := p.brief
  params := params
  tparams := p.tparams.map fun n => (n.1, filled n)
  result := shownResult f.returnType p.result
  notes := p.notes.filter (!·.isEmpty)
  others := p.others.filter (!·.2.isEmpty)

lemma front_readBack (f : Source.Function) (p : Parts) (params : Notes) : front f (readBack f p params) = front f p := by
  have htparams : tparamLines f (p.tparams.map fun n => (n.1, filled n)) = tparamLines f p.tparams := by
    by_cases hnil : p.tparams = []
    · rw [hnil]
      rfl
    · rw [tparamLines_of_ne_nil (by simpa using hnil), tparamLines_of_ne_nil hnil, map_map]
      refine map_congr_left fun n _ => ?_
      rw [Function.comp_apply]
      exact tparamLine_filled n
  rw [front, front, readBack, htparams]

lemma back_readBack (h : Plain f p) (params : Notes) : back f (readBack f p params) = back f p := by
  rw [back, back, readBack, resultParagraph_shown, notesParagraph_filter h.note, otherLines_filter]

lemma readAll_middle
    (h : Said p.texts.params said (documented f.params)) (q : Parts) (part : Part) :
    ∃ part', readAll (q, part) ((middle f p).flatMap rowsOf) =
      ({ q with params := (documented f.params).foldl (fun ns x => setLines (keyOf x) (linesRead said x) ns) q.params },
        part') := by
  have hstep : ∀ x ∈ documented f.params, ∀ (ms : Notes) (part : Part), ∃ part',
      readAll ({ q with params := ms }, part) (rowsOf (paramLine p.texts.params x)) =
        ({ q with params := setLines (keyOf x) (linesRead said x) ms }, part') :=
    fun x hx ms => readAll_paramLine h hx { q with params := ms }
  obtain ⟨part', hread⟩ := readAll_flatMap hstep q.params part
  exact ⟨part', by rw [middle, flatMap_map]; exact hread⟩

lemma partsOf_written (h : Plain f p) (hclean : p.Clean)
    (hbrief : p.brief ≠ []) (hsaid : Said p.texts.params said (documented f.params)) :
    partsOf (front f p ++ middle f p ++ back f p) =
      readBack f p ((documented f.params).foldl (fun ns x => setLines (keyOf x) (linesRead said x) ns) []) := by
  obtain ⟨part₁, hfront⟩ := readAll_front h hclean hbrief
  obtain ⟨part₂, hmiddle⟩ := readAll_middle hsaid { brief := p.brief, tparams := p.tparams.map fun n => (n.1, filled n) } part₁
  rw [partsOf, flatMap_append, flatMap_append, readAll_append, readAll_append, hfront, hmiddle]
  obtain ⟨part₃, hback⟩ := readAll_back h hclean
    { brief := p.brief, tparams := p.tparams.map fun n => (n.1, filled n)
      params := (documented f.params).foldl (fun ns x => setLines (keyOf x) (linesRead said x) ns) [] } part₂ rfl rfl rfl
  rw [hback]
  rfl

/-! ## The lines of the parameters grow by what is left of their hints -/

lemma exists_lastOf (h : ∃ p ∈ ps, paramName p = name) : ∃ q, LastOf ps q ∧ paramName q = name := by
  induction ps with
  | nil => simp at h
  | cons x xs ih =>
    by_cases hmem : ∃ p ∈ xs, paramName p = name
    · obtain ⟨q, ⟨before, after, rfl, hafter⟩, hname⟩ := ih hmem
      exact ⟨q, ⟨x :: before, after, rfl, hafter⟩, hname⟩
    · obtain ⟨p, hp, hname⟩ := h
      rcases mem_cons.mp hp with rfl | hp
      · exact ⟨p, ⟨[], xs, rfl, fun y hy heq => hmem ⟨y, hy, heq.trans hname⟩⟩, hname⟩
      · exact absurd ⟨p, hp, hname⟩ hmem

lemma LastOf.mem (h : LastOf ps q) : q ∈ ps := by
  obtain ⟨before, after, rfl, -⟩ := h
  simp

lemma LastOf.unique {q' : Text} (h : LastOf ps q) (h' : LastOf ps q') (hname : paramName q = paramName q') : q = q' := by
  obtain ⟨b, a, rfl, ha⟩ := h
  obtain ⟨b', a', heq, ha'⟩ := h'
  rcases append_eq_append_iff.mp heq with ⟨z, -, hz⟩ | ⟨z, -, hz⟩
  · cases z with
    | nil => exact (cons.inj hz).1
    | cons y z => exact absurd hname.symm (ha q' (by rw [(cons.inj hz).2]; simp))
  · cases z with
    | nil => exact (cons.inj hz).1.symm
    | cons y z => exact absurd hname (ha' q (by rw [(cons.inj hz).2]; simp))

/-- What is said of a name when a comment has been composed again: the description with what was left of its hints, and what
will be left of them the next time. -/
structure Settled (f : Source.Function) (p : Parts) (n : Text) (init : List Text) (last rest q : Text) : Prop where
  isLast : LastOf (documented f.params) q
  name : paramName q = n
  lines : Lines init last
  kept : Kept (paramText n init last)
  text : dropHints (paramTag n (' ' :: docText (p.params.map fun n => (n.1, layOut margin n.2)) n)) = paramText n init last
  rest_iff : rest = [] ↔ Removable q
  clean : ∀ b, Kept b → dropHints (b ++ hints q) = b ++ rest
  alone : last = [] → Removable q

lemma mem_descriptions_of_params {n : Text} {rows : List Text} (h : (n, rows) ∈ p.params) : rows ∈ p.descriptions :=
  mem_cons_of_mem _ (mem_cons_of_mem _ (mem_append_left _ (mem_append_right _ (mem_map.mpr ⟨(n, rows), h, rfl⟩))))

lemma lines_of_ended {h : Text} (hrows : ∀ l ∈ init ++ [last], Row l)
    (htagless : ∀ l ∈ ended init last h, Tagless l) (hbegun : (ended init last h).head? ≠ some []) : Lines init last := by
  refine ⟨hrows, forall_mem_append.mpr ⟨fun l hl => ?_, forall_mem_singleton.mpr ?_⟩, ?_⟩
  · cases init with
    | nil => cases hl
    | cons r rs => exact htagless l (mem_append_left _ hl)
  · cases last with
    | nil => rfl
    | cons c last => exact htagless (c :: last ++ h) (by simp [ended, lastRow])
  · cases init with
    | nil => simp
    | cons r rs => exact hbegun

lemma Lines.append {r : Text} (h : Lines init last) (hne : last ≠ []) (hr : Flat r)
    (hclosed : Closed r) : Lines init (last ++ r) := by
  obtain ⟨hinit, hlast⟩ := forall_mem_append.mp h.rows
  obtain ⟨htagless, hend⟩ := forall_mem_append.mp h.tagless
  have hlast := hlast last (by simp)
  have hrow : Row (last ++ r) := by
    refine ⟨hlast.flat.append hr, ⟨fun c hc => hlast.trimmed.head c ?_, fun c hc => ?_⟩⟩
    · rwa [head?_append_of_ne_nil _ hne] at hc
    · by_cases hnil : r = []
      · rw [hnil, append_nil] at hc
        exact hlast.trimmed.last c hc
      · rw [getLast?_append_of_ne_nil _ hnil] at hc
        exact hclosed c hc
  refine ⟨forall_mem_append.mpr ⟨hinit, forall_mem_singleton.mpr hrow⟩,
    forall_mem_append.mpr ⟨htagless, forall_mem_singleton.mpr ?_⟩, h.begun⟩
  exact (hend last (by simp)).append hne

lemma Plain.settled (h : Plain f p) (hclean : p.Clean) {x : Text} (hx : x ∈ documented f.params) (hname : paramName x ≠ []) :
    ∃ init last rest q, Settled f p (paramName x) init last rest q := by
  obtain ⟨q, hq, hqname⟩ := exists_lastOf ⟨x, hx, rfl⟩
  rw [← hqname] at hname ⊢
  obtain ⟨init, last, hmem, hrows, halone⟩ := h.said q hq hname
  have hword := word_paramName hname
  have hflat : Flat q := h.params.of_subset (mem_documented hq.mem).subset
  have hmarks : Unmarked q := h.unmarked.of_part (mem_documented hq.mem)
  obtain ⟨r, hkept, hjoint, hrest, hclean'⟩ := dropHints_hints hmarks
  have hdescription := mem_descriptions_of_params hmem
  have hlines : Lines init last :=
    lines_of_ended (fun l hl => (hrows l hl).1) (h.tagless _ (mem_append_left _ hdescription)) (h.begun _ hdescription)
  have htextKept := kept_paramText hword hlines fun l hl => (hrows l hl).2
  have htext := dropHints_ended hword hlines hflat hmarks htextKept hclean' hrest halone
  rw [← docText_of_find (find_of_mem hclean.params.keys hmem)] at htext
  by_cases hlast : last = []
  · rw [hrest.mpr (halone hlast), append_nil] at htext
    exact ⟨init, last, r, q, hq, rfl, hlines, htextKept, htext, hrest, hclean', halone⟩
  · have hrflat : Flat r := by
      have heq := hclean' [] kept_nil
      rw [nil_append, nil_append] at heq
      rw [← heq]
      exact (appendix_hints hflat).flat.of_subset (dropHints_subset _)
    have hmore := paramText_append (n := paramName q) init hlast r
    rw [hmore] at htext
    refine ⟨init, last ++ r, r, q, hq, rfl, hlines.append hlast hrflat hkept.closed, ?_, htext, hrest, hclean', ?_⟩
    · rw [← hmore]
      exact htextKept.append hkept hjoint
    · intro hnil
      exact absurd (append_eq_nil_iff.mp hnil).1 hlast

lemma length_below_grown {r : α → Text} (hgrow : ∀ x ∈ xs, (b x).length = (a x).length + (r x).length) :
    (below (xs.map b)).length = (below (xs.map a)).length + (xs.flatMap r).length := by
  induction xs with
  | nil => rfl
  | cons x xs ih =>
    obtain ⟨hx, hxs⟩ := forall_mem_cons.mp hgrow
    have hrest := ih hxs
    simp only [map_cons, below_cons, length_append, length_cons, flatMap_cons]
    omega

lemma eq_nil_of_below_eq {r : α → Text} (hgrow : ∀ x ∈ xs, (b x).length = (a x).length + (r x).length)
    (h : below (xs.map b) = below (xs.map a)) : ∀ x ∈ xs, r x = [] := by
  have hlength := length_below_grown hgrow
  rw [h, Nat.left_eq_add, length_eq_zero_iff, flatMap_eq_nil_iff] at hlength
  exact hlength

lemma middle_grows (h : Plain f p) (hclean : p.Clean) (hbrief : p.brief ≠ [])
    (hnext : (partsOf (front f p ++ middle f p ++ back f p)).Clean) :
    ∃ (rest : Text → Text) (params : Notes),
      partsOf (front f p ++ middle f p ++ back f p) = readBack f p params ∧ rest [] = [] ∧
      (∀ q, LastOf (documented f.params) q → paramName q ≠ [] → (rest (paramName q) = [] ↔ Removable q)) ∧
      ∀ x ∈ documented f.params, ∃ a, paramLine (p.params.map fun n => (n.1, layOut margin n.2)) x = a ++ hints x ∧
        paramLine (params.map fun n => (n.1, layOut margin n.2)) x = a ++ rest (paramName x) ++ hints x := by
  have hchoice : ∀ n : Text, ∃ d : (List Text × Text) × Text × Text, (∃ x ∈ documented f.params, paramName x = n) → n ≠ [] →
      Settled f p n d.1.1 d.1.2 d.2.1 d.2.2 := by
    intro n
    by_cases hn : (∃ x ∈ documented f.params, paramName x = n) ∧ n ≠ []
    · obtain ⟨⟨x, hx, rfl⟩, hne⟩ := hn
      obtain ⟨init, last, rest, q, hs⟩ := h.settled hclean hx hne
      exact ⟨((init, last), rest, q), fun _ _ => hs⟩
    · exact ⟨(([], []), [], []), fun hx hne => absurd ⟨hx, hne⟩ hn⟩
  choose d hd using hchoice
  have hsettled : ∀ x ∈ documented f.params, paramName x ≠ [] → Settled f p (paramName x) (d (paramName x)).1.1
      (d (paramName x)).1.2 (d (paramName x)).2.1 (d (paramName x)).2.2 :=
    fun x hx hne => hd (paramName x) ⟨x, hx, rfl⟩ hne
  have hflat : ∀ x ∈ documented f.params, Flat x := fun x hx => h.params.of_subset (mem_documented hx).subset
  have hunnamed := docText_of_not_mem (fun m hm => (hclean.params.rows m hm).1)
  have hsaid : Said p.texts.params (fun n => (d n).1) (documented f.params) :=
    ⟨hflat, hunnamed, fun x hx hne => (hsettled x hx hne).lines, fun x hx hne => (hsettled x hx hne).text⟩
  have hread := partsOf_written h hclean hbrief hsaid
  generalize hparams : (documented f.params).foldl (fun ns x => setLines (keyOf x) (linesRead (fun n => (d n).1) x) ns) [] =
    params at hread
  have hparamsClean : Notes.Clean (· ≠ []) params := by
    rw [hread] at hnext
    exact hnext.params
  obtain ⟨rest, hrestNil, hrest⟩ : ∃ rest : Text → Text, rest [] = [] ∧ ∀ n ≠ [], rest n = (d n).2.1 :=
    ⟨fun n => if n.isEmpty then [] else (d n).2.1, rfl, fun n hn => if_neg (by simpa using hn)⟩
  refine ⟨rest, params, hread, hrestNil, ?_, ?_⟩
  · intro q hq hne
    have hs := hsettled q hq.mem hne
    have hsame : (d (paramName q)).2.2 = q := hs.isLast.unique hq hs.name
    have hiff := hs.rest_iff
    rwa [hsame, ← hrest _ hne] at hiff
  · intro x hx
    by_cases hname : paramName x = []
    · refine ⟨" * @param  TODO".toList, paramLine_unnamed hunnamed hname, ?_⟩
      have hunnamed' := docText_of_not_mem (fun m hm => (hparamsClean.rows m hm).1)
      rw [paramLine_unnamed hunnamed' hname, hname, hrestNil, append_nil]
    · have hs := hsettled x hx hname
      generalize hinit : (d (paramName x)).1.1 = init at hs
      generalize hlast : (d (paramName x)).1.2 = last at hs
      rw [← hrest _ hname] at hs
      generalize (d (paramName x)).2.2 = q at hs
      -- The next comment has the lines of the last parameter of the name.
      have hfind : params.find? (·.1 == paramName x) = some (paramName x, ended init last (hints q)) := by
        obtain ⟨before, after, hsplit, hafter⟩ := hs.isLast
        have hkey : keyOf q = paramName x := by rw [keyOf, hs.name]; simp [hname]
        have hlines : linesRead (fun n => (d n).1) q = ended init last (hints q) := by
          rw [linesRead, hs.name, hinit, hlast]
          simp [hname]
        have hkeys : ∀ y ∈ after, keyOf y ≠ keyOf q := by
          intro y hy
          rw [hkey, keyOf]
          split
          · have hx' := h.named x hx
            exact fun heq => hx' heq.symm
          · rw [← hs.name]
            exact hafter y hy
        rw [← hparams, hsplit, ← hkey, find_foldl_setLines hkeys, hlines]
      have hq : q ∈ documented f.params := hs.isLast.mem
      have hmarks : Unmarked q := h.unmarked.of_part (mem_documented hq)
      have htext := dropHints_ended (word_paramName hname) hs.lines (hflat q hq) hmarks hs.kept hs.clean hs.rest_iff hs.alone
      rw [← docText_of_find hfind] at htext
      refine ⟨paramText (paramName x) init last, by rw [paramLine, hs.text], ?_⟩
      rw [paramLine, htext]

/-- A comment that is read back as it was written is composed the third time as the second time exactly when the hints of each
named parameter, of those with one name the last, can be taken off again. -/
theorem compose_again_eq_iff {f : Source.Function} {g₁ : Text} (h₁ : compose (Entry.ofFunction f) = .ok g₁)
    (hplain : Plain f (Parts.ofLines (bodyLines g₁))) :
    ∃ g₂ g₃, compose (Entry.ofFunction (again f g₁)) = .ok g₂ ∧ compose (Entry.ofFunction (again f g₂)) = .ok g₃ ∧
      (g₃ = g₂ ↔ ∀ q, LastOf (documented f.params) q → paramName q ≠ [] → Removable q) := by
  have hfed : ∀ c, ∀ t ∈ paragraphs (Entry.ofFunction (again f c)), Fed t := fun c t ht =>
    (mem_paragraphs (e := Entry.ofFunction (again f c)) ⟨hplain.name, hplain.params⟩ t ht).1.fed
  have hfed₁ : ∀ t ∈ paragraphs (Entry.ofFunction f), Fed t := fun t ht =>
    (mem_paragraphs (e := Entry.ofFunction f) ⟨hplain.name, hplain.params⟩ t ht).1.fed
  have hclean : ∀ {ps : List Text}, (∀ p ∈ ps, Fed p) → (partsOf ps).Clean := by
    intro ps hps
    rw [partsOf, ← ofLines_block hps]
    exact Parts.clean_ofLines (flat_bodyLines _)
  rw [compose_ofFunction] at h₁
  obtain rfl := Except.ok.inj h₁
  have hread₁ : Parts.ofLines (bodyLines (block (paragraphs (Entry.ofFunction f)))) = partsOf (paragraphs (Entry.ofFunction f)) :=
    ofLines_block hfed₁
  rw [hread₁] at hplain
  obtain ⟨l, ls, hl, hne⟩ := brief_partsOf (Entry.ofFunction f)
  have hclean₁ := hclean hfed₁
  have hbrief : layOut margin (partsOf (paragraphs (Entry.ofFunction f))).brief ≠ [] := by
    rw [hl]
    exact layOut_ne_nil (hl ▸ hclean₁.brief) hne
  have hps₂ := paragraphs_again (f := f) hfed₁ hbrief
  have hfed₂ := hfed (block (paragraphs (Entry.ofFunction f)))
  generalize partsOf (paragraphs (Entry.ofFunction f)) = p at *
  refine ⟨_, _, compose_ofFunction _, compose_ofFunction _, ?_⟩
  rw [hps₂] at hfed₂ ⊢
  have hne : p.brief ≠ [] := by
    rw [hl]
    simp
  obtain ⟨rest, params, hread₂, hnil, hrest, hline⟩ := middle_grows hplain hclean₁ hne (hclean hfed₂)
  have hps₃ := paragraphs_again (f := f) hfed₂ (by rw [hread₂]; exact hbrief)
  rw [hread₂, front_readBack, back_readBack hplain] at hps₃
  rw [hps₃]
  have hcancel : block (front f p ++ middle f (readBack f p params) ++ back f p) =
      block (front f p ++ middle f p ++ back f p) ↔ below (middle f (readBack f p params)) = below (middle f p) := by
    simp only [block, below_append, List.append_assoc, List.append_cancel_left_eq, List.append_cancel_right_eq]
  rw [hcancel]
  constructor
  · intro hsame q hq hname
    refine (hrest q hq hname).mp (eq_nil_of_below_eq (r := fun x => rest (paramName x)) (fun x hx => ?_) hsame q hq.mem)
    obtain ⟨a, ha, hb⟩ := hline x hx
    simp only [readBack, ha, hb, List.length_append]
    omega
  · intro hremovable
    refine congrArg below (List.map_congr_left fun x hx => ?_)
    obtain ⟨a, ha, hb⟩ := hline x hx
    have hstable : rest (paramName x) = [] := by
      by_cases hname : paramName x = []
      · rw [hname, hnil]
      · obtain ⟨q, hq, heq⟩ := exists_lastOf ⟨x, hx, rfl⟩
        rw [← heq] at hname ⊢
        exact (hrest q hq hname).mpr (hremovable q hq hname)
    rw [ha]
    refine hb.trans ?_
    rw [hstable, List.append_nil]

/-- A function with a default value and a function pointer, and with a comment in which the default value gets a line of its
own. -/
def steadyFunction : Source.Function :=
  ⟨"add", "int", "int a = 1, void (*cb)(int)", false,
    "/**\n * @brief adds\n *\n * @param a the value\n *\n * @param cb called at the end\n * @note slow\n * @see sub\n */",
    true, [], 9, 1, false, none⟩

/-- The comment of `steadyFunction`. -/
def steadyComment : Text :=
  "/**\n * @brief adds\n *\n * @param a the value\n * – default value if not overloaded: 1\n * @param cb called at the end (internal function parameter: int)\n * @return TODO\n * @note slow\n * @see sub\n */"

/-- The parts that `steadyComment` is read as. -/
def steadyParts : Parts where
  brief := ["adds".toList, []]
  params := [("a", ["the value".toList, "– default value if not overloaded: 1".toList]),
    ("cb", ["called at the end (internal function parameter: int)".toList])]
  result := ["TODO".toList]
  notes := [["slow".toList]]
  others := [("see", ["sub".toList])]

lemma steady_lastOf (hq : LastOf (documented steadyFunction.params) q) :
    q = "int a = 1".toList ∨ q = "void (*cb)(int)".toList := by
  have hps : documented steadyFunction.params = ["int a = 1", "void (*cb)(int)"] := by decide
  simpa [hps] using hq.mem

lemma steady_plain : Plain steadyFunction steadyParts where
  name := by decide
  params := by decide
  unmarked := by decide
  named := by decide
  tagless := by decide
  begun := by decide
  returns := by decide
  note := by decide
  tparams := by decide
  opens := by decide
  said := by
    intro q hq _
    rcases steady_lastOf hq with rfl | rfl
    · exact ⟨["the value"], [], by decide⟩
    · exact ⟨[], "called at the end", by decide⟩

/-- The comment of `steadyFunction` is composed again as it is. -/
theorem steady_compose_again :
    compose (Entry.ofFunction steadyFunction) = .ok steadyComment ∧
      Plain steadyFunction (Parts.ofLines (bodyLines steadyComment)) ∧
      ∃ g₂ g₃, compose (Entry.ofFunction (again steadyFunction steadyComment)) = .ok g₂ ∧
        compose (Entry.ofFunction (again steadyFunction g₂)) = .ok g₃ ∧ g₃ = g₂ := by
  have hfirst : compose (Entry.ofFunction steadyFunction) = .ok steadyComment := by decide +kernel
  have hparts : Parts.ofLines (bodyLines steadyComment) = steadyParts := by decide +kernel
  have hplain : Plain steadyFunction (Parts.ofLines (bodyLines steadyComment)) := hparts ▸ steady_plain
  obtain ⟨g₂, g₃, h₂, h₃, hiff⟩ := compose_again_eq_iff hfirst hplain
  refine ⟨hfirst, hplain, g₂, g₃, h₂, h₃, hiff.mpr fun q hq _ => ?_⟩
  rcases steady_lastOf hq with rfl | rfl
  · decide
  · decide

def growingFunction : Source.Function := ⟨"f", "int", "int a = g(1)", false, [], false, [], 0, 1, false, none⟩

/-- What follows the parenthesis of a call in a default value is taken for a part of the description, and it is added to it once
more each time the comment is composed. -/
theorem growing_compose_again :
    ∃ g₁ g₂ g₃, compose (Entry.ofFunction growingFunction) = .ok g₁ ∧
      compose (Entry.ofFunction (again growingFunction g₁)) = .ok g₂ ∧
      compose (Entry.ofFunction (again growingFunction g₂)) = .ok g₃ ∧
      Text.contains g₂ " * @param a TODO(1) –" = true ∧ Text.contains g₃ " * @param a TODO(1)(1) –" = true ∧ g₃ ≠ g₂ :=
  ⟨"/**\n * @brief TODO f description.\n * @param a TODO – default value if not overloaded: g(1)\n * @return TODO\n */",
    "/**\n * @brief TODO f description.\n * @param a TODO(1) – default value if not overloaded: g(1)\n * @return TODO\n */",
    "/**\n * @brief TODO f description.\n * @param a TODO(1)(1) – default value if not overloaded: g(1)\n * @return TODO\n */",
    by decide⟩

end FunctionDocs.DocBlock
