import FunctionDocs.Proofs.Reading

/-!
# The line of a parameter, written and read again

What a comment says of a parameter is some lines, and the hints of the parameter behind the last of them; if that line is empty,
the hints stand alone on it. Here is what such a description is cleaned to, and that it is read as it was written.
-/

open List

namespace FunctionDocs.DocBlock

open Text

variable {init : List Text} {ns : Notes} {h l last n p t : Text} {part : Part} {ls rows : List Text} {m : Text}
  {docs : List (Text × Text)}

/-! ## Hints behind a description -/

/-- What may stand behind a description: nothing, or a row without a tag, set off by a blank. -/
def Appendix (h : Text) : Prop := h = [] ∨ ∃ x, Row x ∧ x ≠ [] ∧ Tagless x ∧ h = ' ' :: x

lemma closed_hints (p : Text) : Closed (hints p) := by
  have hdefault : Closed (defaultPart p) := by
    rw [defaultPart]
    split
    · exact closed_nil
    next hv =>
      exact closed_append (by simpa using hv) (trimmed_defaultValue p).last
  rw [hints, pointerPart]
  split
  · rw [append_nil]
    exact hdefault
  · exact closed_append (by simp) (closed_append (by decide) closed_paren)

lemma hints_start (p : Text) : hints p = [] ∨ [' ', '–'] <+: hints p ∨ [' ', '('] <+: hints p := by
  rw [hints, defaultPart]
  split
  · rw [pointerPart]
    split
    · exact .inl rfl
    · exact .inr (.inr ⟨_, rfl⟩)
  · exact .inr (.inl ⟨_, rfl⟩)

lemma appendix_hints (hp : Flat p) : Appendix (hints p) := by
  have hflat : Flat (hints p) := (flat_hints hp).1.append (flat_hints hp).2
  have hrow : ∀ {c : Char} {t : Text}, isBlank c = false → hints p = ' ' :: c :: t → Row (c :: t) := by
    intro c t hc heq
    have hs : c :: t <:+ hints p := heq ▸ suffix_cons _ _
    refine ⟨hflat.of_subset hs.subset, ⟨?_, (closed_hints p).of_suffix hs⟩⟩
    rintro d ⟨⟩
    exact hc
  rcases hints_start p with h | ⟨t, h⟩ | ⟨t, h⟩
  · exact .inl h
  · exact .inr ⟨'–' :: t, hrow (by decide) h.symm, by simp, rfl, h.symm⟩
  · exact .inr ⟨'(' :: t, hrow (by decide) h.symm, by simp, rfl, h.symm⟩

lemma Appendix.row_append (hh : Appendix h) (hl : Row l) (hne : l ≠ []) : Row (l ++ h) := by
  rcases hh with rfl | ⟨x, hx, hxne, -, rfl⟩
  · rw [append_nil]
    exact hl
  · refine ⟨hl.flat.append ((by decide : Flat [' ']).append hx.flat), ⟨fun c hc => hl.trimmed.head c ?_, fun c hc => ?_⟩⟩
    · rwa [head?_append_of_ne_nil _ hne] at hc
    · rw [append_cons, getLast?_append_of_ne_nil _ hxne] at hc
      exact hx.trimmed.last c hc

lemma Tagless.append (hl : Tagless l) (hne : l ≠ []) : Tagless (l ++ h) := by
  cases l with
  | nil => exact absurd rfl hne
  | cons c l => exact hl

/-! ## Descriptions of a parameter -/

/-- Lines that may make up the description of a parameter, the last of them apart. -/
structure Lines (init : List Text) (last : Text) : Prop where
  rows : ∀ l ∈ init ++ [last], Row l
  tagless : ∀ l ∈ init ++ [last], Tagless l
  begun : init.head? ≠ some []

def paramTag (n t : Text) : Text := " * @param " ++ (n ++ t)

def setOff (t : Text) : Text := if t.isEmpty then [] else ' ' :: t

/-- The last of several lines; an empty one is a star. -/
def lastLine (last : Text) : Text := if last.isEmpty then " *" else margin ++ last

def paramText (n : Text) : List Text → Text → Text
  | [], last => paramTag n (setOff last)
  | l :: ls, last => paramTag n (setOff l) ++ below (ls.map (margin ++ ·)) ++ '\n' :: lastLine last

/-- The end of a description with hints behind it; on an empty line the hints stand alone. -/
def lastRow (last h : Text) : Text := if last.isEmpty then h.drop 1 else last ++ h

def ended (init : List Text) (last h : Text) : List Text :=
  if init.isEmpty && last.isEmpty && h.isEmpty then [] else init ++ [lastRow last h]

lemma setOff_of_ne_nil (h : t ≠ []) : setOff t = ' ' :: t := if_neg (by simpa using h)

lemma lastRow_of_ne_nil (h : last ≠ []) (t : Text) : lastRow last t = last ++ t := if_neg (by simpa using h)

lemma lastLine_of_ne_nil (h : last ≠ []) : lastLine last = margin ++ last := if_neg (by simpa using h)

lemma lastRow_row (hlast : Row last) (hh : Appendix h) : Row (lastRow last h) := by
  by_cases hempty : last = []
  · subst hempty
    rcases hh with rfl | ⟨x, hx, -, -, rfl⟩
    · exact hlast
    · exact hx
  · rw [lastRow_of_ne_nil hempty]
    exact hh.row_append hlast hempty

lemma lastRow_tagless (hlast : Tagless last) (hh : Appendix h) : Tagless (lastRow last h) := by
  by_cases hempty : last = []
  · subst hempty
    rcases hh with rfl | ⟨x, -, -, hx, rfl⟩
    · exact hlast
    · exact hx
  · rw [lastRow_of_ne_nil hempty]
    exact hlast.append hempty

lemma setOff_append (hh : Appendix h) : setOff last ++ h = setOff (lastRow last h) := by
  by_cases hempty : last = []
  · subst hempty
    rcases hh with rfl | ⟨x, -, hne, -, rfl⟩
    · rfl
    · exact (setOff_of_ne_nil hne).symm
  · rw [lastRow_of_ne_nil hempty, setOff_of_ne_nil hempty, setOff_of_ne_nil (by simp [hempty])]
    rfl

lemma ended_nil (hh : Appendix h) : ended [] last h = if (lastRow last h).isEmpty then [] else [lastRow last h] := by
  by_cases hempty : last = []
  · subst hempty
    rcases hh with rfl | ⟨x, -, hne, -, rfl⟩
    · rfl
    · simp [ended, lastRow, hne]
  · simp [ended, lastRow, hempty]

lemma readRow_lastLine (hrow : Row last) (hh : Appendix h) : readRow (lastLine last ++ h) = lastRow last h := by
  by_cases hempty : last = []
  · subst hempty
    rcases hh with rfl | ⟨x, hx, -, -, rfl⟩
    · rfl
    · exact (@readRow_star [' '] x rfl (by simp)).trans hx.trimmed.trim_eq
  · rw [lastRow_of_ne_nil hempty, lastLine_of_ne_nil hempty, append_assoc]
    exact isMargin_margin.readRow (hh.row_append hrow hempty).trimmed

lemma Appendix.flat (hh : Appendix h) : Flat h := by
  rcases hh with rfl | ⟨x, hx, -, -, rfl⟩
  · simp [Flat]
  · exact (by decide : Flat [' ']).append hx.flat

lemma flat_setOff (h : Flat t) : Flat (setOff t) := by
  rw [setOff]
  split
  · simp [Flat]
  · exact (by decide : Flat [' ']).append h

lemma flat_paramTag (hn : Word n) (ht : Flat t) : Flat (paramTag n t) :=
  (by decide : Flat " * @param ").append (hn.flat.append ht)

lemma paramTag_append (n t h : Text) : paramTag n t ++ h = paramTag n (t ++ h) := by
  unfold paramTag
  simp

lemma closed_tag (hn : Word n) (hl : Row l) : Closed (n ++ setOff l) := by
  by_cases hne : l = []
  · subst hne
    intro c hc
    exact isBlank_of_isWordChar (hn.chars c (mem_of_getLast? (by simpa [setOff] using hc)))
  · rw [setOff_of_ne_nil hne]
    exact closed_append (by simp) (closed_append (t := [' ']) hne hl.trimmed.last)

lemma readRow_tag (tag : Text) (htag : tag ≠ []) (hhead : ∀ c, tag.head? = some c → isBlank c = false) (hne : t ≠ [])
    (ht : Closed t) : readRow (" * " ++ (tag ++ ' ' :: t)) = tag ++ ' ' :: t := by
  have hclosed : Closed (tag ++ ' ' :: t) := closed_append (by simp) (closed_append (t := [' ']) hne ht)
  have htrim : Trimmed (tag ++ ' ' :: t) := ⟨fun c hc => hhead c (by rwa [head?_append_of_ne_nil _ htag] at hc), hclosed⟩
  exact (readRow_star (m := [' ']) _ rfl (by simp)).trans htrim.trim_eq

lemma readAll_paramTag {p : Parts} (hn : Word n) (hl : Row l)
    (hls : ∀ x ∈ ls, Tagless x) : readAll (p, part) (readRow (paramTag n (setOff l)) :: ls) =
      ({ p with params := setLines n ((if l.isEmpty then [] else [l]) ++ ls) p.params }, .param n) := by
  have hstar : readRow (paramTag n (setOff l)) = "@param" ++ ([' '] ++ (n ++ setOff l)) :=
    readRow_tag "@param" (by decide) (by decide) (by simp [hn.nonempty]) (closed_tag hn hl)
  have hword : ∀ c, (setOff l).head? = some c → isWordChar c = false := by
    intro c hc
    rw [setOff] at hc
    split at hc
    · cases hc
    · cases hc
      decide
  have hlines : linesBehind (setOff l) = if l.isEmpty then [] else [l] := by
    by_cases hne : l = []
    · subst hne
      rfl
    · rw [setOff_of_ne_nil hne, linesBehind_row hl hne, if_neg (by simpa using hne)]
  rw [hstar, readAll_param rfl (by simp) hn hword hls, hlines]

lemma readAll_paramText {p : Parts} (hn : Word n) (hl : Lines init last)
    (hh : Appendix h) : readAll (p, part) (rowsOf (paramText n init last ++ h)) =
      ({ p with params := setLines n (ended init last h) p.params }, .param n) := by
  have hlast : Row last := hl.rows last (by simp)
  cases init with
  | nil =>
    have htext : paramText n [] last ++ h = paramTag n (setOff (lastRow last h)) := by
      rw [paramText, paramTag_append, setOff_append hh]
    have hrow := lastRow_row hlast hh
    rw [htext, rowsOf_flat (flat_paramTag hn (flat_setOff hrow.flat)), readAll_paramTag hn hrow (by simp), ended_nil hh, append_nil]
  | cons l ls =>
    have hne : l ≠ [] := fun hnil => hl.begun (by rw [hnil]; rfl)
    obtain ⟨hrow, hrows⟩ := forall_mem_cons.mp hl.rows
    obtain ⟨hrows, -⟩ := forall_mem_append.mp hrows
    obtain ⟨-, htagless⟩ := forall_mem_cons.mp hl.tagless
    obtain ⟨htagless, hend⟩ := forall_mem_append.mp htagless
    have hbelow : ∀ x ∈ ls ++ [lastRow last h], Tagless x :=
      forall_mem_append.mpr ⟨htagless, forall_mem_singleton.mpr (lastRow_tagless (hend last (by simp)) hh)⟩
    have hflat : Flat (lastLine last ++ h) := by
      refine .append ?_ hh.flat
      rw [lastLine]
      split
      · decide
      · exact flat_margin.append hlast.flat
    rw [paramText, append_assoc, cons_append, rowsOf_append_feed,
      rowsOf_below isMargin_margin (flat_paramTag hn (flat_setOff hrow.flat)) hrows, rowsOf_flat hflat,
      readRow_lastLine hlast hh, cons_append, readAll_paramTag hn hrow hbelow, if_neg (by simpa using hne)]
    rfl

/-! ## Cleaning a description -/

lemma infix_paramText {c : Char} (hn : Word n) (hfeed : '\n' ∉ c :: m)
    (hword : isWordChar c = false) (hc : c ∉ " * @param ".toList) (h : c :: m <:+: paramText n init last) :
    ∃ l ∈ init ++ [last], c :: m <:+: l := by
  have hblank : c ∉ [' '] := fun hmem => hc (by rw [mem_singleton] at hmem; rw [hmem]; decide)
  have hmargin : c ∉ margin := by
    intro hmem
    have hsub : margin ⊆ " * @param " := by decide
    exact hc (hsub hmem)
  have hname : c ∉ n := fun hmem => by rw [hn.chars c hmem] at hword; cases hword
  have hset : ∀ {t : Text}, c :: m <:+: setOff t → c :: m <:+: t := by
    intro t ht
    rw [setOff] at ht
    split at ht
    · exact absurd ht (by simp)
    · exact infix_of_head_not_mem hblank ht
  have htag : ∀ {t : Text}, c :: m <:+: paramTag n (setOff t) → c :: m <:+: t :=
    fun ht => hset (infix_of_head_not_mem hname (infix_of_head_not_mem hc ht))
  cases init with
  | nil => exact ⟨last, by simp, htag h⟩
  | cons l ls =>
    rcases (infix_below_iff hfeed _).mp h with h | ⟨p, hp, h⟩ | h
    · exact ⟨l, by simp, htag h⟩
    · obtain ⟨r, hr, rfl⟩ := mem_map.mp hp
      exact ⟨r, by simp [hr], infix_of_head_not_mem hmargin h⟩
    · rw [lastLine] at h
      split at h
      · have hstar : c ∉ " *".toList := by
          intro hmem
          have hsub : " *".toList ⊆ " * @param " := by decide
          exact hc (hsub hmem)
        exact absurd (infix_of_head_not_mem hstar (by simpa using h)) (by simp)
      · exact ⟨last, by simp, infix_of_head_not_mem hmargin h⟩

lemma closed_lastLine (hlast : Row last) : lastLine last ≠ [] ∧ Closed (lastLine last) := by
  by_cases hne : last = []
  · subst hne
    decide
  · rw [lastLine_of_ne_nil hne]
    exact ⟨by simp [hne], closed_append hne hlast.trimmed.last⟩

lemma closed_paramText (hn : Word n) (hl : Lines init last) : Closed (paramText n init last) := by
  have hlast : Row last := hl.rows last (by simp)
  cases init with
  | nil => exact closed_append (by simp [hn.nonempty]) (closed_tag hn hlast)
  | cons l ls =>
    obtain ⟨hne, hclosed⟩ := closed_lastLine hlast
    exact closed_append (by simp) (closed_append (t := ['\n']) hne hclosed)

lemma kept_paramText (hn : Word n) (hl : Lines init last) (hmarks : ∀ l ∈ init ++ [last], Unmarked l) : Kept (paramText n init last) := by
  refine Unmarked.kept ⟨fun h => ?_, fun h => ?_⟩ (closed_paramText hn hl)
  · obtain ⟨l, hl, hm⟩ := infix_paramText hn (by decide) (by decide +kernel) (by decide) h
    exact (hmarks l hl).default hm
  · obtain ⟨l, hl, hm⟩ := infix_paramText hn (by decide) (by decide) (by decide) h
    exact (hmarks l hl).pointer hm

lemma paramText_append (init : List Text) (hne : last ≠ []) (h : Text) :
    paramText n init last ++ h = paramText n init (last ++ h) := by
  have hne' : last ++ h ≠ [] := by simp [hne]
  cases init with
  | nil => rw [paramText, paramText, paramTag_append, setOff_of_ne_nil hne, setOff_of_ne_nil hne', cons_append]
  | cons l ls =>
    rw [paramText, paramText, lastLine_of_ne_nil hne, lastLine_of_ne_nil hne', append_assoc _ _ h, cons_append,
      append_assoc margin last h]

lemma layOut_singleton {x : Text} (hx : Row x) : layOut m [x] = x := by
  rw [layOut, map_nil, unlines, joinWith, hx.trimmed.trim_eq, hx.trimmed.trim_eq]

lemma layOut_cons_ended (hl : Lines (l :: ls) last) (hh : Appendix h) :
    layOut margin (ended (l :: ls) last h) = l ++ below (ls.map (margin ++ ·)) ++ '\n' :: trimRight (margin ++ lastRow last h) := by
  have hne : l ≠ [] := fun hnil => hl.begun (by rw [hnil]; rfl)
  obtain ⟨hrow, hrows⟩ := forall_mem_cons.mp hl.rows
  obtain ⟨hrows, hlast⟩ := forall_mem_append.mp hrows
  have hend : Row (lastRow last h) := lastRow_row (hlast last (by simp)) hh
  refine layOut_snoc isMargin_margin (forall_mem_cons.mpr ⟨hrow, ?_⟩) hne
  exact forall_mem_append.mpr ⟨hrows, forall_mem_singleton.mpr hend⟩

lemma dropHints_ended {q r : Text} (hn : Word n) (hl : Lines init last) (hq : Flat q)
    (hmarks : Unmarked q) (hkept : Kept (paramText n init last)) (hr : ∀ b, Kept b → dropHints (b ++ hints q) = b ++ r)
    (hrest : r = [] ↔ Removable q) (halone : last = [] → Removable q) :
    dropHints (paramTag n (' ' :: layOut margin (ended init last (hints q)))) = paramText n init last ++ r := by
  have hh := appendix_hints hq
  have hlast : Row last := hl.rows last (by simp)
  have hend : Row (lastRow last (hints q)) := lastRow_row hlast hh
  cases init with
  | nil =>
    by_cases hempty : lastRow last (hints q) = []
    · -- Nothing is said and there are no hints: only the blank behind the name is cleaned away.
      have hnil : last = [] := by
        by_contra hne
        rw [lastRow_of_ne_nil hne] at hempty
        exact hne (append_eq_nil_iff.mp hempty).1
      have hspaces : paramTag n [' '] = paramText n [] last ++ (List.replicate 1 ' ' ++ []) := by
        rw [hnil, paramText, paramTag_append]
        rfl
      have hunmarked : Unmarked (paramTag n [' ']) := by
        have hnone : ∀ {c : Char} {m : Text}, isWordChar c = false → c ∉ " * @param ".toList → ¬c :: m <:+: paramTag n [' '] := by
          intro c m hword hc hm
          have hname : c ∉ n := fun hmem => by rw [hn.chars c hmem] at hword; cases hword
          have hm := infix_of_head_not_mem hname (infix_of_head_not_mem hc hm)
          exact hc (by
            have hmem : c = ' ' := by simpa using hm.subset mem_cons_self
            rw [hmem]
            decide)
        exact ⟨hnone (by decide +kernel) (by decide), hnone (by decide) (by decide)⟩
      have htrim : trimRight (paramTag n [' ']) = paramText n [] last := by
        rw [hspaces]
        exact trimRight_append rfl hkept.closed
      rw [ended_nil hh, hempty, hrest.mpr (halone hnil), append_nil]
      exact hunmarked.dropHints_eq.trans htrim
    · have htext : paramTag n (' ' :: layOut margin (ended [] last (hints q))) = paramText n [] last ++ hints q := by
        rw [ended_nil hh, if_neg (by simpa using hempty), layOut_singleton hend, paramText, paramTag_append, setOff_append hh,
          setOff_of_ne_nil hempty]
      rw [htext, hr _ hkept]
  | cons l ls =>
    have hne : l ≠ [] := fun hnil => hl.begun (by rw [hnil]; rfl)
    have htext : paramTag n (' ' :: layOut margin (ended (l :: ls) last (hints q))) =
        paramTag n (setOff l) ++ below (ls.map (margin ++ ·)) ++ '\n' :: trimRight (margin ++ lastRow last (hints q)) := by
      rw [layOut_cons_ended hl hh, setOff_of_ne_nil hne, paramTag_append, paramTag_append]
      rfl
    rw [htext]
    by_cases hempty : last = []
    · subst hempty
      rw [hrest.mpr (halone rfl), append_nil]
      rcases hh with hnil | ⟨x, hx, hxne, -, heq⟩
      · rw [hnil]
        exact hkept.dropHints_eq
      · -- The hints stand alone on their line, behind the blanks of its margin.
        have hclosed : Closed (margin ++ x) := closed_append hxne hx.trimmed.last
        have halign : paramTag n (setOff l) ++ below (ls.map (margin ++ ·)) ++ '\n' :: trimRight (margin ++ lastRow [] (hints q)) =
            paramText n (l :: ls) [] ++ (List.replicate (5 + 2) ' ' ++ hints q) := by
          have hrow : lastRow [] (hints q) = x := by rw [heq]; rfl
          rw [hrow, hclosed.trimRight_eq, heq, paramText, append_assoc _ ('\n' :: lastLine []) _]
          rfl
        rw [halign, dropHints_alone hmarks (halone rfl) hkept]
    · have hclosed : Closed (margin ++ lastRow last (hints q)) := by
        refine closed_append ?_ hend.trimmed.last
        rw [lastRow_of_ne_nil hempty]
        simp [hempty]
      rw [← hr _ hkept, hclosed.trimRight_eq, lastRow_of_ne_nil hempty, paramText, lastLine_of_ne_nil hempty,
        append_assoc _ _ (hints q), cons_append, append_assoc margin last (hints q)]

/-! ## The lines of all parameters -/

/-- The parameters of a list that have a line: those that are not empty and not called `void`. -/
def documented (params : Text) : List Text :=
  ((splitParams params).filter (!·.isEmpty)).filter fun p => !(paramName p == "void")

def paramLine (docs : List (Text × Text)) (p : Text) : Text :=
  dropHints (paramTag (paramName p) (' ' :: docText docs (paramName p))) ++ hints p

lemma paramLines_eq (docs : List (Text × Text)) (params : Text) :
    paramLines docs params = (documented params).map (paramLine docs) := by
  have hline : ∀ p, paramLine? docs p = if paramName p == "void" then none else some (paramLine docs p) := by
    intro p
    rw [paramLine_eq, paramLine, hints, ← append_assoc]
    unfold paramTag
    simp
  rw [paramLines, documented]
  induction (splitParams params).filter (!·.isEmpty) with
  | nil => rfl
  | cons p ps ih =>
    rw [filterMap_cons, hline, filter_cons, ih]
    cases paramName p == "void" <;> rfl

lemma mem_documented {params : Text} (h : p ∈ documented params) : p <:+: params :=
  infix_of_mem_splitParams (mem_of_mem_filter (mem_of_mem_filter h))

lemma docText_of_find (h : ns.find? (·.1 == n) = some (n, rows)) :
    docText (ns.map fun m => (m.1, layOut margin m.2)) n = layOut margin rows := by
  have hfind : (ns.map fun m => (m.1, layOut margin m.2)).find? (·.1 == n) =
      (ns.find? (·.1 == n)).map fun m => (m.1, layOut margin m.2) := find?_map ..
  rw [docText, hfind, h]
  rfl

lemma docText_of_not_mem (h : ∀ m ∈ ns, m.1 ≠ n) : docText (ns.map fun m => (m.1, layOut margin m.2)) n = todo := by
  have hfind : (ns.map fun m => (m.1, layOut margin m.2)).find? (·.1 == n) = none := by
    rw [find?_eq_none]
    intro m hm
    obtain ⟨x, hx, rfl⟩ := mem_map.mp hm
    simpa using h x hx
  rw [docText, hfind]
  rfl

lemma find_of_mem (hkeys : (ns.map (·.1)).Nodup) (h : (n, rows) ∈ ns) : ns.find? (·.1 == n) = some (n, rows) := by
  induction ns with
  | nil => cases h
  | cons m ns ih =>
    rw [map_cons, nodup_cons] at hkeys
    rcases mem_cons.mp h with rfl | h
    · rw [find?_cons_of_pos (by simp)]
    · have hne : (m.1 == n) = false := by
        rw [beq_eq_false_iff_ne]
        rintro rfl
        exact hkeys.1 (mem_map.mpr ⟨_, h, rfl⟩)
      rw [find?_cons, hne, ih hkeys.2 h]

lemma find_setLines (name n : Text) (ls : List Text) (ns : Notes) :
    (setLines name ls ns).find? (·.1 == n) = if name = n then some (name, ls) else ns.find? (·.1 == n) := by
  induction ns with
  | nil => by_cases h : name = n <;> simp [setLines]
  | cons m ns ih =>
    by_cases hm : m.1 = name
    · by_cases h : name = n <;> simp [setLines, h, hm]
    · have hset : setLines name ls (m :: ns) = m :: setLines name ls ns := by simp [setLines, hm]
      rw [hset, find?_cons, find?_cons, ih]
      by_cases hn : m.1 = n
      · have hne : name ≠ n := fun h => hm (hn.trans h.symm)
        simp [hne]
      · have hbeq : (m.1 == n) = false := by simpa using hn
        simp only [hbeq]

lemma find_foldl_setLines {α : Type} {key : α → Text} {val : α → List Text} {after : List α} {q : α}
    (hafter : ∀ p ∈ after, key p ≠ key q) (before : List α) (ns : Notes) :
    ((before ++ q :: after).foldl (fun ns p => setLines (key p) (val p) ns) ns).find? (·.1 == key q) = some (key q, val q) := by
  rw [foldl_append, foldl_cons]
  have hkeep : ∀ ms : Notes, (after.foldl (fun ns p => setLines (key p) (val p) ns) ms).find? (·.1 == key q) =
      ms.find? (·.1 == key q) := by
    induction after with
    | nil => intro ms; rfl
    | cons p ps ih =>
      intro ms
      obtain ⟨hp, hps⟩ := forall_mem_cons.mp hafter
      rw [foldl_cons, ih hps, find_setLines, if_neg hp]
  rw [hkeep, find_setLines, if_pos rfl]

/-- The name under which the line of a parameter is read: an unnamed one is read under the mark of its open place. -/
def keyOf (p : Text) : Text := if (paramName p).isEmpty then todo else paramName p

/-- The lines that the line of a parameter is read as, where `said` has the description of each name. -/
def linesRead (said : Text → List Text × Text) (p : Text) : List Text :=
  if (paramName p).isEmpty then linesBehind (hints p) else ended (said (paramName p)).1 (said (paramName p)).2 (hints p)

/-- The descriptions that the lines of parameters are written from. -/
structure Said (docs : List (Text × Text)) (said : Text → List Text × Text) (ps : List Text) : Prop where
  flat : ∀ p ∈ ps, Flat p
  unnamed : docText docs [] = todo
  lines : ∀ p ∈ ps, paramName p ≠ [] → Lines (said (paramName p)).1 (said (paramName p)).2
  text : ∀ p ∈ ps, paramName p ≠ [] →
    dropHints (paramTag (paramName p) (' ' :: docText docs (paramName p))) =
      paramText (paramName p) (said (paramName p)).1 (said (paramName p)).2

lemma word_paramName (h : paramName p ≠ []) : Word (paramName p) := (paramName_word p).resolve_left h

lemma paramLine_unnamed (hdocs : docText docs [] = todo) (h : paramName p = []) :
    paramLine docs p = " * @param  TODO" ++ hints p := by
  have hclosed : Closed " * @param  TODO" := by decide
  have hkept : Kept " * @param  TODO".toList := Unmarked.kept ⟨by decide, by decide⟩ hclosed
  have htext : paramTag [] (' ' :: todo) = " * @param  TODO" := rfl
  rw [paramLine, h, hdocs, htext, hkept.dropHints_eq]

lemma readAll_paramLine {said : Text → List Text × Text} {ps : List Text} {q : Text}
    (h : Said docs said ps) (hq : q ∈ ps) (p : Parts) (part : Part) :
    ∃ part', readAll (p, part) (rowsOf (paramLine docs q)) =
      ({ p with params := setLines (keyOf q) (linesRead said q) p.params }, part') := by
  have hh := appendix_hints (h.flat q hq)
  by_cases hname : paramName q = []
  · have hrow : rowsOf (paramLine docs q) = ["@param".toList ++ ([' ', ' '] ++ (todo ++ hints q))] := by
      have hclosed : Closed (todo ++ hints q) := by
        by_cases hnil : hints q = []
        · rw [hnil]
          rintro c ⟨⟩
          decide
        · exact closed_append hnil (closed_hints q)
      have hflat : Flat (" * @param  TODO".toList ++ hints q) := (by decide : Flat " * @param  TODO".toList).append hh.flat
      rw [paramLine_unnamed h.unnamed hname, rowsOf_flat hflat]
      exact congrArg ([·]) (readRow_tag "@param" (by decide) (by decide) (cons_ne_nil _ _) (closed_append (t := [' ']) (cons_ne_nil _ _) hclosed))
    have hword : ∀ c, (hints q).head? = some c → isWordChar c = false := by
      intro c hc
      rcases hh with hnil | ⟨x, -, -, -, heq⟩
      · rw [hnil] at hc
        cases hc
      · rw [heq] at hc
        cases hc
        decide
    have htodo : Word todo := ⟨by decide, by decide⟩
    have hkey : keyOf q = todo := by simp [keyOf, hname]
    have hlines : linesRead said q = linesBehind (hints q) := by simp [linesRead, hname]
    exact ⟨_, by rw [hrow, readAll_param rfl (by simp) htodo hword (by simp), hkey, hlines, append_nil]⟩
  · have hkey : keyOf q = paramName q := by simp [keyOf, hname]
    have hlines : linesRead said q = ended (said (paramName q)).1 (said (paramName q)).2 (hints q) := by simp [linesRead, hname]
    exact ⟨_, by rw [paramLine, h.text q hq hname, readAll_paramText (word_paramName hname) (h.lines q hq hname) hh, hkey, hlines]⟩

end FunctionDocs.DocBlock
