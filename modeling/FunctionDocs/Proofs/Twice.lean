import FunctionDocs.Proofs.Headed

/-!
# A second insertion

A second insertion finds the headers of the first. A line where a function ends is settled if it has a block comment and no line
comment; a line comment that becomes a block keeps its text, and two slashes in there are taken for a line comment the next time.
Every change of such a line puts new stars there, so that no later change takes it back.
-/

open List

namespace FunctionDocs.Header

open Text Code Source

variable {ls ls' : List Text} {name t : Text} {line : Text} {us : List Function}

/-! ## Lines with a closing comment -/

/-- A comment on the line where a function ends is settled: it is a block comment, and there is no line comment. -/
@[mk_iff]
structure Settled (line : Text) : Prop where
  closed : closedComment.occursIn line = true
  slashes : contains line "//" = false

instance (line : Text) : Decidable (Settled line) := decidable_of_iff _ (settled_iff ..).symm

lemma count_blank {b : Text} (h : isBlankLine b) : b.count '*' = 0 :=
  count_eq_zero.mpr fun hmem => absurd (isBlankLine_iff.mp h _ hmem) (by decide)

lemma count_trimRight (t : Text) : (trimRight t).count '*' = t.count '*' := by
  obtain ⟨r, hr, ht⟩ := trimRight_split t
  nth_rewrite 2 [ht]
  rw [count_append, count_blank hr, Nat.add_zero]

lemma count_trim (t : Text) : (trim t).count '*' = t.count '*' := by
  obtain ⟨l, r, hl, hr, ht⟩ := trim_split t
  nth_rewrite 2 [ht]
  rw [count_append, count_append, count_blank hl, count_blank hr, Nat.add_zero, Nat.zero_add]

lemma count_postLine {name t : Text} (hflat : Flat t) (h : ¬Settled t) : t.count '*' < (postLine name t).count '*' := by
  have hopen : count '*' " /* " = 1 := by decide
  rw [postLine_eq hflat.not_mem]
  cases hcut : cutFirst "//" t with
  | some cut =>
    have hold : t.count '*' = cut.1.count '*' + cut.2.count '*' := by
      nth_rewrite 1 [cutFirst_eq_some hcut]
      simp [count_append]
    rw [count_append, count_append, count_append, count_trimRight, count_trim]
    omega
  | none =>
    have hslashes := contains_eq_false_iff.mpr (not_infix_of_cutFirst hcut)
    rw [if_neg fun hclosed => h ⟨hclosed, hslashes⟩, count_append, count_append, count_append]
    omega

lemma postLine_eq_iff {name t : Text} (hflat : Flat t) : postLine name t = t ↔ Settled t := by
  constructor
  · intro h
    by_contra hsettled
    have hlt := @count_postLine name t hflat hsettled
    rw [h] at hlt
    exact lt_irrefl _ hlt
  · rintro ⟨hclosed, hslashes⟩
    rw [postLine_eq hflat.not_mem]
    cases hcut : cutFirst "//" t with
    | some cut => exact absurd ⟨cut.1, cut.2, (cutFirst_eq_some hcut).symm⟩ (contains_eq_false_iff.mp hslashes)
    | none => exact if_pos hclosed

def stars (ls : List Text) : Nat := ls.flatten.count '*'

lemma stars_putAt {last : Int} (hflat : ∀ l ∈ ls, Flat l) (hitem : itemAt? ls last = some line)
    (hnew : postLine name (trimRight line) ≠ trimRight line) : stars ls < stars (putAt ls last (postLine name (trimRight line))) := by
  obtain ⟨rest, hls, hput⟩ := split_of_itemAt hitem
  have hbare := flat_trimRight_item hflat hitem
  have hlt := @count_postLine name _ hbare fun hsettled => hnew ((postLine_eq_iff hbare).mpr hsettled)
  rw [count_trimRight] at hlt
  rw [hput, stars, stars]
  nth_rewrite 1 [hls]
  simp only [flatten_append, flatten_singleton, count_append]
  omega

lemma stars_postFor {u : Function} (hflat : ∀ l ∈ ls, Flat l) (h : postFor ls u = .ok ls') : ls' = ls ∨ stars ls < stars ls' := by
  rcases postFor_cases h with rfl | ⟨start, last, line, -, -, -, hitem, -, hnew, rfl⟩
  · exact .inl rfl
  · exact .inr (stars_putAt hflat hitem hnew)

lemma stars_run (hnames : ∀ u ∈ us, Flat u.name) (hflat : ∀ l ∈ ls, Flat l)
    (h : us.foldlM postFor ls = .ok ls') : ls' = ls ∨ stars ls < stars ls' := by
  induction us generalizing ls with
  | nil =>
    cases h
    exact .inl rfl
  | cons u us ih =>
    obtain ⟨mid, hmid, hrest⟩ := ok_of_bind_ok h
    obtain ⟨hu, hus⟩ := forall_mem_cons.mp hnames
    rcases ih hus (flat_postFor hu hflat hmid) hrest with rfl | hmore
    · exact stars_postFor hflat hmid
    · rcases stars_postFor hflat hmid with rfl | hlt
      · exact .inr hmore
      · exact .inr (hlt.trans hmore)

lemma count_unlines (ls : List Text) : (unlines ls).count '*' = stars ls := by
  rw [unlines, stars]
  fun_induction joinWith ['\n'] ls with
  | case1 => rfl
  | case2 t => rw [flatten_singleton]
  | case3 t u r ih =>
    rw [flatten_cons, count_append, count_append, count_append, ih]
    rfl

/-! ## Functions that are closed -/

/-- The line where the function that starts on a line ends, unless it lies in a block comment. -/
def closingLine? (ls : List Text) (start : Int) : Option Text :=
  match endLine ls start with
  | .ok (some last) => if insideBlock ls last then none else itemAt? ls last
  | _ => none

lemma closingLine?_eq_some {start : Int} :
    closingLine? ls start = some line ↔
      ∃ last, endLine ls start = .ok (some last) ∧ insideBlock ls last = false ∧ itemAt? ls last = some line := by
  rw [closingLine?]
  constructor
  · intro h
    split at h
    next last hlast =>
      split at h
      · cases h
      next hinside =>
        exact ⟨last, hlast, Bool.eq_false_iff.mpr hinside, h⟩
    · cases h
  · rintro ⟨last, hlast, hinside, hitem⟩
    rw [hlast]
    simp only [hinside]
    exact hitem

lemma postFor_eq_iff {g : Function} (hflat : ∀ l ∈ ls, Flat l)
    (hfound : lineOf ls g.name g.params g.count .range = .ok g.startLine) (h : postFor ls g = .ok ls') :
    ls' = ls ↔ ∀ line ∈ closingLine? ls g.startLine, Settled (trimRight line) := by
  constructor
  · rintro rfl line hline
    obtain ⟨last, hlast, hinside, hitem⟩ := closingLine?_eq_some.mp hline
    have hbare := flat_trimRight_item hflat hitem
    rw [← @postLine_eq_iff g.name _ hbare]
    by_contra hnew
    have hput : postFor ls' g = .ok (putAt ls' last (postLine g.name (trimRight line))) := by
      rw [postFor, hfound]
      simp only [bind, Except.bind, addPost, hlast, hitem, hinside]
      exact congrArg Except.ok (if_neg hnew)
    have hlt := stars_putAt hflat hitem hnew
    rw [← Except.ok.inj (h.symm.trans hput)] at hlt
    exact lt_irrefl _ hlt
  · intro hsettled
    rcases postFor_cases h with rfl | ⟨start, last, line, hstart, -, hlast, hitem, hinside, hnew, rfl⟩
    · rfl
    · obtain rfl := Except.ok.inj (hstart.symm.trans hfound)
      have hbare := flat_trimRight_item hflat hitem
      have hline := hsettled line (closingLine?_eq_some.mpr ⟨last, hlast, hinside, hitem⟩)
      exact absurd ((postLine_eq_iff hbare).mpr hline) hnew

lemma closings_eq_iff (hnames : ∀ u ∈ us, Flat u.name) (hflat : ∀ l ∈ ls, Flat l)
    (hfound : ∀ u ∈ us, lineOf ls u.name u.params u.count .range = .ok u.startLine) (h : us.foldlM postFor ls = .ok ls') :
    ls' = ls ↔ ∀ u ∈ us, ∀ line ∈ closingLine? ls u.startLine, Settled (trimRight line) := by
  induction us generalizing ls with
  | nil =>
    cases h
    exact iff_of_true rfl nofun
  | cons u us ih =>
    rw [foldlM_cons] at h
    obtain ⟨mid, hmid, hrest⟩ := ok_of_bind_ok h
    obtain ⟨hu, hus⟩ := forall_mem_cons.mp hnames
    obtain ⟨hfoundu, hfoundus⟩ := forall_mem_cons.mp hfound
    have hstep := postFor_eq_iff hflat hfoundu hmid
    rw [forall_mem_cons, ← hstep]
    rcases stars_postFor hflat hmid with rfl | hlt
    · rw [ih hus hflat hfoundus hrest, eq_self, true_and]
    · have hne : mid ≠ ls := by
        rintro rfl
        exact Nat.lt_irrefl _ hlt
      refine iff_of_false ?_ fun hall => hne hall.1
      rcases stars_run hus (flat_postFor hu hflat hmid) hrest with rfl | hmore
      · exact hne
      · rintro rfl
        exact Nat.lt_irrefl _ (hlt.trans hmore)

/-! ## The insertion as a whole -/

lemma endsWith_postLine (h : postLine name t ≠ t) : endsWith (trim (postLine name t)) ['}'] = false := by
  obtain ⟨u, hu⟩ : ∃ u, postLine name t = u ++ ['/'] := by
    rw [postLine] at h ⊢
    split at h
    next m _ =>
      exact ⟨trimRight (m.part "code") ++ " /* " ++ trim (m.part "text") ++ " *", by simp⟩
    · split at h
      · exact absurd rfl h
      next hopen =>
        exact ⟨t ++ " /* " ++ name ++ "() *", by simp [hopen]⟩
  rw [Bool.eq_false_iff, Ne, endsWith_iff, hu, trim_concat rfl, singleton_suffix_iff_getLast?_eq_some, getLast?_concat]
  rintro ⟨⟩

/-- A closing comment is guarded: the search for a header goes on or stops at its line as before, or it stops on the next line. -/
def Guarded (ls : List Text) (i : Nat) (line new : Text) : Prop :=
  stopsHeader new = stopsHeader line ∨ stopsHeader line = true ∧ ∀ k ∈ ls[i + 1]?, stopsHeader k = true
  deriving Decidable

lemma byClosing_steady (style : Option Value) : ByClosing Guarded fun ls _ g => Steady style ls g where
  keeps := by
    intro ls name f g h i line new hline hnew hne hretouch hguard hread hread' hsame hsteady
    refine ⟨?_, by rw [hsame.doxygen]; exact hsteady.style⟩
    have hheaded := hsteady.headed
    rw [hsame.line]
    rcases lt_or_ge i g.startLine with hlt | hge
    · have hitem : (ls.take g.startLine)[i]? = some line := by rw [getElem?_take_of_lt hlt, hline]
      obtain ⟨hlen, hget⟩ := List.getElem?_eq_some_iff.mp hitem
      have hold : ls.take g.startLine = (ls.take g.startLine).take i ++ line :: (ls.take g.startLine).drop (i + 1) := by
        rw [← hget, ← drop_eq_getElem_cons hlen, take_append_drop]
      rw [take_set, set_eq_take_append_cons_drop, if_pos hlen]
      rw [hold] at hheaded
      obtain ⟨l, hl, hfirm⟩ := hretouch.old_firm
      obtain rfl := Option.some.inj (hl.symm.trans hline)
      refine hheaded.set hfirm hretouch.new_firm (by rw [hnew]; exact endsWith_postLine (hnew ▸ hne)) (hguard.imp_right ?_)
      refine .imp_right fun hnext k hk => hnext k ?_
      rw [head?_drop, getElem?_take] at hk
      split at hk
      · exact hk
      · cases hk
    · rw [take_set_of_le hge]
      exact hheaded

/-- Every function of a text is found on its line. -/
def FoundAgain (content : Text) : Prop :=
  Then (functionsOf content []) fun gs => ∀ g ∈ gs, lineOf content.lines g.name g.params g.count .subtraction = .ok g.startLine
  deriving Decidable

lemma lineOf_use {params : Text} {count i : Int} {use : LineUse} (use' : LineUse)
    (h : lineOf ls name params count use = .ok i) : lineOf ls name params count use' = .ok i := by
  rw [lineOf] at h ⊢
  split at h
  · exact h
  · cases h

lemma foldlM_same {α β : Type} {step : α → β → Except Failure α} {a : α} {bs : List β} (h : ∀ b ∈ bs, step a b = .ok a) :
    bs.foldlM step a = .ok a := by
  induction bs with
  | nil => rfl
  | cons b bs ih =>
    obtain ⟨hb, hbs⟩ := forall_mem_cons.mp h
    rw [foldlM_cons, hb]
    exact ih hbs

lemma unlines_lines (hflat : ∀ l ∈ ls, Flat l) : unlines (unlines ls ++ "\n").lines ++ "\n" = unlines ls ++ "\n" := by
  by_cases hne : ls = []
  · rw [hne]
    rfl
  · rw [lines_unlines hflat hne]

lemma insertComments_eq_iff {style : Option Value} {content new : Text} {gs : List Function}
    (hwritten : unlines content.lines ++ "\n" = content) (hgs : functionsOf content [] = .ok gs)
    (hsteady : ∀ g ∈ gs, headerFor style content.lines g = .ok content.lines)
    (hfound : ∀ g ∈ gs, lineOf content.lines g.name g.params g.count .range = .ok g.startLine)
    (h : insertComments content style = .ok new) :
    new = content ↔ ∀ g ∈ gs, ∀ line ∈ closingLine? content.lines g.startLine, Settled (trimRight line) := by
  obtain ⟨gs', hgs', hheaders⟩ := ok_of_bind_ok h
  obtain rfl := Except.ok.inj (hgs'.symm.trans hgs)
  obtain ⟨mid, hmid, hclosings⟩ := ok_of_bind_ok hheaders
  obtain rfl : content.lines = mid := Except.ok.inj ((foldlM_same fun g hg => hsteady g (mem_reverse.mp hg)).symm.trans hmid)
  obtain ⟨ls, hls, hlast⟩ := ok_of_bind_ok hclosings
  have hnew : new = unlines ls ++ "\n" := (Except.ok.inj hlast).symm
  have hnames : ∀ g ∈ gs', Flat g.name := fun g hg => (functionsOf_flat hgs g hg).1
  have hflat : ∀ l ∈ content.lines, Flat l := fun l hl => (mem_lines hl).2
  rw [← closings_eq_iff hnames hflat hfound hls]
  refine ⟨fun hsame => (stars_run hnames hflat hls).resolve_right fun hlt => ?_, fun hsame => ?_⟩
  · have hcount := congrArg (count '*') (hnew.symm.trans (hsame.trans hwritten.symm))
    rw [count_append, count_append, count_unlines, count_unlines] at hcount
    omega
  · rw [hnew, hsame, hwritten]

/-- After a tidy insertion whose headers last, the next insertion leaves the text as it is exactly if every line where a function
ends has a block comment and no line comment. -/
theorem insertComments_again_eq_iff {style : Option Value} {content new new' : Text}
    (htidy : TidyRun style content (HeaderLasts style) Guarded) (h : insertComments content style = .ok new)
    (hfound : FoundAgain new) (h' : insertComments new style = .ok new') :
    new' = new ↔ Then (functionsOf new []) fun gs => ∀ g ∈ gs, ∀ line ∈ closingLine? new.lines g.startLine, Settled (trimRight line) := by
  obtain ⟨fs, ls, gs, -, rfl, hflat, hgs, hall⟩ :=
    insertComments_kept (byHeader_steady style content.lines) (byClosing_steady style) htidy h
  have hfunctions := functionsIn_lines hflat hgs
  have hfound : ∀ g ∈ gs, lineOf (unlines ls ++ "\n").lines g.name g.params g.count .subtraction = .ok g.startLine :=
    (Then.of_ok hfunctions).mp hfound
  have hsteady : ∀ g ∈ gs, headerFor style (unlines ls ++ "\n").lines g = .ok (unlines ls ++ "\n").lines := by
    intro g hg
    obtain ⟨f, -, -, hsteady⟩ := exists_beside hall hg
    have hlt := (readFrom_of_mem hgs g hg).lt
    have hfound := hfound g hg
    rw [lines_unlines hflat (List.ne_nil_of_length_pos (by omega))] at hfound ⊢
    exact hsteady.headerFor_eq hlt hfound
  rw [Then.of_ok hfunctions]
  exact insertComments_eq_iff (unlines_lines hflat) hfunctions hsteady (fun g hg => lineOf_use _ (hfound g hg)) h'

def plainStyle : Option Value := some (.str "default")

def endedText : Text := "// adds\nint add(int a) \x7b\n\x7d // end\n"

/-- What an insertion makes of `endedText`. -/
def endedAfter : Text := unlines ([[], []] ++ headerBlock ["adds"] ++ (["int add(int a) \x7b", "\x7d /* end */"] : List Text)) ++ "\n"

/-- Line comments that became blocks stay as they are. -/
theorem ended_again :
    TidyRun plainStyle endedText (HeaderLasts plainStyle) Guarded ∧ FoundAgain endedAfter ∧
      insertComments endedText plainStyle = .ok endedAfter ∧ insertComments endedAfter plainStyle = .ok endedAfter := by
  have htidy : TidyRun plainStyle endedText (HeaderLasts plainStyle) Guarded := by decide +kernel
  have hfound : FoundAgain endedAfter := by decide
  have hfirst : insertComments endedText plainStyle = .ok endedAfter := by decide +kernel
  obtain ⟨new, hsecond⟩ : ∃ new, insertComments endedAfter plainStyle = .ok new := by decide
  obtain rfl := (insertComments_again_eq_iff htidy hfirst hfound hsecond).mpr (by decide)
  exact ⟨htidy, hfound, hfirst, hsecond⟩

def linkedText : Text := "int f() \x7b\n\x7d // see http://x.y\n"

/-- The function of `linkedText` below its header, with another last line. -/
def linkedAfter (last : Text) : Text :=
  unlines ([[], []] ++ headerBlock ["f -->> TODO: Add your description here"] ++ (["int f() \x7b", last] : List Text)) ++ "\n"

/-- Two slashes in a closing comment are taken for a line comment by the next insertion. -/
theorem linked_again_changes :
    TidyRun plainStyle linkedText (HeaderLasts plainStyle) Guarded ∧
      insertComments linkedText plainStyle = .ok (linkedAfter "\x7d /* see http://x.y */") ∧
      FoundAgain (linkedAfter "\x7d /* see http://x.y */") ∧
      insertComments (linkedAfter "\x7d /* see http://x.y */") plainStyle = .ok (linkedAfter "\x7d /* see http: /* x.y */ */") ∧
      linkedAfter "\x7d /* see http: /* x.y */ */" ≠ linkedAfter "\x7d /* see http://x.y */" := by
  decide +kernel

end FunctionDocs.Header
