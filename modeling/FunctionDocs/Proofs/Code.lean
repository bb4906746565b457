import FunctionDocs.Proofs.BlockComment

/-!
# The code of a text

The code of a source text is what is left of it without comments and white space. Comments are found by a scan from left to
right that passes over string and character literals; a literal ends with its line. A text is scanned line by line, so lines
that hold no code and leave the scan where it was may be put in and taken out.
-/

open List

namespace FunctionDocs.Code

open Text DocBlock

variable {ls : List Text} {m : Mode} {t : Text}

/-! ## The scan -/

/-- Where the scan stands. -/
inductive Mode where
  | plain
  /-- Behind a slash, which may open a comment. -/
  | slash
  | literal (quote : Char)
  /-- Behind a backslash in a literal. -/
  | escape (quote : Char)
  | lineComment
  | block
  /-- Behind a star in a block comment, which may close it. -/
  | star
  deriving DecidableEq, Repr

/-- A character of code, unless it is white space. -/
def solid (c : Char) : Text := if isBlank c then [] else [c]

/-- One character: the code it completes, and where the scan stands behind it. -/
def Mode.step : Mode → Char → Text × Mode
  | .plain, c =>
    if c == '/' then ([], .slash)
    else if c == '"' || c == '\'' then ([c], .literal c)
    else (solid c, .plain)
  | .slash, c =>
    if c == '/' then ([], .lineComment)
    else if c == '*' then ([], .block)
    else if c == '"' || c == '\'' then (['/', c], .literal c)
    else ('/' :: solid c, .plain)
  | .literal quote, c =>
    if c == '\n' then ([], .plain)
    else if c == '\\' then ([c], .escape quote)
    else (solid c, if c == quote then .plain else .literal quote)
  | .escape quote, c => if c == '\n' then ([], .plain) else (solid c, .literal quote)
  | .lineComment, c => ([], if c == '\n' then .plain else .lineComment)
  | .block, c => ([], if c == '*' then .star else .block)
  | .star, c => ([], if c == '/' then .plain else if c == '*' then .star else .block)

/-- The code that a text completes, and where the scan stands at its end. -/
def scan (m : Mode) : Text → Text × Mode
  | [] => ([], m)
  | c :: t => ((m.step c).1 ++ (scan (m.step c).2 t).1, (scan (m.step c).2 t).2)

/-- What is open at the end of a text: a slash that opens no comment is code. -/
def Mode.flush : Mode → Text
  | .slash => ['/']
  | _ => []

/-- The code of a text: what is left of it without comments and white space. -/
def codeOf (t : Text) : Text := (scan .plain t).1 ++ (scan .plain t).2.flush

lemma scan_append (m : Mode) (t u : Text) :
    scan m (t ++ u) = ((scan m t).1 ++ (scan (scan m t).2 u).1, (scan (scan m t).2 u).2) := by
  induction t generalizing m with
  | nil => rfl
  | cons c t ih => simp only [cons_append, scan, ih, append_assoc]

def Mode.nextLine : Mode → Mode
  | .block => .block
  | .star => .block
  | _ => .plain

lemma scan_feed (m : Mode) : scan m ['\n'] = (m.flush, m.nextLine) := by
  cases m <;> rfl

lemma codeOf_feed (t : Text) : codeOf (t ++ ['\n']) = codeOf t := by
  have hflush : ∀ m : Mode, m.nextLine.flush = [] := by
    intro m
    cases m <;> rfl
  rw [codeOf, codeOf, scan_append, scan_feed, hflush, append_nil]

/-! ## Lines -/

def feed (ls : List Text) : Text := ls.flatMap (· ++ ['\n'])

lemma feed_append (ls ms : List Text) : feed (ls ++ ms) = feed ls ++ feed ms := flatMap_append

lemma feed_cons (l : Text) (ls : List Text) : feed (l :: ls) = l ++ '\n' :: feed ls := by simp [feed]

lemma unlines_feed (h : ls ≠ []) : unlines ls ++ ['\n'] = feed ls := by
  rcases eq_nil_or_concat' ls with rfl | ⟨init, last, rfl⟩
  · exact absurd rfl h
  · rw [unlines_append_cons]
    simp [feed, below]

def scanLines (m : Mode) (ls : List Text) : Text × Mode := scan m (feed ls)

lemma scanLines_append (m : Mode) (ls ms : List Text) :
    scanLines m (ls ++ ms) = ((scanLines m ls).1 ++ (scanLines (scanLines m ls).2 ms).1, (scanLines (scanLines m ls).2 ms).2) := by
  rw [scanLines, feed_append, scan_append]
  rfl

lemma scanLines_cons (m : Mode) (l : Text) (ls : List Text) :
    scanLines m (l :: ls) = ((scan m l).1 ++ (scan m l).2.flush ++ (scanLines (scan m l).2.nextLine ls).1,
      (scanLines (scan m l).2.nextLine ls).2) := by
  rw [scanLines, feed_cons, ← singleton_append, scan_append, scan_append, scan_feed, ← append_assoc]
  rfl

lemma flush_scanLines (hm : m.flush = []) (ls : List Text) : (scanLines m ls).2.flush = [] := by
  induction ls generalizing m with
  | nil => exact hm
  | cons l ls ih =>
    rw [scanLines_cons]
    exact ih (by cases (scan m l).2 <;> rfl)

lemma codeOf_feed_lines (ls : List Text) : codeOf (feed ls) = (scanLines .plain ls).1 := by
  rw [codeOf, ← scanLines, flush_scanLines rfl, append_nil]

lemma codeOf_unlines (ls : List Text) : codeOf (unlines ls ++ ['\n']) = (scanLines .plain ls).1 := by
  by_cases h : ls = []
  · rw [h]
    rfl
  · rw [unlines_feed h, codeOf_feed_lines]

lemma feed_lines (h : Fed t) : feed t.lines = t ∨ feed t.lines = t ++ ['\n'] := by
  fun_induction lines t with
  | case1 => exact .inl rfl
  | case2 r ih =>
    have hr := h '\r' mem_cons_self (by decide)
    cases hr
  | case3 c r _ hend ih =>
    obtain rfl := h c mem_cons_self hend
    rcases ih fun d hd => h d (mem_cons_of_mem _ hd) with ih | ih
    · exact .inl (by rw [feed_cons, ih]; rfl)
    · exact .inr (by rw [feed_cons, ih]; rfl)
  | case4 c r _ hend hnil ih =>
    rw [hnil] at ih
    rcases ih fun d hd => h d (mem_cons_of_mem _ hd) with ih | ih
    · rw [← ih]
      exact .inr rfl
    · simp [feed] at ih
  | case5 c r _ hend l ls hls ih =>
    rw [hls] at ih
    rcases ih fun d hd => h d (mem_cons_of_mem _ hd) with ih | ih
    · exact .inl (by rw [← ih, feed_cons, feed_cons]; rfl)
    · refine .inr ?_
      rw [cons_append, ← ih, feed_cons, feed_cons]
      rfl

lemma codeOf_lines (h : Fed t) : codeOf t = (scanLines .plain t.lines).1 := by
  rw [← codeOf_feed_lines]
  rcases feed_lines h with h | h
  · rw [h]
  · rw [h, codeOf_feed]

lemma lines_flat_append {l : Text} (h : Flat l) (t : Text) : lines (l ++ '\n' :: t) = l :: lines t := by
  induction l with
  | nil => rw [nil_append, lines.eq_3 _ _ (by simp), if_pos (by decide)]
  | cons c l ih =>
    have hc : isLineEnd c = false := h c mem_cons_self
    have hl := ih fun d hd => h d (mem_cons_of_mem _ hd)
    rw [cons_append, lines.eq_3, hc, hl]
    · rfl
    · rintro r rfl
      cases hc

lemma lines_feed (h : ∀ l ∈ ls, Flat l) : lines (feed ls) = ls := by
  induction ls with
  | nil => exact lines_nil
  | cons l ls ih =>
    obtain ⟨hl, hls⟩ := forall_mem_cons.mp h
    rw [feed_cons, lines_flat_append hl, ih hls]

lemma lines_unlines (h : ∀ l ∈ ls, Flat l) (hne : ls ≠ []) : lines (unlines ls ++ "\n") = ls := by
  have hfeed : unlines ls ++ "\n" = feed ls := unlines_feed hne
  rw [hfeed, lines_feed h]

/-- The scan stands at the start of a line in code or in a block comment. -/
def Mode.AtLine (m : Mode) : Prop := m = .plain ∨ m = .block

lemma atLine_nextLine (m : Mode) : m.nextLine.AtLine := by
  cases m <;> simp [Mode.nextLine, Mode.AtLine]

lemma atLine_scanLines (h : m.AtLine) (ls : List Text) : (scanLines m ls).2.AtLine := by
  induction ls generalizing m with
  | nil => exact h
  | cons l ls ih =>
    rw [scanLines_cons]
    exact ih (atLine_nextLine _)

lemma scan_blank (h : m.AtLine) {t : Text} (ht : isBlankLine t) : scan m t = ([], m) := by
  have hstep : ∀ c, isBlank c → m.step c = ([], m) := by
    intro c hc
    have hne : ∀ {d : Char}, isBlank d = false → (c == d) = false := by
      intro d hd
      rw [beq_eq_false_iff_ne]
      rintro rfl
      rw [hc] at hd
      cases hd
    rcases h with rfl | rfl
    · simp [Mode.step, solid, hc, hne (d := '/') (by decide), hne (d := '"') (by decide), hne (d := '\'') (by decide)]
    · simp [Mode.step, hne (d := '*') (by decide)]
  induction t with
  | nil => rfl
  | cons c t ih =>
    simp only [isBlankLine, all_cons, Bool.and_eq_true] at ht
    rw [scan, hstep c ht.1, ih ht.2]
    rfl

lemma scanLines_blank (h : m.AtLine) {ls : List Text} (hls : ∀ l ∈ ls, isBlankLine l) : scanLines m ls = ([], m) := by
  refine scan_blank h (isBlankLine_iff.mpr fun c hc => ?_)
  obtain ⟨l, hl, hc⟩ := mem_flatMap.mp hc
  rcases mem_append.mp hc with hc | hc
  · exact isBlankLine_iff.mp (hls l hl) c hc
  · rw [mem_singleton.mp hc]
    decide

/-! ## Comments -/

lemma scan_lineComment (h : '\n' ∉ t) : scan .lineComment t = ([], .lineComment) := by
  induction t with
  | nil => rfl
  | cons c t ih =>
    rw [mem_cons, not_or] at h
    obtain ⟨hc, ht⟩ := h
    have hstep : Mode.lineComment.step c = ([], .lineComment) := by simp [Mode.step, Ne.symm hc]
    rw [scan, hstep, ih ht]
    rfl

lemma scan_block (h : ¬"*/" <:+: t) : (scan .block t).1 = [] ∧ (scan .block t).2.nextLine = .block ∧ (scan .block t).2.flush = [] := by
  have hboth : ∀ (t : Text) (m : Mode), (m = .block ∧ ¬['*', '/'] <:+: t ∨ m = .star ∧ ¬['*', '/'] <:+: '*' :: t) →
      (scan m t).1 = [] ∧ (scan m t).2.nextLine = .block ∧ (scan m t).2.flush = [] := by
    intro t
    induction t with
    | nil =>
      rintro m (⟨rfl, -⟩ | ⟨rfl, -⟩)
      · exact ⟨rfl, rfl, rfl⟩
      · exact ⟨rfl, rfl, rfl⟩
    | cons c t ih =>
      have hnext : ¬['*', '/'] <:+: c :: t → ∀ m' : Mode, m' = (if c == '*' then .star else .block) →
          (scan m' t).1 = [] ∧ (scan m' t).2.nextLine = .block ∧ (scan m' t).2.flush = [] := by
        rintro hc m' rfl
        by_cases hstar : c = '*'
        · subst hstar
          exact ih .star (.inr ⟨rfl, hc⟩)
        · rw [if_neg (by simpa using hstar)]
          exact ih .block (.inl ⟨rfl, fun hm => hc (hm.trans (suffix_cons c t).isInfix)⟩)
      rintro m (⟨rfl, hm⟩ | ⟨rfl, hm⟩)
      · exact hnext hm _ rfl
      · have hslash : c ≠ '/' := by
          rintro rfl
          exact hm ⟨[], t, rfl⟩
        have hc : ¬['*', '/'] <:+: c :: t := fun hi => hm (hi.trans (suffix_cons '*' _).isInfix)
        have hstep : Mode.star.step c = ([], if c == '*' then .star else .block) := by simp [Mode.step, hslash]
        rw [scan, hstep]
        exact hnext hc _ rfl
  exact hboth t .block (.inl ⟨rfl, h⟩)

lemma scan_blockOpen (t : Text) : scan .plain ("/*" ++ t) = scan .block t := rfl

lemma scan_comment (h : ¬"*/" <:+: t ++ ['*']) : scan .plain ("/*" ++ t ++ "*/") = ([], .plain) := by
  have hopen : scan .plain ("/*" ++ t ++ "*/") = scan .block (t ++ ['*'] ++ ['/']) := by
    rw [append_assoc, append_assoc]
    rfl
  have hbody : ∀ (m : Mode), (scan m t).1 = [] → ((scan m t).2 = .block ∨ (scan m t).2 = .star) →
      scan m (t ++ ['*']) = ([], .star) := by
    intro m hnil hmode
    rw [scan_append, hnil]
    rcases hmode with hmode | hmode <;> rw [hmode] <;> rfl
  have ht : ¬"*/" <:+: t := fun hi => h (hi.trans (prefix_append _ _).isInfix)
  obtain ⟨hnil, hnext, -⟩ := scan_block ht
  have hmode : (scan .block t).2 = .block ∨ (scan .block t).2 = .star := by
    cases hm : (scan .block t).2 with
    | block => exact .inl rfl
    | star => exact .inr rfl
    | _ => rw [hm] at hnext; cases hnext
  rw [hopen, scan_append, hbody .block hnil hmode]
  rfl

lemma scanLines_block (h : ∀ l ∈ ls, ¬"*/" <:+: l) : scanLines .block ls = ([], .block) := by
  induction ls with
  | nil => rfl
  | cons l ls ih =>
    obtain ⟨hl, hls⟩ := forall_mem_cons.mp h
    obtain ⟨hnil, hnext, hflush⟩ := scan_block hl
    rw [scanLines_cons, hnil, hnext, hflush, ih hls]
    rfl

end FunctionDocs.Code
