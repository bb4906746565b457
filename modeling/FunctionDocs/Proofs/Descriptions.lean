import FunctionDocs.Proofs.Regenerate

/-!
# What becomes of a description

The description of a comment is the text above its first tag and the text under every tag that documents no parameter and no
result. A composed comment takes it over from the lines between the first and the last, and only from the first tag on; the
rest of the comment has no influence on what is composed.
-/

open List

namespace FunctionDocs.DocBlock

open Text

variable {ns : List (List Text)} {ts : List Text} {part : Part} {p : Parts} {a b l line row t tag : Text} {w : Text}
  {s : Parts × Part} {ls : List Text} {f : Source.Function}

/-! ## Stretches without white space -/

/-- Every stretch of one text that holds no white space occurs in the other. -/
def Carries (b a : Text) : Prop := ∀ w, (∀ c ∈ w, isBlank c = false) → w <:+: a → w <:+: b

lemma carries_part (h : a <:+: b) : Carries b a := fun _ _ hw => hw.trans h

lemma Carries.trans {c : Text} (hab : Carries b a) (hbc : Carries c b) : Carries c a := fun w hw ha => hbc w hw (hab w hw ha)

lemma carries_blank_append (hl : isBlankLine l) (t : Text) : Carries t (l ++ t) := by
  intro w hw hin
  induction l with
  | nil => exact hin
  | cons c l ih =>
    obtain ⟨hc, hl⟩ := isBlankLine_cons.mp hl
    rw [cons_append, infix_cons_iff] at hin
    rcases hin with hp | hin
    · rcases prefix_cons_iff.mp hp with rfl | ⟨v, rfl, -⟩
      · exact nil_infix
      · rw [hw c mem_cons_self] at hc
        cases hc
    · exact ih hl hin

lemma carries_append_blank {r : Text} (hr : isBlankLine r) (t : Text) : Carries t (t ++ r) := by
  intro w hw hin
  have hrev : isBlankLine r.reverse := by rwa [isBlankLine_reverse]
  have hin : w.reverse <:+: r.reverse ++ t.reverse := by
    rw [← reverse_append]
    exact reverse_infix.mpr hin
  exact reverse_infix.mp (carries_blank_append hrev t.reverse w.reverse (by simpa using hw) hin)

lemma carries_trim (t : Text) : Carries (trim t) t := by
  obtain ⟨l, r, hl, hr, ht⟩ := trim_split t
  nth_rewrite 2 [ht]
  exact (carries_append_blank hr _).trans (carries_blank_append hl _)

lemma infix_of_mem_words (h : w ∈ words t) : w <:+: t := by
  suffices ∀ word, w ∈ wordsFrom word t → w <:+: word.reverse ++ t from this [] h
  clear h
  intro word h
  fun_induction wordsFrom word t with
  | case1 => cases h
  | case2 word => rw [mem_singleton] at h; simp [h]
  | case3 word c r hc he ih =>
    rw [isEmpty_iff.mp he]
    exact (ih h).trans (suffix_cons c r).isInfix
  | case4 word c r hc he ih =>
    rcases mem_cons.mp h with rfl | h
    · exact (prefix_append _ _).isInfix
    · exact (ih h).trans ((suffix_cons c r).trans (suffix_append _ _)).isInfix
  | case5 word c r hc ih => simpa using ih h

lemma isBlankLine_of_carries (h : Carries [] a) : isBlankLine a := by
  rw [isBlankLine_iff]
  intro c hc
  by_contra hblank
  have hin := h [c] (by simpa using hblank) ((singleton_infix_iff c a).mpr hc)
  exact absurd (infix_nil.mp hin) (by simp)

/-- Every stretch of a text that holds no white space occurs in one of some texts. -/
def ToldIn (ts : List Text) (a : Text) : Prop :=
  ∀ w, w ≠ [] → (∀ c ∈ w, isBlank c = false) → w <:+: a → ∃ t ∈ ts, w <:+: t

lemma Carries.toldIn (h : Carries t a) (ht : t ∈ ts) : ToldIn ts a := fun w _ hw ha => ⟨t, ht, h w hw ha⟩

lemma toldIn_blank (h : isBlankLine a) (ts : List Text) : ToldIn ts a := by
  intro w hne hw ha
  obtain ⟨c, r, rfl⟩ := exists_cons_of_ne_nil hne
  have hc := hw c mem_cons_self
  rw [isBlankLine_iff.mp h c (ha.subset mem_cons_self)] at hc
  cases hc

lemma ToldIn.mono {us : List Text} (h : ToldIn ts a) (hsub : ∀ t ∈ ts, t ∈ us) : ToldIn us a := by
  intro w hne hw ha
  obtain ⟨t, ht, hin⟩ := h w hne hw ha
  exact ⟨t, hsub t ht, hin⟩

lemma ToldIn.of_carries (h : ToldIn ts b) (hba : Carries b a) : ToldIn ts a := fun w hne hw ha => h w hne hw (hba w hw ha)

/-! ## The description of a comment -/

def isMark (c : Char) : Bool := c == '/' || c == '*'

def lineText (l : Text) : Text := trim ((trim l).dropWhile isMark)

def lastText (l : Text) : Text := lineText (if endsWith (trim l) "*/" then dropRight isMark (trim l) else l)

def lineTexts (comment : Text) : List Text :=
  (trim comment).lines.dropLast.map lineText ++ (trim comment).lines.getLast?.toList.map lastText

def tagOf (row : Text) : Text := if startsWith row "@" then (row.drop 1).takeWhile isWordChar else []

def behindTag (row : Text) : Text := if (tagOf row).isEmpty then row else row.drop (1 + (tagOf row).length)

def valueTags : List Text := ["param", "tparam", "return", "returns"]

/-- The description on each line; `inside` tells that a line without a tag belongs to it. -/
def descriptions (inside : Bool) : List Text → List Text
  | [] => []
  | row :: rows =>
    let inside := if (tagOf row).isEmpty then inside else !valueTags.contains (tagOf row)
    (if inside then behindTag row else []) :: descriptions inside rows

def descriptionWords (comment : Text) : List Text := (descriptions true (lineTexts comment)).flatMap words

/-- A row with a tag whose text is taken for description: `@brief`, `@note` or a tag that begins as none of those for
parameters and results. -/
def describes (row : Text) : Bool :=
  startsWith row "@brief" || startsWith row "@note" ||
    (!startsWithAny row ["@param", "@tparam", "@return"] && !(tagOf row).isEmpty)

/-- Which rows are taken for description: those from a row with a tag for it up to the next row with a tag. -/
def takenFrom (taken : Bool) : List Text → List Bool
  | [] => []
  | row :: rows =>
    let taken := if startsWith row "@" then describes row else taken
    taken :: takenFrom taken rows

def innerLines (comment : Text) : List Text := ((trim comment).lines.drop 1).dropLast

/-- Which lines of a comment are taken for description: none above the first tag, and neither the first line nor the last. -/
def takenLines (comment : Text) : List Bool :=
  false :: takenFrom false ((innerLines comment).map readRow) ++ [false]

def missedWords (comment : Text) : List Text :=
  ((descriptions true (lineTexts comment)).zip (takenLines comment)).flatMap fun n => if n.2 then [] else words n.1

/-! ## Reading one row -/

def Parts.described (p : Parts) : List Text := p.brief ++ p.notes.flatten ++ p.others.flatMap (·.2)

def Part.describing : Part → Bool
  | .brief | .note | .other _ => true
  | _ => false

/-- There is a note to continue if notes are under way. -/
def Ready (s : Parts × Part) : Prop := s.2 = .note → s.1.notes ≠ []

lemma ready_of_ne (h : part ≠ .note) : Ready (p, part) := fun hnote => absurd hnote h

lemma mem_flatten_addToLast (h : t ∈ ns.flatten) : t ∈ (addToLast line ns).flatten := by
  fun_induction addToLast line ns with
  | case1 => exact h
  | case2 n => simp only [flatten_singleton] at h ⊢; exact mem_append_left _ h
  | case3 n ns _ ih =>
    rw [flatten_cons, mem_append] at h ⊢
    exact h.imp_right ih

lemma line_mem_addToLast (h : ns ≠ []) : line ∈ (addToLast line ns).flatten := by
  fun_induction addToLast line ns with
  | case1 => exact absurd rfl h
  | case2 n => simp
  | case3 n ns hne ih =>
    rw [flatten_cons, mem_append]
    exact .inr (ih hne)

lemma addToLast_ne_nil (h : ns ≠ []) : addToLast line ns ≠ [] := by
  fun_induction addToLast line ns with
  | case1 => exact h
  | case2 => simp
  | case3 => simp

lemma mem_flatMap_addLine {name : Text} {ns : Notes} (h : t ∈ ns.flatMap (·.2)) : t ∈ (addLine name line ns).flatMap (·.2) := by
  induction ns with
  | nil => cases h
  | cons n ns ih =>
    rw [flatMap_cons, mem_append] at h
    rw [addLine]
    split
    · rw [flatMap_cons, mem_append]
      exact h.imp_left (mem_append_left _)
    · rw [flatMap_cons, mem_append]
      exact h.imp_right ih

lemma line_mem_addLine (name line : Text) (ns : Notes) : line ∈ (addLine name line ns).flatMap (·.2) := by
  induction ns with
  | nil => simp [addLine]
  | cons n ns ih =>
    rw [addLine]
    split
    · simp
    · rw [flatMap_cons, mem_append]
      exact .inr ih

lemma prefix_tagOf (h : '@' :: tag <+: row) (htag : ∀ c ∈ tag, isWordChar c) : tag <+: tagOf row := by
  obtain ⟨r, rfl⟩ := h
  have hat : startsWith ('@' :: tag ++ r) "@" := rfl
  rw [tagOf, cons_append, drop_one, tail_cons, takeWhile_append_of_pos htag]
  exact prefix_append _ _

lemma behindTag_suffix (h : '@' :: tag <+: row) (htag : ∀ c ∈ tag, isWordChar c) (hne : tag ≠ []) :
    behindTag row <:+ row.drop (1 + tag.length) := by
  have hp := prefix_tagOf h htag
  have hlen := hp.length_le
  have hnot : ¬(tagOf row).isEmpty := by
    intro hempty
    rw [isEmpty_iff.mp hempty] at hp
    exact hne (prefix_nil.mp hp)
  have hsplit : 1 + (tagOf row).length = 1 + tag.length + ((tagOf row).length - tag.length) := by omega
  rw [behindTag, if_neg hnot, hsplit, ← drop_drop]
  exact drop_suffix _ _

/-- The text of a row without its tag, if it has one that is read. -/
def spoken (row : Text) : Text := if startsWith row "@" then behindTag row else row

/-- One row: what was described stays, and a row that is taken for description is described by then. -/
structure Takes (s : Parts × Part) (row : Text) (s' : Parts × Part) : Prop where
  kept : ∀ t ∈ s.1.described, t ∈ s'.1.described
  ready : Ready s'
  taken : s'.2.describing = if startsWith row "@" then describes row else s.2.describing
  told : s'.2.describing = true → ToldIn s'.1.described (spoken row)

lemma startsWith_sign (h : startsWith row ('@' :: tag)) : startsWith row "@" := by
  rw [startsWith_iff] at h ⊢
  exact (prefix_append ['@'] tag).trans h

lemma takes_nothing {s' : Parts × Part} (hsame : s'.1.described = s.1.described) (hpart : s'.2.describing = false)
    (htaken : (if startsWith row "@" then describes row else s.2.describing) = false) : Takes s row s' := by
  refine ⟨fun t ht => hsame ▸ ht, fun hnote => ?_, hpart.trans htaken.symm, fun htrue => ?_⟩
  · rw [hnote] at hpart
    cases hpart
  · rw [hpart] at htrue
    cases htrue

lemma takes_continueWith (hready : Ready (p, part))
    (hat : startsWith row "@" = false) : Takes (p, part) row (p.continueWith part row, part) := by
  have hspoken : spoken row = row := by rw [spoken, hat]; rfl
  have hcarries : Carries row (spoken row) := by
    rw [hspoken]
    exact carries_part (infix_refl row)
  have htaken : part.describing = if startsWith row "@" then describes row else part.describing := by rw [hat]; rfl
  cases part with
  | none => exact takes_nothing rfl rfl htaken.symm
  | param name => exact takes_nothing rfl rfl htaken.symm
  | tparam name => exact takes_nothing rfl rfl htaken.symm
  | result => exact takes_nothing rfl rfl htaken.symm
  | brief =>
    refine ⟨fun t ht => ?_, ready_of_ne (by simp), htaken, fun _ => hcarries.toldIn ?_⟩
    · simp only [Parts.described, Parts.continueWith, mem_append] at ht ⊢
      tauto
    · simp [Parts.described, Parts.continueWith]
  | note =>
    have hne : p.notes ≠ [] := hready rfl
    refine ⟨fun t ht => ?_, fun _ => addToLast_ne_nil hne, htaken, fun _ => hcarries.toldIn ?_⟩
    · simp only [Parts.described, Parts.continueWith, mem_append] at ht ⊢
      exact ht.imp_left (Or.imp_right mem_flatten_addToLast)
    · simp only [Parts.described, Parts.continueWith, mem_append]
      exact .inl (Or.inr (line_mem_addToLast hne))
  | other tag =>
    refine ⟨fun t ht => ?_, ready_of_ne (by simp), htaken, fun _ => hcarries.toldIn ?_⟩
    · simp only [Parts.described, Parts.continueWith, mem_append] at ht ⊢
      exact ht.imp_right mem_flatMap_addLine
    · simp only [Parts.described, mem_append]
      exact .inr (line_mem_addLine tag row p.others)

lemma takes_read (hflat : Flat row) (hready : Ready (p, part)) : Takes (p, part) row (p.read part row) := by
  have hcarries : ∀ {tag : Text}, '@' :: tag <+: row → (∀ c ∈ tag, isWordChar c) → tag ≠ [] →
      Carries (trim (row.drop (1 + tag.length))) (spoken row) := by
    intro tag hp htag hne
    have hat : startsWith row "@" := startsWith_sign (startsWith_iff.mpr hp)
    rw [spoken, hat]
    exact (carries_part (behindTag_suffix hp htag hne).isInfix).trans (carries_trim _)
  -- A tag for a parameter or for the result is not taken for description.
  have hvalue : ∀ {tag : Text}, tag ∈ (["@param", "@tparam", "@return"] : List Text) → startsWith row tag →
      (if startsWith row "@" then describes row else part.describing) = false := by
    intro tag htag hp
    have hany : startsWithAny row ["@param", "@tparam", "@return"] := any_eq_true.mpr ⟨tag, htag, hp⟩
    obtain ⟨r, rfl⟩ := startsWith_iff.mp hp
    simp only [mem_cons, not_mem_nil, or_false] at htag
    rcases htag with rfl | rfl | rfl <;> rw [describes, hany] <;> rfl
  have htag : startsWith row "@" → (row.drop 1).takeWhile isWordChar = tagOf row := fun hat => by rw [tagOf, if_pos hat]
  -- Behind all other tags, the row is taken if there is a word behind the sign.
  have hother : ¬startsWith row "@brief" → ¬startsWith row "@param" → ¬startsWith row "@tparam" → ¬startsWith row "@return" →
      ¬startsWith row "@note" → describes row = !(tagOf row).isEmpty := by
    intro hbrief hparam htparam hreturn hnote
    have hnot : ∀ {head : Text}, ¬startsWith row head → startsWith row head = false := by simp
    rw [describes, hnot hbrief, hnot hnote, startsWithAny, any_cons, any_cons, any_cons, hnot hparam, hnot htparam, hnot hreturn]
    rfl
  fun_cases Parts.read p part row with
  | case1 hbrief =>
    have htold := hcarries (startsWith_iff.mp hbrief) (by decide) (by decide)
    refine ⟨fun t ht => ?_, ready_of_ne (by simp), ?_, fun _ => htold.toldIn ?_⟩
    · simp only [Parts.described, mem_append] at ht ⊢
      exact ht.imp_left (Or.imp_left .inl)
    · rw [startsWith_sign hbrief, if_pos rfl, describes, hbrief]
      rfl
    · simp [Parts.described]
  | case2 _ hparam | case3 _ hparam => exact takes_nothing rfl rfl (hvalue (by simp) hparam)
  | case4 _ _ htparam | case5 _ _ htparam => exact takes_nothing rfl rfl (hvalue (by simp) htparam)
  | case6 _ _ _ hreturn => exact takes_nothing rfl rfl (hvalue (by simp) hreturn)
  | case7 _ _ _ _ hnote =>
    refine ⟨fun t ht => ?_, fun _ => by simp, ?_, fun _ => ?_⟩
    · simp only [Parts.described, flatten_append, mem_append] at ht ⊢
      exact ht.imp_left (Or.imp_right .inl)
    · rw [startsWith_sign hnote, if_pos rfl, describes, hnote, Bool.or_true]
      rfl
    · have htold := hcarries (startsWith_iff.mp hnote) (by decide) (by decide)
      change Carries (trim (row.drop 5)) (spoken row) at htold
      by_cases hempty : trim (row.drop 5) = []
      · rw [hempty] at htold
        exact toldIn_blank (isBlankLine_of_carries htold) _
      · refine htold.toldIn ?_
        have hown : ownLines (trim (row.drop 5)) = [trim (row.drop 5)] := by
          rw [ownLines, if_neg (by simpa using hempty), trim_trim]
        simp [Parts.described, hown]
  | case8 hbrief hparam htparam hreturn hnote hat tag hempty =>
    have htaken := hother hbrief hparam htparam hreturn hnote
    exact takes_nothing rfl rfl (by rw [hat, if_pos rfl, htaken, ← htag hat, hempty]; rfl)
  | case9 hbrief hparam htparam hreturn hnote hat tag hempty text =>
    have htaken := hother hbrief hparam htparam hreturn hnote
    have hrest : (row.drop 1).dropWhile isWordChar = spoken row := by
      rw [spoken, if_pos hat, behindTag, ← htag hat, if_neg hempty, ← drop_drop, Text.drop_takeWhile]
    have hline : text = Text.trimLeft (spoken row) := by
      rw [← hrest]
      refine firstLine_flat (hflat.of_subset ?_)
      exact ((dropWhile_suffix _).trans ((dropWhile_suffix _).trans (drop_suffix _ _))).subset
    have hleft : Carries text (spoken row) := by
      obtain ⟨l, hl, hsplit⟩ := trimLeft_split (spoken row)
      rw [hline]
      nth_rewrite 2 [hsplit]
      exact carries_blank_append hl _
    refine ⟨fun t ht => ?_, ready_of_ne (by simp), ?_, fun _ => (hleft.trans (carries_trim _)).toldIn ?_⟩
    · simp only [Parts.described, mem_append] at ht ⊢
      exact ht.imp_right mem_flatMap_addLine
    · rw [hat, if_pos rfl, htaken, ← htag hat]
      exact congrArg not (Bool.eq_false_iff.mpr hempty).symm
    · simp only [Parts.described, mem_append]
      exact .inr (line_mem_addLine _ _ p.others)
  | case10 _ _ _ _ _ hat => exact takes_continueWith hready (by simpa using hat)

/-! ## All rows -/

lemma startsWith_trim_cons {c : Char} (hc : isBlank c = false) (t : Text) : startsWith (trim (c :: t)) [c] := by
  rw [trim_eq_trimRight (by rintro d ⟨⟩; exact hc), startsWith_iff]
  exact ⟨trimRight t, (trimRight_append_of_last (by rintro d ⟨⟩; exact hc) t).symm⟩

lemma lineText_eq (l : Text) : lineText l = trim (((trim l).dropWhile (· == '*')).dropWhile isMark) := by
  have hmarks : ∀ t : Text, t.dropWhile isMark = (t.dropWhile (· == '*')).dropWhile isMark := by
    intro t
    induction t with
    | nil => rfl
    | cons c t ih =>
      by_cases hc : c = '*'
      · have hmark : isMark '*' := rfl
        rw [hc, dropWhile_cons_of_pos hmark, dropWhile_cons_of_pos (by rfl), ih]
      · have hkeep : (c :: t).dropWhile (· == '*') = c :: t := dropWhile_cons_of_neg (by simpa using hc)
        rw [hkeep]
  rw [lineText, ← hmarks]

lemma carries_readRow (l : Text) : Carries (spoken (readRow l)) (behindTag (lineText l)) := by
  rw [readRow_eq, lineText_eq]
  generalize (trim l).dropWhile (· == '*') = t
  rw [spoken]
  split
  next hat =>
    -- The tag stands right behind the stars, so that no further mark is dropped.
    have hsame : t.dropWhile isMark = t := by
      cases t with
      | nil => rfl
      | cons c t =>
        by_cases hc : isMark c
        · have hblank : isBlank c = false := by
            rcases Bool.or_eq_true_iff.mp hc with hc | hc <;> rw [beq_iff_eq.mp hc] <;> rfl
          have hhead := startsWith_iff.mp (startsWith_trim_cons hblank t)
          have hsame := prefix_of_prefix_length_le hhead (startsWith_iff.mp hat) (le_refl 1)
          rw [(cons_prefix_cons.mp hsame).1] at hc
          exact absurd hc (by decide)
        · rw [dropWhile_cons_of_neg hc]
    rw [hsame]
    exact carries_part (infix_refl _)
  · have hmarks : Carries (trim t) (trim (t.dropWhile isMark)) :=
      (carries_part ((infix_trim _).trans (dropWhile_suffix _).isInfix)).trans (carries_trim t)
    refine (carries_part ?_).trans hmarks
    rw [behindTag]
    split
    · exact infix_refl _
    · exact (drop_suffix _ _).isInfix

lemma readAll_told {inside : Bool} (hflat : ∀ l ∈ ls, Flat l) (hready : Ready s) :
    (∀ t ∈ s.1.described, t ∈ (readAll s (ls.map readRow)).1.described) ∧
      ∀ n ∈ (descriptions inside (ls.map lineText)).zip (takenFrom s.2.describing (ls.map readRow)), n.2 →
        ToldIn (readAll s (ls.map readRow)).1.described n.1 := by
  induction ls generalizing s inside with
  | nil => exact ⟨fun t ht => ht, by simp [descriptions]⟩
  | cons l ls ih =>
    obtain ⟨hl, hls⟩ := forall_mem_cons.mp hflat
    have hrow : Flat (readRow l) := (flat_dropStars (hl.of_subset (trim_subset l))).of_subset (trim_subset _)
    have hstep : Takes s (readRow l) (s.1.read s.2 (readRow l)) := takes_read hrow hready
    rw [map_cons, map_cons, readAll_cons, descriptions, takenFrom, ← hstep.taken]
    generalize (if (tagOf (lineText l)).isEmpty then inside else !valueTags.contains (tagOf (lineText l))) = inside'
    obtain ⟨hkept, htold⟩ := @ih _ inside' hls hstep.ready
    refine ⟨fun t ht => hkept t (hstep.kept t ht), ?_⟩
    rw [zip_cons_cons, forall_mem_cons]
    refine ⟨fun htaken => ?_, htold⟩
    dsimp only
    split
    · exact ((hstep.told htaken).of_carries (carries_readRow l)).mono hkept
    · exact toldIn_blank rfl _

/-! ## What is composed -/

lemma infix_joinWith {sep t : Text} {ts : List Text} (h : t ∈ ts) : t <:+: joinWith sep ts := by
  fun_induction joinWith sep ts with
  | case1 => cases h
  | case2 u => rw [mem_singleton.mp h]
  | case3 u v r ih =>
    rcases mem_cons.mp h with rfl | h
    · rw [append_assoc]
      exact (prefix_append _ _).isInfix
    · exact (ih h).trans (suffix_append _ _).isInfix

lemma carries_layOut {m : Text} (h : l ∈ ls) : Carries (layOut m ls) l := by
  cases ls with
  | nil => cases h
  | cons k ls =>
    rw [layOut_cons]
    have hin := carries_part (@infix_joinWith ('\n' :: m) _ _ (mem_map_of_mem (f := trim) h))
    exact ((carries_trim l).trans hin).trans (carries_trim _)

def heard (comment : Text) : Parts := (readAll ({}, .none) ((innerLines comment).map readRow)).1

lemma partsOfDoxygen_eq (comment : Text) : partsOfDoxygen (trim comment) = (heard comment).texts := by
  rw [partsOfDoxygen, Parts.ofLines, heard, readAll, foldl_map, foldl_map]
  rfl

lemma saidOf_eq (h : f.isDoxygen) :
    saidOf (.ofFunction f) =
      if (heard f.comment).texts.brief.isEmpty then { (heard f.comment).texts with brief := todoDescription f.name }
      else (heard f.comment).texts := by
  have hsaid : saidOf (.ofFunction f) = saidBy f.name (trim f.comment) f.isDoxygen := rfl
  rw [hsaid, saidBy, h, ← partsOfDoxygen_eq]
  by_cases hempty : trim f.comment = []
  · rw [hempty]
    rfl
  · simp [hempty]

lemma infix_block_of_described (hdoxygen : f.isDoxygen) {t : Text}
    (ht : t ∈ (heard f.comment).described) (hne : w ≠ []) (hw : ∀ c ∈ w, isBlank c = false) (hin : w <:+: t) :
    w <:+: block (paragraphs (Entry.ofFunction f)) := by
  have hfeed : '\n' ∉ w := fun hmem => absurd (hw _ hmem) (by decide)
  suffices ∃ p ∈ paragraphs (Entry.ofFunction f), w <:+: p by
    exact (infix_below_iff hfeed _).mpr (Or.inr (Or.inl this))
  have hsaid := saidOf_eq hdoxygen
  simp only [Parts.described, mem_append] at ht
  rcases ht with (hbrief | hnote) | hother
  · have hlaid : w <:+: (heard f.comment).texts.brief := carries_layOut hbrief w hw hin
    have hkeep : ¬(heard f.comment).texts.brief.isEmpty := by
      intro hempty
      rw [isEmpty_iff.mp hempty] at hlaid
      exact hne (infix_nil.mp hlaid)
    rw [if_neg hkeep] at hsaid
    refine ⟨" * @brief " ++ (saidOf (Entry.ofFunction f)).brief, by simp [paragraphs], ?_⟩
    rw [hsaid]
    exact hlaid.trans (suffix_append _ _).isInfix
  · have hnotes : (saidOf (Entry.ofFunction f)).notes = (heard f.comment).texts.notes := by
      rw [hsaid]
      split <;> rfl
    obtain ⟨n, hn, htn⟩ := mem_flatten.mp hnote
    have hlaid : w <:+: trim (heard f.comment).texts.notes := by
      have hnote := carries_part (@infix_joinWith ['\n'] _ _ (mem_map_of_mem (f := layOut margin) hn))
      exact (((carries_layOut htn).trans hnote).trans (carries_trim _)) w hw hin
    have hkeep : ¬(trim (heard f.comment).texts.notes).isEmpty := by
      intro hempty
      rw [isEmpty_iff.mp hempty] at hlaid
      exact hne (infix_nil.mp hlaid)
    refine ⟨" * @note " ++ trim (heard f.comment).texts.notes, ?_, hlaid.trans (suffix_append _ _).isInfix⟩
    simp only [paragraphs, mem_append]
    refine .inl (Or.inr ?_)
    rw [hnotes, notesParagraph, if_neg hkeep]
    exact mem_singleton_self _
  · have hothers : (saidOf (Entry.ofFunction f)).others = (heard f.comment).others := by
      rw [hsaid]
      split <;> rfl
    obtain ⟨n, hn, htn⟩ := mem_flatMap.mp hother
    suffices ∃ p ∈ otherLines n, w <:+: p by
      obtain ⟨p, hp, hwp⟩ := this
      refine ⟨p, ?_, hwp⟩
      simp only [paragraphs, mem_append]
      rw [hothers]
      exact .inr (mem_flatMap.mpr ⟨n, hn, hp⟩)
    have htrim : w <:+: trim t := carries_trim t w hw hin
    rw [otherLines]
    cases hls : n.2 with
    | nil =>
      rw [hls] at htn
      cases htn
    | cons l ls =>
      rw [hls] at htn
      rcases mem_cons.mp htn with rfl | htn
      · exact ⟨_, mem_cons_self, htrim.trans (suffix_append _ _).isInfix⟩
      · exact ⟨margin ++ trim t, mem_cons_of_mem _ (mem_map_of_mem (f := fun l => margin ++ trim l) htn),
          htrim.trans (suffix_append _ _).isInfix⟩

/-- The comment of the lines that are heard: those from the first tag on. -/
def heardPart (comment : Text) : Text := block ((innerLines comment).dropWhile fun l => !startsWith (readRow l) "@")

lemma flat_innerLines (comment : Text) : ∀ l ∈ innerLines comment, Flat l := fun _ hl =>
  (mem_lines (mem_of_mem_drop (dropLast_subset _ hl))).2

lemma heard_heardPart (comment : Text) : heard (heardPart comment) = heard comment := by
  have hsuffix := dropWhile_suffix (fun l => !startsWith (readRow l) "@") (l := innerLines comment)
  have hflat : ∀ l ∈ (innerLines comment).dropWhile fun l => !startsWith (readRow l) "@", Flat l := fun l hl =>
    flat_innerLines comment l (hsuffix.subset hl)
  have hinner : innerLines (heardPart comment) = (innerLines comment).dropWhile fun l => !startsWith (readRow l) "@" := by
    rw [innerLines, heardPart, trim_block, lines_block fun l hl => fed_of_flat (hflat l hl), cons_append, drop_one,
      tail_cons, dropLast_concat]
    exact (flatMap_congr fun l hl => splitOnChar_of_not_mem (hflat l hl).not_mem).trans (flatMap_singleton' _)
  have habove : ∀ {ls : List Text}, (∀ l ∈ ls, startsWith (readRow l) "@" = false) →
      readAll ({}, .none) (ls.map readRow) = ({}, .none) := by
    intro ls hls
    induction ls with
    | nil => rfl
    | cons l ls ih =>
      obtain ⟨hl, hls⟩ := forall_mem_cons.mp hls
      rw [map_cons, readAll_cons, read_tagless hl]
      exact ih hls
  have hrows : readAll ({}, .none) ((innerLines comment).map readRow) =
      readAll ({}, .none) (((innerLines comment).dropWhile fun l => !startsWith (readRow l) "@").map readRow) := by
    nth_rewrite 1 [← takeWhile_append_dropWhile (p := fun l => !startsWith (readRow l) "@") (l := innerLines comment)]
    rw [map_append, readAll_append, habove fun l hl => by simpa using mem_takeWhile_imp hl]
  rw [heard, hinner, heard, hrows]

/-! ## The description as a whole -/

lemma descriptions_length (inside : Bool) (rows : List Text) : (descriptions inside rows).length = rows.length := by
  induction rows generalizing inside with
  | nil => rfl
  | cons row rows ih => simp [descriptions, ih]

def insideBelow (inside : Bool) (rows : List Text) : Bool :=
  rows.foldl (fun inside row => if (tagOf row).isEmpty then inside else !valueTags.contains (tagOf row)) inside

lemma descriptions_append (inside : Bool) (rows more : List Text) :
    descriptions inside (rows ++ more) = descriptions inside rows ++ descriptions (insideBelow inside rows) more := by
  induction rows generalizing inside with
  | nil => rfl
  | cons row rows ih => simp [descriptions, insideBelow, ih]

lemma takenFrom_length (taken : Bool) (rows : List Text) : (takenFrom taken rows).length = rows.length := by
  induction rows generalizing taken with
  | nil => rfl
  | cons row rows ih => simp [takenFrom, ih]

lemma lineTexts_length_le (comment : Text) : (descriptions true (lineTexts comment)).length ≤ (takenLines comment).length := by
  have hlast : (trim comment).lines.getLast?.toList.length ≤ 1 := by
    cases (trim comment).lines.getLast? <;> simp
  simp only [descriptions_length, lineTexts, takenLines, innerLines, takenFrom_length, length_append, length_map,
    length_dropLast, length_drop, length_cons]
  omega

lemma taken_told (comment : Text) :
    ∀ n ∈ (descriptions true (lineTexts comment)).zip (takenLines comment), n.2 → ToldIn (heard comment).described n.1 := by
  rw [lineTexts, takenLines, heard, innerLines]
  have hflat : ∀ l ∈ (trim comment).lines, Flat l := fun l hl => (mem_lines hl).2
  generalize (trim comment).lines = ls at hflat
  cases ls with
  | nil => simp [descriptions]
  | cons first ls =>
    rcases eq_nil_or_concat' ls with rfl | ⟨inner, last, rfl⟩
    · simp [descriptions, takenFrom]
    · have hinner : ∀ l ∈ inner, Flat l := fun l hl => hflat l (by simp [hl])
      have hlast : (first :: (inner ++ [last])).getLast? = some last := by
        rw [← cons_append, getLast?_concat]
      have hupper : (first :: (inner ++ [last])).dropLast = first :: inner := by
        rw [← cons_append, dropLast_concat]
      have hmiddle : ((first :: (inner ++ [last])).drop 1).dropLast = inner := dropLast_concat
      rw [hlast, hupper, hmiddle, map_cons, cons_append, descriptions, descriptions_append,
        cons_append, zip_cons_cons, zip_append (by simp [descriptions_length, takenFrom_length])]
      intro n hn htaken
      rcases mem_cons.mp hn with rfl | hn
      · cases htaken
      · rcases mem_append.mp hn with hn | hn
        · exact (readAll_told hinner (s := ({}, .none)) nofun).2 n hn htaken
        · rw [mem_singleton.mp (of_mem_zip hn).2] at htaken
          cases htaken

/-- The comment of a function with a Doxygen comment is composed from its lines from the first tag on, the last one apart, and
keeps all words of the description exactly when it keeps those on the lines that are not taken for description. -/
theorem compose_description_kept_iff (f : Source.Function) (hdoxygen : f.isDoxygen = true) :
    ∃ out, compose (Entry.ofFunction f) = .ok out ∧
      compose (Entry.ofFunction { f with comment := heardPart f.comment }) = .ok out ∧
      ((∀ w ∈ descriptionWords f.comment, contains out w = true) ↔
        ∀ w ∈ missedWords f.comment, contains out w = true) := by
  refine ⟨_, compose_ofFunction f, ?_, ?_, ?_⟩
  · have hsaid : saidOf (Entry.ofFunction { f with comment := heardPart f.comment }) = saidOf (Entry.ofFunction f) := by
      rw [saidOf_eq hdoxygen, saidOf_eq (f := { f with comment := heardPart f.comment }) hdoxygen, heard_heardPart]
    rw [compose_ofFunction, paragraphs, paragraphs, hsaid]
    rfl
  · intro hall w hw
    obtain ⟨n, hn, hw⟩ := List.mem_flatMap.mp hw
    split at hw
    · cases hw
    · exact hall w (List.mem_flatMap.mpr ⟨n.1, (List.of_mem_zip hn).1, hw⟩)
  · intro hmissed w hw
    obtain ⟨d, hd, hw⟩ := List.mem_flatMap.mp hw
    rw [← List.map_fst_zip (lineTexts_length_le f.comment)] at hd
    obtain ⟨⟨d, taken⟩, hn, rfl⟩ := List.mem_map.mp hd
    cases taken with
    | false => exact hmissed w (List.mem_flatMap.mpr ⟨(d, false), hn, hw⟩)
    | true =>
      rw [contains_iff]
      by_cases hne : w = []
      · rw [hne]
        exact List.nil_infix
      · obtain ⟨t, ht, hin⟩ := taken_told f.comment _ hn rfl w hne (mem_words hw) (infix_of_mem_words hw)
        exact infix_block_of_described hdoxygen ht hne (mem_words hw) hin

def toldText : Text :=
  "/**\n * @brief adds\n *        one\n * @note fast\n * @see sub\n */\nint add(int a) \x7b\n\x7d\n"

/-- The function of `toldText`. -/
def toldFunction : Source.Function :=
  ⟨"add", "int", "int a", false,
    "/**\n * @brief adds\n *        one\n * @note fast\n * @see sub\n */",
    true, [], 6, 1, false, none⟩

/-- The description of `toldFunction` stands on lines that are taken for it. -/
theorem told_description_kept :
    Source.functionsOf toldText [] = .ok [toldFunction] ∧
      descriptionWords toldFunction.comment =
        ["adds".toList, "one".toList, "fast".toList, "sub".toList] ∧
      ∃ out, compose (Entry.ofFunction toldFunction) = .ok out ∧
        ∀ w ∈ descriptionWords toldFunction.comment, contains out w = true := by
  have hmissed : missedWords toldFunction.comment = [] := by decide
  have hfound : Source.functionsOf toldText [] = .ok [toldFunction] := by decide
  obtain ⟨out, hout, -, hiff⟩ := compose_description_kept_iff toldFunction rfl
  rw [hmissed] at hiff
  exact ⟨hfound, by decide, out, hout, hiff.mpr fun _ => nofun⟩

def oneLineDoxygen : Text := "/** adds */\nint add(int a) \x7b\n  return a;\n\x7d\n"

/-- The function of `oneLineDoxygen`. -/
def oneLineDocumented : Source.Function :=
  ⟨"add", "int", "int a", false, "/** adds */", true, [], 1, 1, false, none⟩

/-- The description of a Doxygen comment on one line is not taken over. -/
theorem oneLine_description_lost :
    Source.functionsOf oneLineDoxygen [] = .ok [oneLineDocumented] ∧
      "adds".toList ∈ descriptionWords oneLineDocumented.comment ∧
      compose (Entry.ofFunction oneLineDocumented) =
        .ok "/**\n * @brief TODO add description.\n * @param a TODO\n * @return TODO\n */".toList ∧
      contains "/**\n * @brief TODO add description.\n * @param a TODO\n * @return TODO\n */".toList "adds" = false := by
  decide

end FunctionDocs.DocBlock
