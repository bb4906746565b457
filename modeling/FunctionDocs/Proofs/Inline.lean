import FunctionDocs.Proofs.Segments

/-!
# Comments within a line

Comments within a line are dropped part by part if all of them are closed, and white space around a line does not matter to the code
in it. A line without a closing brace is not split: it gives one joined line, or none if there is no code on it.
-/

open List

namespace FunctionDocs.Source

open Text Pattern

variable {j : Joined} {t : Text}

lemma closeLength_append {n : Nat} (h : closeLength t = some n) (u : Text) : closeLength (t ++ u) = some n := by
  fun_induction closeLength t generalizing n with
  | case1 => cases h
  | case2 r => exact h
  | case3 => cases h
  | case4 c r hc hfeed ih =>
    obtain ⟨m, hm, rfl⟩ := Option.map_eq_some_iff.mp h
    cases r with
    | nil => cases hm
    | cons d r =>
      have hopen : ∀ v, c = '*' → d :: (r ++ u) = '/' :: v → False := by
        rintro v rfl hv
        cases hv
        exact hc r rfl rfl
      have hrest := ih hm
      rw [cons_append] at hrest
      rw [cons_append, cons_append, closeLength, if_neg hfeed, hrest]
      · rfl
      · exact hopen

lemma inlineLength_append {n : Nat} (h : inlineLength t = some n) (u : Text) : inlineLength (t ++ u) = some n := by
  unfold inlineLength at h
  split at h
  · obtain ⟨m, hm, rfl⟩ := Option.map_eq_some_iff.mp h
    rw [cons_append, cons_append, inlineLength, closeLength_append hm]
    rfl
  · cases h

lemma inlineLength_of_ne {c : Char} (hc : c ≠ '/') (r : Text) : inlineLength (c :: r) = none := by
  rw [inlineLength]
  rintro r' hr'
  cases hr'
  exact hc rfl

lemma dropInline_of_not_mem (h : '/' ∉ t) : dropInline t = t := by
  induction t with
  | nil => rfl
  | cons c r ih =>
    obtain ⟨hc, hr⟩ := ne_and_not_mem_of_not_mem_cons h
    rw [dropInline_cons, inlineLength_of_ne (symm hc), ih hr]

lemma dropInline_append (h : '/' ∉ dropInline t) (u : Text) : dropInline (t ++ u) = dropInline t ++ dropInline u := by
  induction hn : t.length using Nat.strong_induction_on generalizing t with
  | _ k ih =>
    subst hn
    cases t with
    | nil => rfl
    | cons c r =>
      rw [dropInline_cons] at h
      rw [cons_append, dropInline_cons, dropInline_cons]
      cases hlen : inlineLength (c :: r) with
      | some n =>
        rw [hlen] at h
        obtain ⟨x, hx, hn⟩ := inlineLength_eq_some hlen
        have hle : n ≤ (c :: r).length := by
          by_contra hgt
          rw [hn, hx] at hgt
          simp at hgt
        have hall := inlineLength_append hlen u
        rw [cons_append] at hall
        rw [hall]
        dsimp only at h ⊢
        rw [← cons_append, drop_append_of_le_length hle]
        exact ih _ (by rw [length_drop]; omega) h rfl
      | none =>
        rw [hlen] at h
        obtain ⟨hc, hr⟩ := ne_and_not_mem_of_not_mem_cons h
        rw [inlineLength_of_ne (symm hc)]
        exact congrArg _ (ih _ (by simp) hr rfl)

lemma not_mem_of_isBlankLine (h : isBlankLine t) {c : Char} (hc : isBlank c = false) : c ∉ t := by
  intro hmem
  rw [isBlankLine_iff.mp h c hmem] at hc
  cases hc

lemma trim_dropInline_trim {l : Text} (h : '/' ∉ dropInline (trim l)) : trim (dropInline l) = trim (dropInline (trim l)) := by
  obtain ⟨u, w, hu, hw, hl⟩ := trim_split l
  have huslash : '/' ∉ u := not_mem_of_isBlankLine hu rfl
  have hwslash : '/' ∉ w := not_mem_of_isBlankLine hw rfl
  have hfirst : dropInline u = u := dropInline_of_not_mem huslash
  have hleft : dropInline (u ++ trim l) = u ++ dropInline (trim l) := by
    rw [dropInline_append (by rwa [hfirst]), hfirst]
  have hwhole : dropInline l = u ++ dropInline (trim l) ++ w := by
    nth_rewrite 1 [hl]
    rw [dropInline_append, hleft, dropInline_of_not_mem hwslash]
    rw [hleft, mem_append, not_or]
    exact ⟨huslash, h⟩
  rw [hwhole, trim_append_blank hw, trim_blank_append hu]

/-! ## Lines with one definition -/

/-- No definition ends within a text and is followed by another one. -/
def Unbroken (t : Text) : Prop := ∀ s : Pattern.Place, s.rest <:+ t → definitionBreak.matchAt? s = none

lemma matchAt_definitionBreak {s : Pattern.Place} (h : ¬['}'] <+: s.rest) : definitionBreak.matchAt? s = none := by
  have hlit : ['}'].isPrefixOf s.rest = false := by rwa [← Bool.not_eq_true, isPrefixOf_iff_prefix]
  simp only [matchAt?, definitionBreak, Pattern.all, run, hlit]
  rfl

lemma unbroken_of_not_mem (h : '}' ∉ t) : Unbroken t := by
  refine fun s hs => matchAt_definitionBreak fun hbrace => h (hs.subset (hbrace.subset ?_))
  exact mem_cons_self

lemma Unbroken.append {w : Text} (h : Unbroken t) (hw : '}' ∉ w) : Unbroken (w ++ t) := by
  induction w with
  | nil => exact h
  | cons c w ih =>
    obtain ⟨hc, hw⟩ := ne_and_not_mem_of_not_mem_cons hw
    intro s hs
    rcases suffix_cons_iff.mp hs with hs | hs
    · rw [matchAt_definitionBreak]
      rw [hs]
      exact fun hbrace => hc (cons_prefix_cons.mp hbrace).1
    · exact ih hw s hs

lemma Unbroken.split_eq (h : Unbroken t) : definitionBreak.split t = [t] := by
  have hnone : ∀ (t gap : Text) (s : Pattern.Place), s.rest = t → Unbroken t → (definitionBreak.matchesFrom 0 gap t s).1 = [] := by
    intro t
    induction t with
    | nil => exact fun _ _ _ _ => rfl
    | cons c r ih =>
      intro gap s hs ht
      rw [matchesFrom, ht s (hs ▸ suffix_refl _)]
      exact ih _ _ rfl fun s' hs' => ht s' (hs'.trans (suffix_cons c r))
  rw [split, findAll]
  have hms := hnone t [] ⟨none, 0, t, []⟩ rfl h
  have hlast := matchesFrom_last hms
  simp only [hms, hlast]
  rfl

/-- A joined line with one definition is one piece: its code, unless that is blank. -/
lemma Unbroken.splitDefinitions_eq (h : Unbroken (trim (dropInline j.text))) :
    j.splitDefinitions = if trim (dropInline j.text) = [] then [] else [{ j with text := trim (dropInline j.text) }] := by
  rw [Joined.splitDefinitions, h.split_eq]
  simp only [closePieces, map_cons, trim_trim]
  split
  next hnil =>
    rw [hnil]
    rfl
  next hne =>
    rw [filter_cons_of_pos (by simpa using hne)]
    rfl

lemma splitDefinitions_eq (h : '}' ∉ trim (dropInline j.text)) :
    j.splitDefinitions = if trim (dropInline j.text) = [] then [] else [{ j with text := trim (dropInline j.text) }] :=
  (unbroken_of_not_mem h).splitDefinitions_eq

lemma splitBody_eq (h : '}' ∉ j.text) : j.splitBody = [j] := by
  have hcount : (trim (dropInline j.text)).count '}' = 0 :=
    count_eq_zero.mpr fun hmem => h (dropInline_subset _ (trim_subset _ hmem))
  simp [Joined.splitBody, headAndBody?, hcount]

end FunctionDocs.Source
