import FunctionDocs.Proofs.SpacedHeads

/-!
# Declarations in loose lines

A comment within a line of a declaration does no harm if the line is joined the same way without it: its ends, its parentheses and
its kind stay as they are, and no brace closes on it. Lines of this kind define the same functions as the lines with white space in
place of the comments.
-/

open List

namespace FunctionDocs.Source

open Text Pattern

variable {ls ls' : List Text} {js js' below below' : List Joined}

/-! ## Quiet lines -/

/-- A line of a declaration and what it is without its comments, where the comments make no difference to how it is joined. -/
@[mk_iff]
structure Quiet (l l' : Text) : Prop where
  slash : '/' ∉ l'
  brace : '}' ∉ l
  loose : Loose (dropInline (trim l)) (trim l')
  alone : standsAlone (trim l) = standsAlone (trim l')
  goesOn : mayGoOn (trim l) = mayGoOn (trim l')
  balance : 0 < parenBalance (trim l) ↔ 0 < parenBalance (trim l')
  head : (trim l).head? = (trim l').head?
  last : (trim l).getLast? = (trim l').getLast?
  body : (trim l).head? ≠ some '{'

instance (l l' : Text) : Decidable (Quiet l l') := decidable_of_iff _ (quiet_iff ..).symm

lemma startsWith_singleton (t : Text) (c : Char) : startsWith t [c] = decide (t.head? = some c) := by
  rw [Bool.eq_iff_iff, startsWith_iff]
  cases t with
  | nil => simp
  | cons d r => simp [eq_comm]

lemma endsWith_singleton (t : Text) (c : Char) : endsWith t [c] = decide (t.getLast? = some c) := by
  rw [Bool.eq_iff_iff, endsWith_iff, decide_eq_true_eq, singleton_suffix_iff_getLast?_eq_some]

section Quiet

variable {l l' : Text}

lemma Quiet.isEmpty_eq (h : Quiet l l') : (trim l).isEmpty = (trim l').isEmpty := by
  have hhead := h.head
  cases hl : trim l <;> cases hl' : trim l' <;> simp_all

lemma Quiet.startsWith_eq (h : Quiet l l') (c : Char) : startsWith (trim l) [c] = startsWith (trim l') [c] := by
  rw [startsWith_singleton, startsWith_singleton, h.head]

lemma Quiet.endsWith_eq (h : Quiet l l') (c : Char) : endsWith (trim l) [c] = endsWith (trim l') [c] := by
  rw [endsWith_singleton, endsWith_singleton, h.last]

lemma Quiet.not_comment (h : Quiet l l') {x : Text} (hx : x.head? = some '/') :
    startsWith (trim l) x = false ∧ startsWith (trim l') x = false := by
  have hslash : (trim l').head? ≠ some '/' := fun hhead => h.slash (trim_subset _ (mem_of_head? hhead))
  have hpre : ∀ {t : Text}, startsWith t x → t.head? = some '/' := by
    intro t ht
    obtain ⟨r, rfl⟩ := startsWith_iff.mp ht
    cases x with
    | nil => cases hx
    | cons c x => exact hx
  refine ⟨?_, ?_⟩
  · rw [← Bool.not_eq_true]
    exact fun hstarts => hslash (h.head ▸ hpre hstarts)
  · rw [← Bool.not_eq_true]
    exact fun hstarts => hslash (hpre hstarts)

lemma Quiet.seals_eq (h : Quiet l l') : seals l = seals l' := by
  obtain ⟨hslashes, hslashes'⟩ := h.not_comment (x := "//") rfl
  obtain ⟨hblock, hblock'⟩ := h.not_comment (x := "/*") rfl
  have hstar : startsWith (trim l) "*" = startsWith (trim l') "*" := h.startsWith_eq '*'
  have hhash : startsWith (trim l) "#" = startsWith (trim l') "#" := h.startsWith_eq '#'
  simp only [seals, startsWithAny, any_cons, any_nil, h.isEmpty_eq, hslashes, hslashes', hblock, hblock', hstar, hhash]

lemma Quiet.no_slash (h : Quiet l l') : '/' ∉ dropInline (trim l) :=
  mt (h.loose.mem_iff rfl).mp fun hmem => h.slash (trim_subset _ hmem)

lemma Quiet.isWholeDefinition_eq (h : Quiet l l') : isWholeDefinition (trim l) = false ∧ isWholeDefinition (trim l') = false := by
  have hlast : endsWith (trim l) ['}'] = false := by
    rw [endsWith_singleton, decide_eq_false_iff_not]
    exact fun hlast => h.brace (trim_subset _ (mem_of_getLast? hlast))
  have hlast' := (h.endsWith_eq '}').symm.trans hlast
  rw [isWholeDefinition, isWholeDefinition, hlast, hlast', Bool.and_false, Bool.and_false]
  exact ⟨rfl, rfl⟩

end Quiet

/-! ## Joining quiet lines -/

/-- A joined line and its form without comments. -/
structure Twin (j j' : Joined) : Prop where
  first : j.first = j'.first
  loose : Loose (trim (dropInline j.text)) (trim j'.text)
  slash : '/' ∉ j'.text
  brace : '}' ∉ j.text

/-- A declaration under way and its form without comments. -/
structure OpenTwin (o o' : OpenLine) : Prop where
  first : o.first = o'.first
  loose : Loose (dropInline o.text) o'.text
  slash : '/' ∉ o'.text
  brace : '}' ∉ o.text
  complete : o.isComplete = o'.isComplete

lemma OpenTwin.close {o o' : OpenLine} (h : OpenTwin o o') : Twin o.close o'.close := ⟨h.first, h.loose.trim, h.slash, h.brace⟩

lemma isComplete_congr {o o' : OpenLine} (h : (trimRight o.text).getLast? = (trimRight o'.text).getLast?) :
    o.isComplete = o'.isComplete := by
  have hbrace : endsWith (trimRight o.text) ['{'] = endsWith (trimRight o'.text) ['{'] := by
    rw [endsWith_singleton, endsWith_singleton, h]
  have hsemicolon : endsWith (trimRight o.text) ";" = endsWith (trimRight o'.text) ";" := by
    have hchar := endsWith_singleton (trimRight o.text) ';'
    rw [h, ← endsWith_singleton] at hchar
    exact hchar
  simp only [OpenLine.isComplete, endsWithAny, any_cons, any_nil, hbrace, hsemicolon]

lemma trimRight_append_trim (x : Text) {l : Text} (hne : trim l ≠ []) : trimRight (x ++ trim l) = x ++ trim l := by
  refine trimRight_eq_self fun c hc => (trimmed_trim l).last c ?_
  rwa [getLast?_append_of_ne_nil _ hne] at hc

lemma Quiet.ne_nil_iff {l l' : Text} (h : Quiet l l') : trim l ≠ [] ↔ trim l' ≠ [] := by
  rw [← isEmpty_eq_false_iff, ← isEmpty_eq_false_iff, h.isEmpty_eq]

lemma Quiet.last_append {l l' : Text} (h : Quiet l l') (hne : trim l ≠ []) (x x' : Text) :
    (trimRight (x ++ trim l)).getLast? = (trimRight (x' ++ trim l')).getLast? := by
  have hne' := h.ne_nil_iff.mp hne
  rw [trimRight_append_trim x hne, trimRight_append_trim x' hne', getLast?_append_of_ne_nil _ hne,
    getLast?_append_of_ne_nil _ hne', h.last]

lemma Quiet.begin_twin {l l' : Text} (h : Quiet l l') (i : Nat) : Sum.LiftRel Twin OpenTwin (beginLine i l) (beginLine i l') := by
  have hline : Twin ⟨l, i, i⟩ ⟨l', i, i⟩ := by
    refine ⟨rfl, ?_, h.slash, h.brace⟩
    rw [trim_dropInline_trim h.no_slash, ← trim_trim l']
    exact h.loose.trim
  have hslash : '/' ∉ trim l' := fun hmem => h.slash (trim_subset _ hmem)
  have hbrace : '}' ∉ trim l := fun hmem => h.brace (trim_subset _ hmem)
  rw [beginLine, beginLine]
  simp only [h.alone, h.isWholeDefinition_eq.1, h.isWholeDefinition_eq.2, h.goesOn, h.balance, h.endsWith_eq]
  split
  · exact .inl hline
  next halone =>
    split
    · split
      · refine .inr ⟨rfl, h.loose, hslash, hbrace, isComplete_congr (h.last_append (h.ne_nil_iff.mpr ?_) [] [])⟩
        intro hnil
        rw [hnil] at halone
        exact halone rfl
      · exact .inl ⟨rfl, h.loose.trim, hslash, hbrace⟩
    · exact .inl hline

lemma OpenTwin.absorb {o o' : OpenLine} (ho : OpenTwin o o') {l l' : Text} (h : Quiet l l') (i : Nat) :
    Option.Rel OpenTwin (o.absorb? i l) (o'.absorb? i l') := by
  have hseals := h.seals_eq
  have hbody : startsWith (trim l) ['{'] = false := by
    rw [startsWith_singleton, decide_eq_false_iff_not]
    exact h.body
  have hbody' := (h.startsWith_eq '{').symm.trans hbody
  have ho_slash : '/' ∉ dropInline o.text := mt (ho.loose.mem_iff rfl).mp ho.slash
  rw [seals, seals] at hseals
  simp only [OpenLine.absorb?, hbody, hbody', hseals, Bool.false_eq_true, if_false]
  split
  · exact .none
  next hopen =>
    have hne : trim l ≠ [] := h.ne_nil_iff.mpr fun hnil => hopen (by rw [hnil]; rfl)
    refine .some ⟨ho.first, ?_, ?_, ?_, isComplete_congr (h.last_append hne _ _)⟩
    -- nothing of a comment is left before the line, so what is dropped from it does not depend on what precedes it
    · have hblank : '/' ∉ dropInline (o.text ++ " ") := by
        rw [dropInline_append ho_slash, mem_append, not_or]
        exact ⟨ho_slash, by decide⟩
      rw [dropInline_append hblank, dropInline_append ho_slash]
      exact (ho.loose.append (Loose.refl (by decide))).append h.loose
    · simp only [mem_append, not_or]
      exact ⟨⟨ho.slash, by decide⟩, fun hmem => h.slash (trim_subset _ hmem)⟩
    · simp only [mem_append, not_or]
      exact ⟨⟨ho.brace, by decide⟩, fun hmem => h.brace (trim_subset _ hmem)⟩

lemma close_twin {o o' : Option OpenLine} (h : Option.Rel OpenTwin o o') :
    Forall₂ Twin (o.map OpenLine.close).toList (o'.map OpenLine.close).toList := by
  cases h with
  | none => exact .nil
  | some h => exact .cons h.close .nil

lemma joinFrom_twin (h : Forall₂ Quiet ls ls') :
    ∀ {i : Nat} {o o' : Option OpenLine}, Option.Rel OpenTwin o o' → Forall₂ Twin (joinFrom i o ls) (joinFrom i o' ls') := by
  induction h with
  | nil =>
    intro i o o' ho
    exact close_twin ho
  | @cons l l' ls ls' hl _ ih =>
    intro i o o' ho
    have habsorb : Option.Rel OpenTwin (o.bind (·.absorb? i l)) (o'.bind (·.absorb? i l')) := by
      cases ho with
      | none => exact .none
      | some h => exact h.absorb hl i
    -- the declaration under way takes both lines in, or neither
    rw [joinFrom, joinFrom]
    generalize o.bind (·.absorb? i l) = x at habsorb ⊢
    generalize o'.bind (·.absorb? i l') = x' at habsorb ⊢
    cases habsorb with
    | some hp =>
      simp only [hp.complete]
      split
      · exact .cons hp.close (ih .none)
      · exact ih (.some hp)
    | none =>
      refine rel_append (close_twin ho) ?_
      have hbegin := hl.begin_twin i
      generalize beginLine i l = b at hbegin ⊢
      generalize beginLine i l' = b' at hbegin ⊢
      cases hbegin with
      | inl hj => exact .cons hj (ih .none)
      | inr hp => exact ih (.some hp)

/-- A joined line and a loose one that starts on the same line of the source. -/
structure Spaced (j j' : Joined) : Prop where
  first : j.first = j'.first
  loose : Loose j.text j'.text
  slash : '/' ∉ j'.text

lemma Twin.split_spaced {j j' : Joined} (h : Twin j j') :
    Forall₂ Spaced (j.splitDefinitions.flatMap Joined.splitBody) (j'.splitDefinitions.flatMap Joined.splitBody) := by
  have hcode : dropInline j'.text = j'.text := dropInline_of_not_mem h.slash
  have hbrace : '}' ∉ trim (dropInline j.text) := fun hmem => h.brace (dropInline_subset _ (trim_subset _ hmem))
  have hbrace' : '}' ∉ trim j'.text := mt (h.loose.mem_iff rfl).mpr hbrace
  rw [splitDefinitions_eq hbrace, splitDefinitions_eq (by rwa [hcode]), hcode]
  by_cases hnil : trim (dropInline j.text) = []
  · rw [if_pos hnil, if_pos (h.loose.nil_iff.mp hnil)]
    exact .nil
  · rw [if_neg hnil, if_neg (mt h.loose.nil_iff.mpr hnil), flatMap_singleton, flatMap_singleton, splitBody_eq hbrace,
      splitBody_eq hbrace']
    exact .cons ⟨h.first, h.loose, fun hmem => h.slash (trim_subset _ hmem)⟩ .nil

lemma joinLines_spaced (h : Forall₂ Quiet ls ls') : Forall₂ Spaced (joinLines ls) (joinLines ls') := by
  rw [joinLines, joinLines, flatMap_assoc, flatMap_assoc]
  exact rel_flatMap (joinFrom_twin h .none) fun _ _ hj => hj.split_spaced

/-! ## Starts on quiet lines -/

lemma blocksFrom_of_no_opening (h : ∀ l ∈ ls, startsWith (trim l) "/*" = false) (i : Nat) : blocksFrom i none ls = [] := by
  induction ls generalizing i with
  | nil => rfl
  | cons l ls ih =>
    obtain ⟨hl, hls⟩ := forall_mem_cons.mp h
    rw [blocksFrom_cons, blockWith, hl]
    exact ih hls (i + 1)

lemma marked_of_no_opening (h : ∀ l ∈ ls, startsWith (trim l) "/*" = false) :
    marked ls = (joinLines ls).map fun j => (j, false) := by
  have hhidden : hiddenBlocks ls = [] := by rw [hiddenBlocks, blocks, blocksFrom_of_no_opening h]; rfl
  have hmark : ∀ (js : List Joined) (i : Nat), markFrom [] i js = js.map fun j => (j, false) := by
    intro js
    induction js with
    | nil => exact fun _ => rfl
    | cons j js ih => exact fun i => congrArg _ (ih (i + 1))
  rw [marked, hhidden, hmark]

lemma bodyFollows_spaced (h : Forall₂ Spaced js js')
    (hbody : bodyFollows below → bodyFollows below') :
    bodyFollows (js ++ below) → bodyFollows (js' ++ below') := by
  have hcode : ∀ {k : Joined} (ks : List Joined), '/' ∉ k.text → bodyFollows (k :: ks) =
      if (trim k.text).head? = some '{' then true else if trim k.text = [] then bodyFollows ks else false := by
    intro k ks hk
    have htrim : '/' ∉ trim k.text := fun hmem => hk (trim_subset _ hmem)
    have hslashes : startsWith (trim k.text) "//" = false := startsWith_of_not_mem htrim
    have hblock : startsWith (trim k.text) "/*" = false := startsWith_of_not_mem htrim
    simp only [bodyFollows, dropInline_of_not_mem hk, startsWith_singleton, hslashes, hblock, Bool.or_false, decide_eq_true_eq,
      List.isEmpty_iff]
  induction h with
  | nil => exact hbody
  | @cons j j' js js' hj _ ih =>
    have hslash : '/' ∉ j.text := mt (hj.loose.mem_iff rfl).mp hj.slash
    have hopen : (trim j.text).head? = some '{' ↔ (trim j'.text).head? = some '{' := hj.loose.trim.head_iff rfl
    rw [List.cons_append, List.cons_append, hcode _ hslash, hcode _ hj.slash]
    simp only [hopen, hj.loose.trim.nil_iff]
    split
    · exact id
    · split
      · exact ih
      · exact id

def Start.label (s : Start) : Text × Nat := (s.name, s.line)

lemma startsOn_spaced (h : List.Forall₂ Spaced js js') (hord : ∀ j' ∈ js', Ordinary j'.text)
    (hbody : bodyFollows below → bodyFollows below') {ss : List Start}
    (hss : startsOn below (js.map fun j => (j, false)) = .ok ss) :
    ∃ ss', startsOn below' (js'.map fun j => (j, false)) = .ok ss' ∧ ss'.map Start.label = ss.map Start.label := by
  induction h generalizing ss with
  | nil =>
    cases hss
    exact ⟨[], rfl, rfl⟩
  | @cons j j' js js' hj hjs ih =>
    obtain ⟨hj', hjs'⟩ := forall_mem_cons.mp hord
    have hmap : ∀ ks : List Joined, (ks.map fun j => (j, false)).map (·.1) = ks := by
      intro ks
      rw [map_map]
      exact map_id ks
    obtain ⟨head, rest, hhead, hrest, rfl⟩ := startsOn_cons.mp hss
    rw [hmap] at hhead
    obtain ⟨head', hhead', hname⟩ := headOn_loose hj.loose hj' (bodyFollows_spaced hjs hbody) hhead
    obtain ⟨rest', hrest', hlabels⟩ := ih hjs' hrest
    refine ⟨startAt j' head' ++ rest', startsOn_cons.mpr ⟨head', rest', ?_, hrest', rfl⟩, ?_⟩
    · rw [hmap]
      exact hhead'
    · cases head <;> cases head' <;> simp_all [startAt, Start.label, hj.first]

end FunctionDocs.Source
