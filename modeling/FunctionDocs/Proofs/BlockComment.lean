import FunctionDocs.Proofs.OneLine
import FunctionDocs.Proofs.Paragraphs

/-!
# When a composed comment is well formed

A comment that is written into a source text has to be one block comment. It opens and closes as it should whatever it says;
it is closed too early exactly when a text that it takes over holds the closing mark, and a line without its star appears
exactly when two notes have a text.
-/

open List

namespace FunctionDocs.DocBlock

open Text

variable {ps : List Text} {e : Entry}

/-- One block comment: it opens with `/**`, closes with `*/` at its end and nowhere else, and every line between the first and
the last begins with a star. -/
@[mk_iff]
structure IsBlockComment (t : Text) : Prop where
  opens : startsWith t "/**" = true
  closes : endsWith t " */" = true
  once : contains t.dropLast "*/" = false
  starred : ∀ l ∈ t.lines.tail.dropLast, startsWith l " *" = true

instance (t : Text) : Decidable (IsBlockComment t) := decidable_of_iff _ (isBlockComment_iff ..).symm

/-! ## Blocks of paragraphs -/

lemma infix_below_iff {part head tail : Text} (hfeed : '\n' ∉ part) (ps : List Text) :
    part <:+: head ++ below ps ++ '\n' :: tail ↔ part <:+: head ∨ (∃ p ∈ ps, part <:+: p) ∨ part <:+: tail := by
  induction ps generalizing head with
  | nil =>
    rw [below, infix_append_cons_iff hfeed]
    simp
  | cons p ps ih =>
    have hsplit : head ++ below (p :: ps) ++ '\n' :: tail = head ++ '\n' :: (p ++ below ps ++ '\n' :: tail) := by
      rw [below_cons]
      simp
    rw [hsplit, infix_append_cons_iff hfeed, ih, exists_mem_cons_iff]
    exact or_congr_right or_assoc.symm

lemma block_once_iff (ps : List Text) : contains (block ps).dropLast "*/" = false ↔ ∀ p ∈ ps, contains p "*/" = false := by
  have hlast : (block ps).dropLast = "/**" ++ below ps ++ '\n' :: [' ', '*'] := by
    rw [block, dropLast_append_of_ne_nil (by decide)]
    rfl
  have hopen : ¬"*/".toList <:+: "/**" := by decide
  have hclose : ¬"*/" <:+: [' ', '*'] := by decide
  rw [contains_eq_false_iff, hlast, infix_below_iff (by decide)]
  simp only [hopen, hclose, false_or, or_false, not_exists, not_and, contains_eq_false_iff]

lemma splitOnChar_below (head : Text) (ps : List Text) :
    splitOnChar '\n' (head ++ below ps) = splitOnChar '\n' head ++ ps.flatMap (splitOnChar '\n') := by
  induction ps generalizing head with
  | nil => simp [below]
  | cons p ps ih =>
    have hsplit : head ++ below (p :: ps) = head ++ '\n' :: (p ++ below ps) := by
      rfl
    rw [hsplit, splitOnChar_append_cons, ih, flatMap_cons]

lemma fed_block (h : ∀ p ∈ ps, Fed p) : Fed (block ps) := by
  refine .append (.append (fed_of_flat (by decide)) ?_) (fed_cons (fed_of_flat (by decide)))
  intro c hc
  obtain ⟨p, hp, hc⟩ := mem_flatMap.mp hc
  exact fed_cons (h p hp) c hc

lemma lines_block (h : ∀ p ∈ ps, Fed p) : (block ps).lines = "/**".toList :: ps.flatMap (splitOnChar '\n') ++ [" */".toList] := by
  have hbelow : block ps = "/**" ++ below (ps ++ [" */".toList]) := by
    rw [below_append]
    rfl
  have hlast : (block ps).getLast? = some '/' := by
    rw [block, getLast?_append_of_ne_nil _ (by decide)]
    rfl
  rw [lines_eq_splitOnChar (fed_block h) ⟨'/', hlast, by decide⟩, hbelow, splitOnChar_below, flatMap_append]
  rfl

lemma isBlockComment_block_iff (h : ∀ p ∈ ps, Paragraph p) :
    IsBlockComment (block ps) ↔ (∀ p ∈ ps, contains p "*/" = false) ∧ ∀ p ∈ ps, Hanging p := by
  have hmiddle : (block ps).lines.tail.dropLast = ps.flatMap (splitOnChar '\n') := by
    rw [lines_block fun p hp => (h p hp).fed, cons_append, tail_cons, dropLast_concat]
  have hstar : (∀ l ∈ (block ps).lines.tail.dropLast, startsWith l " *") ↔ ∀ p ∈ ps, Hanging p := by
    rw [hmiddle]
    simp only [mem_flatMap, startsWith_iff]
    constructor
    · intro hl p hp
      exact (forall_splitOnChar_iff.mp fun l hm => hl l ⟨p, hp, hm⟩).2
    · rintro hh l ⟨p, hp, hm⟩
      exact forall_splitOnChar_iff.mpr ⟨(h p hp).margin, hh p hp⟩ l hm
  have hopens : startsWith (block ps) "/**" := by
    rw [startsWith_iff]
    exact prefix_append _ _
  have hcloses : endsWith (block ps) " */" := by
    rw [endsWith_iff, block]
    exact ⟨"/**" ++ below ps ++ ['\n'], by simp⟩
  rw [← block_once_iff, ← hstar]
  exact ⟨fun hb => ⟨hb.once, hb.starred⟩, fun hp => ⟨hopens, hcloses, hp.1, hp.2⟩⟩

/-! ## Notes -/

def notesOf (e : Entry) : List Text :=
  if (trim (e.comment.getD [])).isEmpty || !e.isDoxygen.getD false then []
  else (Parts.ofLines (bodyLines (trim (e.comment.getD [])))).notes.map (layOut margin)

lemma saidOf_notes (e : Entry) : (saidOf e).notes = unlines (notesOf e) := by
  have hbrief : ∀ (s : Texts) (brief : Text), (if s.brief.isEmpty then { s with brief := brief } else s).notes = s.notes := by
    intro s brief
    split <;> rfl
  rw [saidOf, saidBy, notesOf, hbrief]
  by_cases hc : (trim (e.comment.getD [])).isEmpty
  · simp [hc, unlines, joinWith]
  · cases hd : e.isDoxygen.getD false with
    | false => simp [hc, unlines, joinWith]
    | true => simp only [hc]; rfl

lemma mem_notesOf : ∀ n ∈ notesOf e, Trimmed n ∧ Hanging n := by
  rw [notesOf]
  split
  · simp
  · intro n hn
    obtain ⟨ls, hls, rfl⟩ := mem_map.mp hn
    exact ⟨trimmed_layOut _ _, (layOut_hung ((Parts.clean_ofLines (flat_bodyLines _)).notes ls hls)).1⟩

lemma paragraphs_hanging_iff (h : OneLine e) :
    (∀ p ∈ paragraphs e, Hanging p) ↔ ((notesOf e).filter (!·.isEmpty)).length ≤ 1 := by
  rw [← hanging_unlines_iff (fun n hn => (mem_notesOf n hn).1) fun n hn => (mem_notesOf n hn).2, ← saidOf_notes]
  have hnote : (∀ p ∈ notesParagraph (saidOf e).notes, Hanging p) ↔ Hanging (trim (saidOf e).notes) := by
    rw [notesParagraph]
    split
    next hempty =>
      rw [List.isEmpty_iff] at hempty
      rw [hempty]
      exact iff_of_true (by simp) (hanging_of_flat (by simp [Flat]))
    · rw [forall_mem_singleton]
      exact ⟨fun hh => hh.of_suffix (suffix_append _ _), fun hh => tagged_hanging hh (by decide)⟩
  rw [← hnote]
  constructor
  · intro hh p hp
    exact hh p (by simp only [paragraphs, mem_append]; exact .inl (.inr hp))
  · intro hh p hp
    by_cases hn : p ∈ notesParagraph (saidOf e).notes
    · exact hh p hn
    · exact (mem_paragraphs h p hp).2 hn

/-- The comment of a function of a text is composed, and it is one block comment exactly when no paragraph holds the closing
mark and at most one note has a text. -/
theorem compose_isBlockComment_iff {content file : Text} {fs : List Source.Function} {f : Source.Function}
    (h : Source.functionsOf content file = .ok fs) (hf : f ∈ fs) :
    ∃ d, compose (Entry.ofFunction f) = .ok d ∧
      (IsBlockComment d ↔ (∀ p ∈ paragraphs (Entry.ofFunction f), contains p "*/" = false) ∧
        ((notesOf (Entry.ofFunction f)).filter (!·.isEmpty)).length ≤ 1) := by
  obtain ⟨hname, hparams⟩ := Source.functionsOf_flat h f hf
  have hone : OneLine (Entry.ofFunction f) := ⟨hname, hparams⟩
  refine ⟨_, compose_ofFunction f, ?_⟩
  rw [isBlockComment_block_iff fun p hp => (mem_paragraphs hone p hp).1, paragraphs_hanging_iff hone]

def notedText : Text := "/**\n * @brief adds\n * @note one\n *       more\n */\nint add(int a = 1) \x7b\n\x7d\n"

/-- The function of `notedText`. -/
def notedFunction : Source.Function :=
  ⟨"add", "int", "int a = 1", false, "/**\n * @brief adds\n * @note one\n *       more\n */", true, [], 5, 1, false, none⟩

/-- The comment of `notedFunction` is one block comment. -/
theorem noted_isBlockComment :
    Source.functionsOf notedText [] = .ok [notedFunction] ∧
      ∃ d, compose (Entry.ofFunction notedFunction) = .ok d ∧ IsBlockComment d := by
  have hfound : Source.functionsOf notedText [] = .ok [notedFunction] := by decide
  obtain ⟨d, hd, hiff⟩ := compose_isBlockComment_iff hfound List.mem_cons_self
  exact ⟨hfound, d, hd, hiff.mpr (by decide)⟩

def oneLineComment : Text := "/* adds */\nint add(int a) \x7b\n  return a;\n\x7d\n"

/-- The function of `oneLineComment`. -/
def oneLineFunction : Source.Function :=
  ⟨"add", "int", "int a", false, "/* adds */", false, [], 1, 1, false, none⟩

/-- The closing mark of a plain comment on one line is taken over into the description, so the composed comment is closed
there. -/
theorem oneLine_closes_early :
    Source.functionsOf oneLineComment [] = .ok [oneLineFunction] ∧
      compose (Entry.ofFunction oneLineFunction) =
        .ok "/**\n * @brief adds */\n * @param a TODO\n * @return TODO\n */".toList ∧
      ¬IsBlockComment "/**\n * @brief adds */\n * @param a TODO\n * @return TODO\n */".toList := by
  decide

end FunctionDocs.DocBlock
