import FunctionDocs.Proofs.Functions
import FunctionDocs.Proofs.Hints
import FunctionDocs.Proofs.Params

/-!
# The paragraphs of a comment

A composed comment is a list of paragraphs between its first and its last line: the description, one for each template
parameter and each parameter, the result, the notes, and the lines of all other tags. A paragraph begins with a blank and a star
and may take several lines; of all paragraphs only the notes can have a line that does not begin so.
-/

open List

namespace FunctionDocs.DocBlock

open Text

variable {e : Entry} {docs : List (Text × Text)} {t : Text} {tag : Text}

/-! ## The comment as a list of paragraphs -/

/-- What the present comment says, with the description that waits for its author if it has none. -/
def saidBy (name comment : Text) (isDoxygen : Bool) : Texts :=
  let said : Texts :=
    if comment.isEmpty then ⟨[], [], [], [], [], []⟩
    else if isDoxygen then partsOfDoxygen comment
    else ⟨joinWith "\n * " (plainLines comment), [], [], [], [], []⟩
  if said.brief.isEmpty then { said with brief := todoDescription name } else said

def saidOf (e : Entry) : Texts := saidBy (e.name.getD []) (trim (e.comment.getD [])) (e.isDoxygen.getD false)

/-- The paragraph of the result, if there is one. -/
def resultParagraph (returnType doc : Text) : List Text :=
  if contains returnType "void" || returnType.isEmpty then [] else [" * @return " ++ (if doc.isEmpty then todo else doc)]

/-- The paragraph of the notes, if there are any. -/
def notesParagraph (notes : Text) : List Text :=
  if (trim notes).isEmpty then [] else [" * @note " ++ trim notes]

def paragraphs (e : Entry) : List Text :=
  (" * @brief " ++ (saidOf e).brief) :: (tparamsOf e (saidOf e).tparams).map tparamLine ++
    paramLines (saidOf e).params (e.params.getD []) ++ resultParagraph (e.returnType.getD []) (saidOf e).result ++
    notesParagraph (saidOf e).notes ++ (saidOf e).others.flatMap otherLines

def docText (docs : List (Text × Text)) (name : Text) : Text := ((docs.find? (·.1 == name)).map (·.2)).getD todo

def defaultValue (p : Text) : Text := (splitDefault p).2.getD []

def pointerInner (p : Text) : Text := ((functionPointer? (splitDefault p).1).map (·.2)).getD []

/-- The hint at the default value of a parameter, if it has one. -/
def defaultPart (p : Text) : Text := if (defaultValue p).isEmpty then [] else defaultHint ++ defaultValue p

/-- The hint at the parameters of a function pointer, if a parameter is one. -/
def pointerPart (p : Text) : Text := if (pointerInner p).isEmpty then [] else pointerHint ++ pointerInner p ++ ")"

lemma paramLine_eq (docs : List (Text × Text)) (p : Text) :
    paramLine? docs p = if paramName p == "void" then none
      else some (dropHints (" * @param " ++ paramName p ++ " " ++ docText docs (paramName p)) ++ defaultPart p ++
        pointerPart p) := by
  unfold paramLine? defaultPart pointerPart defaultValue pointerInner docText
  obtain ⟨bare, default⟩ := splitDefault p
  dsimp only
  generalize dropHints _ = line
  split
  · rfl
  · cases default with
    | none =>
      cases functionPointer? bare with
      | none => simp
      | some n => by_cases h : n.2.isEmpty = true <;> simp [h]
    | some d =>
      cases functionPointer? bare with
      | none => by_cases hd : d.isEmpty = true <;> simp [hd]
      | some n => by_cases hd : d.isEmpty = true <;> by_cases h : n.2.isEmpty = true <;> simp [hd, h]

def block (ps : List Text) : Text := "/**" ++ below ps ++ "\n */"

lemma described_eq {name : Text} (h : e.name = some name) (comment : Text) (isDoxygen : Bool) :
    described e comment isDoxygen = .ok (saidBy name comment isDoxygen) := by
  simp only [described, saidBy]
  generalize (if comment.isEmpty then (⟨[], [], [], [], [], []⟩ : Texts)
    else if isDoxygen then partsOfDoxygen comment
    else ⟨joinWith "\n * " (plainLines comment), [], [], [], [], []⟩) = said
  rw [Entry.name!, h]
  split <;> rfl

lemma below_resultParagraph (returnType doc : Text) : below (resultParagraph returnType doc) = resultText returnType doc := by
  rw [resultParagraph, resultText]
  split
  · rfl
  · exact append_nil _

lemma below_notesParagraph (notes : Text) : below (notesParagraph notes) = notesText notes := by
  rw [notesParagraph, notesText]
  split
  · rfl
  · rw [below_cons]
    exact append_nil _

lemma compose_ofFunction (f : Source.Function) :
    compose (Entry.ofFunction f) = .ok (block (paragraphs (Entry.ofFunction f))) := by
  have hsaid := @described_eq (Entry.ofFunction f) f.name rfl (trim f.comment) f.isDoxygen
  have hcompose : compose (Entry.ofFunction f) = described (Entry.ofFunction f) (trim f.comment) f.isDoxygen >>=
      fun said => .ok ("/**\n * @brief " ++ said.brief ++
        below ((tparamsOf (Entry.ofFunction f) said.tparams).map tparamLine) ++ below (paramLines said.params f.params) ++
        resultText f.returnType said.result ++ notesText said.notes ++ below (said.others.flatMap otherLines) ++
        "\n */") := rfl
  rw [hcompose, hsaid]
  have hwhole : saidOf (Entry.ofFunction f) = saidBy f.name (trim f.comment) f.isDoxygen := rfl
  rw [block, paragraphs, below_append, below_append, below_append, below_append, below_resultParagraph, below_notesParagraph]
  rfl

/-! ## What is said hangs -/

/-- Texts that may stand in a paragraph: all but the notes hang, and no line ends but by a line feed. -/
structure Texts.Hung (s : Texts) : Prop where
  brief : Hanging s.brief ∧ Fed s.brief
  params : ∀ n ∈ s.params, Hanging n.2 ∧ Fed n.2
  tparams : ∀ n ∈ s.tparams, Flat n.1 ∧ Hanging n.2 ∧ Fed n.2
  result : Hanging s.result ∧ Fed s.result
  notes : Fed s.notes
  others : Notes.Clean OtherTag s.others

lemma hung_of_flat (h : Flat t) : Hanging t ∧ Fed t := ⟨hanging_of_flat h, fed_of_flat h⟩

lemma flat_margin : Flat margin := by decide

lemma layOut_hung {ls : List Text} (h : ∀ l ∈ ls, Row l) : Hanging (layOut margin ls) ∧ Fed (layOut margin ls) :=
  ⟨layOut_hanging (by decide) flat_margin h, layOut_fed flat_margin h⟩

lemma Parts.Clean.hung {p : Parts} (h : p.Clean) : p.texts.Hung where
  brief := layOut_hung h.brief
  params := by
    intro n hn
    obtain ⟨m, hm, rfl⟩ := mem_map.mp hn
    exact layOut_hung (h.params.rows m hm).2
  tparams := by
    intro n hn
    obtain ⟨m, hm, rfl⟩ := mem_map.mp hn
    exact ⟨(h.tparams.rows m hm).1.flat, layOut_hung (h.tparams.rows m hm).2⟩
  result := ⟨layOut_hanging (by decide) (by decide) h.result, layOut_fed (by decide) h.result⟩
  notes := by
    refine joinWith_fed (fed_cons (fed_of_flat (by simp [Flat]))) ?_
    intro t ht
    obtain ⟨m, hm, rfl⟩ := mem_map.mp ht
    exact (layOut_hung (h.notes m hm)).2
  others := h.others

lemma flat_dropStars {l : Text} (h : Flat l) : Flat (dropStars l) := by
  have hrest : Flat (l.dropWhile (· == '*')) := h.of_subset (dropWhile_suffix _).subset
  rw [dropStars]
  split
  · exact hrest.of_subset (drop_suffix _ _).subset
  · exact hrest

/-- The lines of a Doxygen comment, as its parts are read from. -/
def bodyLines (comment : Text) : List Text :=
  (comment.lines.drop 1).dropLast.map fun l => dropStars (trim l)

lemma flat_bodyLines (comment : Text) : ∀ l ∈ bodyLines comment, Flat l := by
  intro l hl
  obtain ⟨m, hm, rfl⟩ := mem_map.mp hl
  have hlines : m ∈ comment.lines := mem_of_mem_drop (dropLast_subset _ hm)
  exact flat_dropStars ((mem_lines hlines).2.of_subset (trim_subset m))

lemma plainLines_hung (comment : Text) :
    Hanging (joinWith "\n * " (plainLines comment)) ∧ Fed (joinWith "\n * " (plainLines comment)) := by
  have hflat : ∀ l ∈ plainLines comment, Flat l := by
    intro l hl
    obtain ⟨m, hm, rfl⟩ := mem_map.mp (mem_of_mem_filter hl)
    have hm := (mem_lines hm).2
    exact hm.of_subset (List.Subset.trans (dropWhile_suffix _).subset (trim_subset m))
  have hsep : (Flat " * ") := by decide
  refine ⟨joinWith_hanging ?_ fun l hl => hanging_of_flat (hflat l hl),
    joinWith_fed (fed_cons (fed_of_flat hsep)) fun l hl => fed_of_flat (hflat l hl)⟩
  exact hanging_cons_iff.mpr ⟨by decide, hanging_of_flat hsep⟩

lemma hung_saidBy {name : Text} (hname : Flat name) (comment : Text) (isDoxygen : Bool) :
    (saidBy name comment isDoxygen).Hung := by
  have hnil : Hanging [] ∧ Fed [] := hung_of_flat (by simp [Flat])
  have htodo : Hanging (todoDescription name) ∧ Fed (todoDescription name) :=
    hung_of_flat (((by decide : Flat "TODO ".toList).append hname).append (by decide))
  have hsaid : ∀ s : Texts, s.Hung → Texts.Hung (if s.brief.isEmpty then { s with brief := todoDescription name } else s) := by
    intro s hs
    split
    · exact { hs with brief := htodo }
    · exact hs
  apply hsaid
  split
  · exact ⟨hnil, by simp, by simp, hnil, hnil.2, Notes.clean_nil _⟩
  · split
    · exact (Parts.clean_ofLines (flat_bodyLines comment)).hung
    · exact ⟨plainLines_hung comment, by simp, by simp, hnil, hnil.2, Notes.clean_nil _⟩

/-! ## Paragraphs begin with a star -/

/-- A paragraph: it begins with a blank and a star, and no line ends but by a line feed. -/
structure Paragraph (t : Text) : Prop where
  margin : [' ', '*'] <+: t
  fed : Fed t

lemma tagged_paragraph (ht : Fed t) (htag : Flat tag) (hm : [' ', '*'] <+: tag) : Paragraph (tag ++ t) :=
  ⟨hm.trans (prefix_append _ _), (fed_of_flat htag).append ht⟩

lemma tagged_hanging (ht : Hanging t) (htag : Flat tag) : Hanging (tag ++ t) := (hanging_of_flat htag).append ht

lemma not_isBlank_lastWord (t : Text) : ∀ c ∈ lastWord t, isBlank c = false := by
  rw [lastWord]
  cases h : (words t).getLast? with
  | none => simp
  | some w => exact mem_words (mem_of_getLast? h)

lemma flat_lastWord (t : Text) : Flat (lastWord t) := flat_of_not_isBlank (not_isBlank_lastWord t)

lemma mem_names_foldl_setLines {ps : List Text} {w : Text} (ls : List Text) (ns : Notes) :
    w ∈ (ps.foldl (fun ns p => setLines (lastWord p) ls ns) ns).map (·.1) ↔ w ∈ ns.map (·.1) ∨ ∃ p ∈ ps, lastWord p = w := by
  induction ps generalizing ns with
  | nil => simp
  | cons p ps ih =>
    have hset : w ∈ (setLines (lastWord p) ls ns).map (·.1) ↔ w ∈ ns.map (·.1) ∨ lastWord p = w := by
      rw [map_fst_setLines]
      split
      next hmem =>
        exact ⟨.inl, fun h => h.elim id fun heq => heq ▸ hmem⟩
      · rw [mem_append, mem_singleton, eq_comm (a := w)]
    rw [foldl_cons, ih, hset, exists_mem_cons_iff, or_assoc]

/-- The template parameters of a list: the pieces between its commas that are not empty. -/
def tparamPieces (t : Text) : List Text := (splitParams (dropBrackets t)).filter (!·.isEmpty)

lemma mem_openTparams_iff {n : Text × Text} : n ∈ openTparams t ↔ ∃ p ∈ tparamPieces t, n = (lastWord p, todo) := by
  have hnames := @mem_names_foldl_setLines (tparamPieces t) n.1 [todo] []
  rw [map_nil, or_iff_right (by simp)] at hnames
  constructor
  · intro hn
    obtain ⟨m, hm, rfl⟩ := mem_map.mp hn
    obtain ⟨p, hp, heq⟩ := hnames.mp (mem_map_of_mem hm)
    exact ⟨p, hp, by rw [heq]⟩
  · rintro ⟨p, hp, rfl⟩
    obtain ⟨m, hm, heq⟩ := mem_map.mp (hnames.mpr ⟨p, hp, rfl⟩)
    exact mem_map.mpr ⟨m, hm, by rw [heq]⟩

lemma mem_openTparams : ∀ n ∈ openTparams t, Flat n.1 ∧ n.2 = todo := by
  intro n hn
  obtain ⟨p, -, rfl⟩ := mem_openTparams_iff.mp hn
  exact ⟨flat_lastWord p, rfl⟩

lemma mem_tparamsOf (h : ∀ n ∈ docs, Flat n.1 ∧ Hanging n.2 ∧ Fed n.2) :
    ∀ n ∈ tparamsOf e docs, Flat n.1 ∧ Hanging n.2 ∧ Fed n.2 := by
  rw [tparamsOf]
  split
  · exact h
  · split
    · split
      · intro n hn
        obtain ⟨hflat, htodo⟩ := mem_openTparams n hn
        rw [htodo]
        exact ⟨hflat, hung_of_flat (by decide)⟩
      · simp
    · simp

lemma tparamLine_paragraph {n : Text × Text} (h : Flat n.1 ∧ Hanging n.2 ∧ Fed n.2) :
    Paragraph (tparamLine n) ∧ Hanging (tparamLine n) := by
  obtain ⟨hname, hhang, hfed⟩ := h
  have htag : Flat (" * @tparam ".toList ++ n.1 ++ " ") := ((by decide : Flat " * @tparam ".toList).append hname).append (by decide)
  have htext : Hanging (if (trim n.2).isEmpty then todo else trim n.2) ∧ Fed (if (trim n.2).isEmpty then todo else trim n.2) := by
    split
    · exact hung_of_flat (by decide)
    · exact ⟨hhang.trim, hfed.of_subset (trim_subset _)⟩
  have hline := tagged_paragraph htext.2 htag ⟨_, rfl⟩
  exact ⟨⟨dropHints_margin hline.margin, hline.fed.of_subset (dropHints_subset _)⟩, dropHints_hanging (tagged_hanging htext.1 htag)⟩

lemma infix_defaultValue (p : Text) : defaultValue p <:+: p := by
  rw [defaultValue]
  cases h : (splitDefault p).2 with
  | none => exact nil_infix
  | some d => exact infix_splitDefault_default h

lemma infix_pointerInner (p : Text) : pointerInner p <:+: p := by
  rw [pointerInner]
  cases h : functionPointer? (splitDefault p).1 with
  | none => exact nil_infix
  | some n => exact (infix_functionPointer h).trans (infix_splitDefault_bare p)

lemma flat_hints {p : Text} (h : Flat p) : Flat (defaultPart p) ∧ Flat (pointerPart p) := by
  have hvalue : Flat (defaultValue p) := h.of_subset (infix_defaultValue p).subset
  have hinner : Flat (pointerInner p) := h.of_subset (infix_pointerInner p).subset
  constructor
  · rw [defaultPart]
    split
    · simp [Flat]
    · exact (by decide : Flat defaultHint).append hvalue
  · rw [pointerPart]
    split
    · simp [Flat]
    · exact ((by decide : Flat pointerHint).append hinner).append (by decide)

lemma docText_hung (h : ∀ n ∈ docs, Hanging n.2 ∧ Fed n.2) (name : Text) :
    Hanging (docText docs name) ∧ Fed (docText docs name) := by
  rw [docText]
  cases hd : docs.find? (·.1 == name) with
  | none => exact hung_of_flat (by decide)
  | some n => exact h n (mem_of_find?_eq_some hd)

lemma paramLine_paragraph {p line : Text} (hdocs : ∀ n ∈ docs, Hanging n.2 ∧ Fed n.2)
    (hp : Flat p) (h : paramLine? docs p = some line) : Paragraph line ∧ Hanging line := by
  rw [paramLine_eq] at h
  split at h
  · cases h
  · obtain rfl := Option.some.inj h
    have htag : Flat (" * @param ".toList ++ paramName p ++ " ".toList) :=
      ((by decide : Flat " * @param ".toList).append (flat_paramName p)).append (by decide)
    obtain ⟨htext, hfed⟩ := docText_hung hdocs (paramName p)
    have hline := tagged_paragraph hfed htag ⟨_, rfl⟩
    have hhints := (flat_hints hp).1.append (flat_hints hp).2
    rw [append_assoc]
    refine ⟨⟨(dropHints_margin hline.margin).trans (prefix_append _ _), ?_⟩, ?_⟩
    · exact (hline.fed.of_subset (dropHints_subset _)).append (fed_of_flat hhints)
    · exact (dropHints_hanging (tagged_hanging htext htag)).append (hanging_of_flat hhints)

lemma otherLines_paragraph {n : Text × List Text} (h : OtherTag n.1 ∧ ∀ l ∈ n.2, Row l) :
    ∀ t ∈ otherLines n, Paragraph t ∧ Hanging t := by
  obtain ⟨hname, hrows⟩ := h
  obtain ⟨name, ls⟩ := n
  cases ls with
  | nil => simp [otherLines]
  | cons l ls =>
    obtain ⟨hl, hls⟩ := forall_mem_cons.mp hrows
    intro t ht
    simp only [otherLines, mem_cons, mem_map] at ht
    rcases ht with rfl | ⟨m, hm, rfl⟩
    · have hrow := (row_trim hl.flat).flat
      have htag : Flat (" * @" ++ name ++ " ") := ((by decide : Flat " * @").append hname.word.flat).append (by decide)
      exact ⟨tagged_paragraph (fed_of_flat hrow) htag ⟨_, rfl⟩, tagged_hanging (hanging_of_flat hrow) htag⟩
    · have hrow := (row_trim (hls m hm).flat).flat
      exact ⟨tagged_paragraph (fed_of_flat hrow) flat_margin (by decide), tagged_hanging (hanging_of_flat hrow) flat_margin⟩

/-- The name and the parameters of an entry lie on one line. -/
structure OneLine (e : Entry) : Prop where
  name : Flat (e.name.getD [])
  params : Flat (e.params.getD [])

lemma mem_paramLines {params : Text} (hdocs : ∀ n ∈ docs, Hanging n.2 ∧ Fed n.2)
    (hparams : Flat params) : ∀ t ∈ paramLines docs params, Paragraph t ∧ Hanging t := by
  intro t ht
  obtain ⟨p, hp, hline⟩ := mem_filterMap.mp ht
  exact paramLine_paragraph hdocs (hparams.of_subset (infix_of_mem_splitParams (mem_of_mem_filter hp)).subset) hline

lemma mem_resultParagraph {returnType doc : Text} (h : Hanging doc ∧ Fed doc) :
    ∀ t ∈ resultParagraph returnType doc, Paragraph t ∧ Hanging t := by
  rw [resultParagraph]
  split
  · simp
  · intro t ht
    rw [mem_singleton] at ht
    subst ht
    have htag : Flat " * @return " := by decide
    split
    · exact ⟨tagged_paragraph (fed_of_flat (by decide)) htag ⟨_, rfl⟩, tagged_hanging (hanging_of_flat (by decide)) htag⟩
    · exact ⟨tagged_paragraph h.2 htag ⟨_, rfl⟩, tagged_hanging h.1 htag⟩

lemma mem_paragraphs (h : OneLine e) : ∀ t ∈ paragraphs e, Paragraph t ∧ (t ∉ notesParagraph (saidOf e).notes → Hanging t) := by
  have hsaid : (saidOf e).Hung := hung_saidBy h.name _ _
  have hbrief : Flat " * @brief ".toList := by decide
  intro t ht
  simp only [paragraphs, mem_append, mem_cons] at ht
  rcases ht with ((((rfl | ht) | ht) | ht) | ht) | ht
  · exact ⟨tagged_paragraph hsaid.brief.2 hbrief ⟨_, rfl⟩, fun _ => tagged_hanging hsaid.brief.1 hbrief⟩
  · obtain ⟨n, hn, rfl⟩ := mem_map.mp ht
    exact (tparamLine_paragraph (mem_tparamsOf hsaid.tparams n hn)).imp_right fun hh _ => hh
  · exact (mem_paramLines hsaid.params h.params t ht).imp_right fun hh _ => hh
  · exact (mem_resultParagraph hsaid.result t ht).imp_right fun hh _ => hh
  · refine ⟨?_, fun hnot => absurd ht hnot⟩
    rw [notesParagraph] at ht
    split at ht
    · cases ht
    · rw [mem_singleton] at ht
      subst ht
      exact tagged_paragraph (hsaid.notes.of_subset (trim_subset _)) (by decide) ⟨_, rfl⟩
  · obtain ⟨n, hn, ht⟩ := mem_flatMap.mp ht
    exact (otherLines_paragraph (hsaid.others.rows n hn) t ht).imp_right fun hh _ => hh

end FunctionDocs.DocBlock
