import FunctionDocs.Proofs.BlockComment
import FunctionDocs.Proofs.Residue

/-!
# Reading a composed comment

A composed comment is read row by row. Here are the rows that a paragraph is read as, and what each kind of row does to the
parts read so far: a row with a tag begins a part, and rows without one continue it.
-/

open List

namespace FunctionDocs.DocBlock

open Text

variable {ls : List Text} {part : Part} {p : Parts} {l m n t tag : Text} {head b : Text}

/-! ## Rows -/

/-- A line of a comment as it is read: without its star and without white space at either end. -/
def readRow (l : Text) : Text := trim (dropStars (trim l))

def rowsOf (p : Text) : List Text := (splitOnChar '\n' p).map readRow

/-- The parts after some more rows, and the part that the next row continues. -/
def readAll (s : Parts × Part) (rows : List Text) : Parts × Part := rows.foldl (fun s l => s.1.read s.2 l) s

lemma readAll_append (s : Parts × Part) (rows more : List Text) :
    readAll s (rows ++ more) = readAll (readAll s rows) more := foldl_append

lemma readAll_cons (s : Parts × Part) (row : Text) (rows : List Text) :
    readAll s (row :: rows) = readAll (s.1.read s.2 row) rows := rfl

lemma trim_block (ps : List Text) : trim (block ps) = block ps := by
  refine Trimmed.trim_eq ⟨?_, ?_⟩
  · rintro c ⟨⟩
    decide
  · intro c hc
    rw [block, getLast?_append_of_ne_nil _ (by decide)] at hc
    cases hc
    decide

lemma ofLines_block {ps : List Text} (h : ∀ p ∈ ps, Fed p) :
    Parts.ofLines (bodyLines (block ps)) = (readAll ({}, .none) (ps.flatMap rowsOf)).1 := by
  have hbody : (bodyLines (block ps)).map trim = ps.flatMap rowsOf := by
    rw [bodyLines, lines_block h, cons_append, drop_one, tail_cons, dropLast_concat, map_map, map_flatMap]
    rfl
  rw [← hbody, Parts.ofLines, readAll, foldl_map]

lemma readRow_eq (l : Text) : readRow l = trim ((trim l).dropWhile (· == '*')) := by
  rw [readRow, dropStars]
  split
  next hblank =>
    rw [Bool.and_eq_true] at hblank
    cases hrest : (trim l).dropWhile (· == '*') with
    | nil => rfl
    | cons c r =>
      rw [hrest] at hblank
      have hc : isBlankLine [c] := isBlankLine_iff.mpr (by simpa using hblank.2)
      exact (trim_blank_append hc r).symm
  · rfl

lemma readRow_star (x : Text) (hm : isBlankLine m) (hne : m ≠ []) : readRow (' ' :: '*' :: (m ++ x)) = trim x := by
  have htrim : trim (' ' :: '*' :: (m ++ x)) = '*' :: trimRight (m ++ x) := by
    exact trimRight_append_of_last (t := ['*']) (by decide) _
  have hkeep : (trimRight (m ++ x)).dropWhile (· == '*') = trimRight (m ++ x) := by
    cases hrest : trimRight (m ++ x) with
    | nil => rfl
    | cons c r =>
      have hc : (m ++ x).head? = some c := trimRight_head (by rw [hrest]; rfl)
      rw [head?_append_of_ne_nil _ hne] at hc
      refine dropWhile_cons_of_neg fun hstar => ?_
      rw [beq_iff_eq.mp hstar] at hc
      exact absurd (isBlankLine_iff.mp hm _ (mem_of_head? hc)) (by decide)
  rw [readRow_eq, htrim, dropWhile_cons_of_pos (by rfl), hkeep, trim_trimRight, trim_blank_append hm]

lemma readRow_trimRight (t : Text) : readRow (trimRight t) = readRow t := by rw [readRow, trim_trimRight, readRow]

/-- A margin is a blank, a star and some more white space. -/
structure IsMargin (m : Text) : Prop where
  star : ∃ b, m = ' ' :: '*' :: b ∧ b ≠ [] ∧ isBlankLine b = true
  flat : Flat m

lemma isMargin_margin : IsMargin margin := ⟨⟨_, rfl, by decide, by decide⟩, by decide⟩

lemma isMargin_resultMargin : IsMargin resultMargin := ⟨⟨_, rfl, by decide, by decide⟩, by decide⟩

lemma IsMargin.readRow (h : IsMargin m) (hl : Trimmed l) : readRow (m ++ l) = l := by
  obtain ⟨b, rfl, hne, hb⟩ := h.star
  exact (readRow_star l hb hne).trans hl.trim_eq

lemma isBlankLine_row (hl : Row l) (hne : l ≠ []) : isBlankLine l = false := by
  cases l with
  | nil => exact absurd rfl hne
  | cons c l => simp [isBlankLine, hl.trimmed.cons]

lemma layOut_eq (hrows : ∀ r ∈ l :: ls, Row r) (hne : l ≠ []) :
    layOut m (l :: ls) = trimRight (l ++ below (ls.map (m ++ ·))) := by
  have hl := hrows l mem_cons_self
  have hmap : (l :: ls).map trim = l :: ls := by
    rw [map_congr_left (g := id) fun r hr => (hrows r hr).trimmed.trim_eq, map_id]
  have hjoin : joinWith ('\n' :: m) (l :: ls) = l ++ below (ls.map (m ++ ·)) := by
    rw [← unlines_margin]
    simpa using unlines_append_cons [] l (ls.map (m ++ ·))
  rw [layOut_cons, hmap, hjoin]
  refine trim_eq_trimRight fun c hc => hl.trimmed.head c ?_
  rwa [head?_append_of_ne_nil _ hne] at hc

lemma rowsOf_below (hm : IsMargin m) (hhead : Flat head) (hls : ∀ r ∈ ls, Row r) :
    rowsOf (head ++ below (ls.map (m ++ ·))) = readRow head :: ls := by
  have hpieces : (ls.map (m ++ ·)).flatMap (splitOnChar '\n') = ls.map (m ++ ·) := by
    rw [flatMap_congr, flatMap_singleton']
    intro p hp
    obtain ⟨r, hr, rfl⟩ := mem_map.mp hp
    exact splitOnChar_of_not_mem (hm.flat.append (hls r hr).flat).not_mem
  have hmargins : (ls.map (m ++ ·)).map readRow = ls := by
    have hread : ls.map (readRow ∘ (m ++ ·)) = ls.map id := map_congr_left fun r hr => hm.readRow (hls r hr).trimmed
    rw [map_map, hread, map_id]
  rw [rowsOf, splitOnChar_below, hpieces, splitOnChar_of_not_mem hhead.not_mem, map_append, hmargins]
  rfl

lemma rowsOf_flat {p : Text} (h : Flat p) : rowsOf p = [readRow p] := by
  rw [rowsOf, splitOnChar_of_not_mem h.not_mem]
  rfl

lemma rowsOf_append_feed (p q : Text) : rowsOf (p ++ '\n' :: q) = rowsOf p ++ rowsOf q := by
  rw [rowsOf, splitOnChar_append_cons, map_append]
  rfl

lemma layOut_snoc {last : Text} (hm : IsMargin m) (hrows : ∀ r ∈ l :: (ls ++ [last]), Row r)
    (hne : l ≠ []) : layOut m (l :: (ls ++ [last])) = l ++ below (ls.map (m ++ ·)) ++ '\n' :: trimRight (m ++ last) := by
  have hnot : isBlankLine (m ++ last) = false := by
    obtain ⟨b, rfl, -, -⟩ := hm.star
    simp [isBlankLine, isBlank]
  have hlast : below ([last].map (m ++ ·)) = ['\n'] ++ (m ++ last) := by simp [below]
  rw [layOut_eq hrows hne, map_append, below_append, hlast, ← append_assoc, ← append_assoc,
    trimRight_append_of_not_blank hnot, append_assoc]
  rfl

lemma rowsOf_tagged (hm : IsMargin m) (htag : Flat tag) (hrows : ∀ r ∈ l :: ls, Row r)
    (hne : l ≠ []) : rowsOf (tag ++ layOut m (l :: ls)) = readRow (tag ++ l) :: ls := by
  obtain ⟨hl, hls⟩ := forall_mem_cons.mp hrows
  have hhead : Flat (tag ++ l) := htag.append hl.flat
  rcases eq_nil_or_concat' ls with rfl | ⟨init, last, rfl⟩
  · have hlay : layOut m [l] = l := by
      rw [layOut_eq hrows hne, below, map_nil, flatMap_nil, append_nil, Closed.trimRight_eq hl.trimmed.last]
    rw [hlay, rowsOf_flat hhead]
  · -- Only the end of the last line can be trimmed, and a line is read the same without it.
    obtain ⟨hinit, hlast⟩ := forall_mem_append.mp hls
    have hlast := hlast last mem_cons_self
    have hend : Flat (trimRight (m ++ last)) := (hm.flat.append hlast.flat).of_subset (trimRight_subset _)
    rw [layOut_snoc hm hrows hne, ← append_assoc, ← append_assoc, rowsOf_append_feed, rowsOf_below hm hhead hinit,
      rowsOf_flat hend, readRow_trimRight, hm.readRow hlast.trimmed]
    rfl

/-! ## Rows without a tag -/

/-- A row that no tag stands on. -/
def Tagless (l : Text) : Prop := startsWith l "@" = false
  deriving Decidable

lemma Tagless.startsWith (h : Tagless l) (hh : ['@'] <+: head) : startsWith l head = false := by
  rw [Tagless, startsWith_eq_false_iff] at h
  exact startsWith_eq_false_iff.mpr fun hp => h (hh.trans hp)

lemma read_tagless (h : Tagless l) : p.read part l = (p.continueWith part l, part) := by
  rw [Parts.read, h.startsWith (by decide), h.startsWith (by decide), h.startsWith (by decide), h.startsWith (by decide),
    h.startsWith (by decide), h.startsWith (by decide)]
  rfl

def Parts.continueAll (p : Parts) (part : Part) (ls : List Text) : Parts := ls.foldl (fun p l => p.continueWith part l) p

lemma readAll_tagless (h : ∀ l ∈ ls, Tagless l) : readAll (p, part) ls = (p.continueAll part ls, part) := by
  induction ls generalizing p with
  | nil => rfl
  | cons l ls ih =>
    obtain ⟨hl, hls⟩ := forall_mem_cons.mp h
    rw [readAll_cons, read_tagless hl, ih hls]
    rfl

lemma continueAll_hom {α : Type} (F : α → Parts) {step : α → Text → α}
    (h : ∀ x l, (F x).continueWith part l = F (step x l)) (x : α) (ls : List Text) :
    (F x).continueAll part ls = F (ls.foldl step x) :=
  foldl_hom F h

lemma setLines_of_not_mem {name : Text} {ns : Notes} (h : name ∉ ns.map (·.1)) (ls : List Text) :
    setLines name ls ns = ns ++ [(name, ls)] := by
  induction ns with
  | nil => rfl
  | cons n ns ih =>
    rw [map_cons, mem_cons, not_or] at h
    rw [setLines, if_neg (by simpa using Ne.symm h.1), ih h.2, cons_append]

lemma foldl_snoc (own ls : List Text) : ls.foldl (fun own l => own ++ [l]) own = own ++ ls := by
  induction ls generalizing own with
  | nil => exact (append_nil own).symm
  | cons l ls ih => rw [foldl_cons, ih, append_assoc, singleton_append]

lemma continueAll_brief (p : Parts) (ls : List Text) : p.continueAll .brief ls = { p with brief := p.brief ++ ls } := by
  rw [← foldl_snoc]
  exact continueAll_hom (fun own => { p with brief := own }) (fun _ _ => rfl) p.brief ls

lemma continueAll_result (p : Parts) (ls : List Text) : p.continueAll .result ls = { p with result := p.result ++ ls } := by
  rw [← foldl_snoc]
  exact continueAll_hom (fun own => { p with result := own }) (fun _ _ => rfl) p.result ls

lemma addToLast_append (ns : List (List Text)) (n : List Text) (l : Text) : addToLast l (ns ++ [n]) = ns ++ [n ++ [l]] := by
  induction ns with
  | nil => rfl
  | cons m ns ih =>
    cases h : ns ++ [n] with
    | nil => simp at h
    | cons k ks => rw [cons_append, h, addToLast, ← h, ih, cons_append]; simp

lemma continueAll_note {ns : List (List Text)} {n : List Text} (hp : p.notes = ns ++ [n]) (ls : List Text) :
    p.continueAll .note ls = { p with notes := ns ++ [n ++ ls] } := by
  induction ls generalizing p n with
  | nil => simp [Parts.continueAll, ← hp]
  | cons l ls ih =>
    have hnotes : (p.continueWith .note l).notes = ns ++ [n ++ [l]] := by
      rw [Parts.continueWith, hp, addToLast_append]
    have h := ih hnotes
    simpa [Parts.continueAll, Parts.continueWith] using h

lemma linesOf_setLines (name : Text) (ls : List Text) (ns : Notes) : linesOf name (setLines name ls ns) = ls := by
  induction ns with
  | nil => simp [setLines, linesOf]
  | cons n ns ih =>
    cases hn : n.1 == name with
    | true => simp [setLines, linesOf, hn]
    | false => simpa [setLines, linesOf, hn] using ih

lemma setLines_setLines (name : Text) (ls ms : List Text) (ns : Notes) :
    setLines name ms (setLines name ls ns) = setLines name ms ns := by
  induction ns with
  | nil => simp [setLines]
  | cons n ns ih =>
    cases hn : n.1 == name with
    | true => simp [setLines, hn]
    | false => simpa [setLines, hn] using ih

lemma addLine_setLines (name line : Text) (ls : List Text) (ns : Notes) :
    addLine name line (setLines name ls ns) = setLines name (ls ++ [line]) ns := by
  rw [addLine_eq, linesOf_setLines, setLines_setLines]

lemma foldl_addLine (name : Text) (own ls : List Text) (ns : Notes) :
    ls.foldl (fun ns l => addLine name l ns) (setLines name own ns) = setLines name (own ++ ls) ns := by
  induction ls generalizing own with
  | nil => simp
  | cons l ls ih => rw [foldl_cons, addLine_setLines, ih, append_assoc]; rfl

lemma continueAll_param (p : Parts) (name : Text) (ls : List Text) :
    p.continueAll (.param name) ls = { p with params := ls.foldl (fun ns l => addLine name l ns) p.params } :=
  continueAll_hom (fun ns => { p with params := ns }) (fun _ _ => rfl) p.params ls

lemma continueAll_tparam (p : Parts) (name : Text) (ls : List Text) :
    p.continueAll (.tparam name) ls = { p with tparams := ls.foldl (fun ns l => addLine name l ns) p.tparams } :=
  continueAll_hom (fun ns => { p with tparams := ns }) (fun _ _ => rfl) p.tparams ls

lemma continueAll_other (p : Parts) (tag : Text) (ls : List Text) :
    p.continueAll (.other tag) ls = { p with others := ls.foldl (fun ns l => addLine tag l ns) p.others } :=
  continueAll_hom (fun ns => { p with others := ns }) (fun _ _ => rfl) p.others ls

/-! ## Rows with a tag -/

lemma trim_blank_cons (h : Trimmed l) : trim (' ' :: l) = l := (trim_blank_append (l := [' ']) rfl l).trans h.trim_eq

lemma readAll_brief (hl : Trimmed l) (hls : ∀ x ∈ ls, Tagless x) :
    readAll (p, part) (("@brief " ++ l) :: ls) = ({ p with brief := p.brief ++ l :: ls }, .brief) := by
  have hread : p.read part ("@brief " ++ l) = ({ p with brief := p.brief ++ [l] }, .brief) := by
    have hdrop : ("@brief " ++ l).drop 6 = ' ' :: l := rfl
    rw [Parts.read, if_pos (by rfl), hdrop, trim_blank_cons hl]
  rw [readAll_cons, hread, readAll_tagless hls, continueAll_brief]
  simp

lemma returnsAsReturn_eq (h : contains l "@returns" = false) : returnsAsReturn ("@return " ++ l) = "@return " ++ l := by
  have hnone : ∀ {t : Text}, ¬"@returns" <:+: t → cutFirst "@returns" t = none := by
    intro t ht
    cases hc : cutFirst "@returns" t with
    | none => rfl
    | some ab => exact absurd ⟨ab.1, ab.2, (cutFirst_eq_some hc).symm⟩ ht
  have hnot : ¬"@returns".toList <:+: "@return " ++ l := by
    intro hm
    rcases infix_cons_iff.mp hm with hm | hm
    · exact Bool.false_ne_true (startsWith_iff.mpr hm)
    · exact contains_eq_false_iff.mp h (infix_of_head_not_mem (by decide) hm)
  rw [returnsAsReturn, hnone hnot]

lemma readAll_result (hl : Row l) (hne : l ≠ []) (hreturns : contains l "@returns" = false) (hls : ∀ x ∈ ls, Tagless x) :
    readAll (p, part) (("@return " ++ l) :: ls) = ({ p with result := p.result ++ l :: ls }, .result) := by
  have hread : p.read part ("@return " ++ l) = ({ p with result := p.result ++ [l] }, .result) := by
    have hdrop : ("@return ".toList ++ l).drop 7 = ' ' :: l := rfl
    rw [Parts.read, if_neg (by exact Bool.false_ne_true), if_neg (by exact Bool.false_ne_true), if_neg (by exact Bool.false_ne_true),
      if_pos (by rfl), returnsAsReturn_eq hreturns, hdrop, trim_blank_cons hl.trimmed]
    simp [hne]
  rw [readAll_cons, hread, readAll_tagless hls, continueAll_result]
  simp

lemma ownLines_row (hl : Row l) (hne : l ≠ []) : ownLines l = [l] := by
  rw [ownLines, hl.trimmed.trim_eq, if_neg (by simpa using hne)]

lemma readAll_note (hl : Row l) (hne : l ≠ []) (hls : ∀ x ∈ ls, Tagless x) :
    readAll (p, part) (("@note " ++ l) :: ls) = ({ p with notes := p.notes ++ [l :: ls] }, .note) := by
  have hread : p.read part ("@note " ++ l) = ({ p with notes := p.notes ++ [[l]] }, .note) := by
    have hdrop : ("@note ".toList ++ l).drop 5 = ' ' :: l := rfl
    rw [Parts.read, if_neg (by exact Bool.false_ne_true), if_neg (by exact Bool.false_ne_true), if_neg (by exact Bool.false_ne_true),
      if_neg (by exact Bool.false_ne_true), if_pos (by rfl), hdrop, trim_blank_cons hl.trimmed, ownLines_row hl hne]
  rw [readAll_cons, hread, readAll_tagless hls, continueAll_note rfl]
  rfl

lemma firstLine_flat (h : Flat l) : firstLine l = l := takeWhile_ne h.not_mem

/-- A name is read with the sign in front of it, if there is one. -/
lemma nameAndText_eq {signs : List Char} {s : Text} (hb : isBlankLine b) (hne : b ≠ []) (hn : Word n)
    (hs : s = [] ∧ (∀ c ∈ n, c ∉ signs) ∨ ∃ c ∈ signs, isBlank c = false ∧ s = [c])
    (ht : ∀ c, t.head? = some c → isWordChar c = false) :
    nameAndText? signs (b ++ (s ++ (n ++ t))) = some (s ++ n, firstLine (t.dropWhile isBlank)) := by
  obtain ⟨c, r, rfl⟩ := exists_cons_of_ne_nil hn.nonempty
  obtain ⟨d, b, rfl⟩ := exists_cons_of_ne_nil hne
  have hbody : (d :: b ++ (s ++ (c :: r ++ t))).dropWhile isBlank = s ++ (c :: r ++ t) := by
    refine trimLeft_append hb fun e he => ?_
    rcases hs with ⟨rfl, -⟩ | ⟨x, -, hx, rfl⟩
    · cases he
      exact isBlank_of_isWordChar (hn.chars c mem_cons_self)
    · cases he
      exact hx
  have hsign : ((s ++ (c :: r ++ t)).take 1).filter signs.contains = s := by
    rcases hs with ⟨rfl, hno⟩ | ⟨x, hx, -, rfl⟩
    · simpa using hno c mem_cons_self
    · simpa using hx
  have hhead : (d :: b ++ (s ++ (c :: r ++ t))).head?.any isBlank := isBlankLine_iff.mp hb d mem_cons_self
  obtain ⟨htake, hdrop⟩ := span_append hn.chars ht
  rw [nameAndText?]
  simp only [hhead, hbody, hsign, drop_left, htake, hdrop]
  rfl

def linesBehind (t : Text) : List Text := ownLines (firstLine (t.dropWhile isBlank))

lemma linesBehind_row (hl : Row l) (hne : l ≠ []) : linesBehind (' ' :: l) = [l] := by
  obtain ⟨c, r, rfl⟩ := exists_cons_of_ne_nil hne
  rw [linesBehind, dropWhile_cons_of_pos (by decide), dropWhile_cons_of_neg (by simp [hl.trimmed.cons]),
    firstLine_flat hl.flat, ownLines_row hl hne]

lemma Word.unsigned (hn : Word n) : ∀ c ∈ n, c ∉ ['*', '&'] := by
  intro c hc hmem
  have hword := hn.chars c hc
  simp only [mem_cons, not_mem_nil, or_false] at hmem
  rcases hmem with rfl | rfl <;> exact absurd hword (by decide)

lemma readAll_param (hb : isBlankLine b) (hne : b ≠ [])
    (hn : Word n) (ht : ∀ c, t.head? = some c → isWordChar c = false) (hls : ∀ x ∈ ls, Tagless x) :
    readAll (p, part) (("@param" ++ (b ++ (n ++ t))) :: ls) =
      ({ p with params := setLines n (linesBehind t ++ ls) p.params }, .param n) := by
  have hread : p.read part ("@param" ++ (b ++ (n ++ t))) =
      ({ p with params := setLines n (linesBehind t) p.params }, .param n) := by
    have hdrop : ("@param" ++ (b ++ (n ++ t))).drop 6 = b ++ ([] ++ (n ++ t)) := rfl
    rw [Parts.read, hdrop, nameAndText_eq (s := []) hb hne hn (.inl ⟨rfl, hn.unsigned⟩) ht, if_neg (by exact Bool.false_ne_true), if_pos (by rfl)]
    rfl
  rw [readAll_cons, hread, readAll_tagless hls, continueAll_param]
  simp only [foldl_addLine]

lemma readAll_tparam (hn : Word n) (hl : Row l) (hne : l ≠ []) (hls : ∀ x ∈ ls, Tagless x) :
    readAll (p, part) (("@tparam" ++ ([' '] ++ (n ++ ' ' :: l))) :: ls) =
      ({ p with tparams := setLines n (l :: ls) p.tparams }, .tparam n) := by
  have hblank : ∀ c, (' ' :: l).head? = some c → isWordChar c = false := by
    rintro c ⟨⟩
    decide
  have hread : p.read part ("@tparam" ++ ([' '] ++ (n ++ ' ' :: l))) =
      ({ p with tparams := setLines n (linesBehind (' ' :: l)) p.tparams }, .tparam n) := by
    have hdrop : ("@tparam" ++ ([' '] ++ (n ++ ' ' :: l))).drop 7 = [' '] ++ ([] ++ (n ++ ' ' :: l)) := rfl
    rw [Parts.read, hdrop, nameAndText_eq (by decide) (by decide) hn (.inl ⟨rfl, by simp⟩) hblank]
    rfl
  rw [readAll_cons, hread, readAll_tagless hls, continueAll_tparam, linesBehind_row hl hne]
  simp only [foldl_addLine, singleton_append]

lemma trim_tag (htag : Word tag) (hl : Row l) :
    trim ('@' :: (tag ++ ' ' :: l)) = '@' :: (tag ++ (if l.isEmpty then [] else ' ' :: l)) := by
  have hlast : ∀ c, ('@' :: tag).getLast? = some c → isBlank c = false := by
    intro c hc
    rw [← singleton_append, getLast?_append_of_ne_nil _ htag.nonempty] at hc
    exact isBlank_of_isWordChar (htag.chars c (mem_of_getLast? hc))
  by_cases hne : l = []
  · subst hne
    have hform : '@' :: (tag ++ [' ']) = '@' :: tag ++ [' '] := rfl
    rw [hform, trim_append_blank rfl, Trimmed.trim_eq ⟨by simp [isBlank], hlast⟩]
    simp
  · have htrim : Trimmed ('@' :: (tag ++ ' ' :: l)) := by
      refine ⟨by simp [isBlank], fun c hc => ?_⟩
      rw [show '@' :: (tag ++ ' ' :: l) = ('@' :: tag ++ [' ']) ++ l by simp, getLast?_append_of_ne_nil _ hne] at hc
      exact hl.trimmed.last c hc
    rw [htrim.trim_eq, if_neg (by simpa using hne)]

lemma readAll_other (htag : OtherTag tag) (hl : Row l) (hls : ∀ x ∈ ls, Tagless x) :
    readAll (p, part) (trim ('@' :: (tag ++ ' ' :: l)) :: ls) =
      ({ p with others := setLines tag (linesOf tag p.others ++ l :: ls) p.others }, .other tag) := by
  rw [trim_tag htag.word hl]
  generalize ht : (if l.isEmpty then ([] : Text) else ' ' :: l) = t
  have hshape : t = [] ∨ t = ' ' :: l ∧ l ≠ [] := by
    rw [← ht]
    by_cases hne : l = []
    · simp [hne]
    · simp [hne]
  have hnot : ∀ own ∈ ownTags, ' ' ∉ own → ¬Text.startsWith ('@' :: (tag ++ t)) ('@' :: own) := by
    intro own hown hblank hs
    have hp : own <+: tag ++ t := (cons_prefix_cons.mp (startsWith_iff.mp hs)).2
    rcases hshape with rfl | ⟨rfl, -⟩
    · exact htag.other own hown (by simpa using hp)
    · exact htag.other own hown ((prefix_append_cons_iff hblank).mp hp)
  obtain ⟨hword, hafter⟩ : (tag ++ t).takeWhile isWordChar = tag ∧ (tag ++ t).dropWhile isWordChar = t := by
    refine span_append htag.word.chars fun c hc => ?_
    rcases hshape with rfl | ⟨rfl, -⟩
    · cases hc
    · cases hc
      decide
  have htext : trim (firstLine (t.dropWhile isBlank)) = l := by
    by_cases hne : l = []
    · subst hne
      rcases hshape with rfl | ⟨-, h⟩
      · rfl
      · exact absurd rfl h
    · rw [if_neg (by simpa using hne)] at ht
      obtain ⟨d, s, rfl⟩ := exists_cons_of_ne_nil hne
      rw [← ht, dropWhile_cons_of_pos (by decide), dropWhile_cons_of_neg (by simp [hl.trimmed.cons]),
        firstLine_flat hl.flat, hl.trimmed.trim_eq]
  have hread : p.read part ('@' :: (tag ++ t)) =
      ({ p with others := setLines tag (linesOf tag p.others ++ [l]) p.others }, .other tag) := by
    have hdrop : ('@' :: (tag ++ t)).drop 1 = tag ++ t := rfl
    rw [Parts.read, if_neg (by exact hnot "brief" (by decide) (by decide)),
      if_neg (by exact hnot "param" (by decide) (by decide)), if_neg (by exact hnot "tparam" (by decide) (by decide)),
      if_neg (by exact hnot "return" (by decide) (by decide)), if_neg (by exact hnot "note" (by decide) (by decide)),
      if_pos (by rfl), hdrop, hword, hafter]
    dsimp only
    rw [htext, if_neg (by simpa using htag.word.nonempty), addLine_eq]
  rw [readAll_cons, hread, readAll_tagless hls, continueAll_other]
  simp only [foldl_addLine, append_assoc, singleton_append]

end FunctionDocs.DocBlock
