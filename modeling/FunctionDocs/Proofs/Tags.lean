import FunctionDocs.DocBlock.Tags
import FunctionDocs.Proofs.Text

/-!
# What the lines of a comment are read into

Every line that is kept of a comment is a row: it holds no line end and no white space at either end. The names under which
lines are kept are words. Reading one line keeps this, so it holds of the parts of every comment.
-/

open List

namespace FunctionDocs.DocBlock

open Text

variable {ls : List Text} {ns : Notes} {line name t : Text} {N : Text → Prop} {p : Parts} {part : Part}

/-- A line without line ends and without white space at either end. -/
structure Row (l : Text) : Prop where
  flat : Flat l
  trimmed : Trimmed l

lemma row_trim (h : Flat t) : Row (trim t) := ⟨h.of_subset (trim_subset t), trimmed_trim t⟩

instance (l : Text) : Decidable (Row l) :=
  decidable_of_iff (Flat l ∧ trim l = l) ⟨fun h => h.2 ▸ row_trim h.1, fun h => ⟨h.flat, h.trimmed.trim_eq⟩⟩

/-- A name made of word characters. -/
@[mk_iff]
structure Word (w : Text) : Prop where
  nonempty : w ≠ []
  chars : ∀ c ∈ w, isWordChar c = true

instance (w : Text) : Decidable (Word w) := decidable_of_iff _ (word_iff ..).symm

lemma Word.flat {w : Text} (h : Word w) : Flat w := flat_of_not_isBlank fun c hc => isBlank_of_isWordChar (h.chars c hc)

lemma word_takeWhile (h : ¬(t.takeWhile isWordChar).isEmpty) : Word (t.takeWhile isWordChar) :=
  ⟨by simpa using h, fun _ hc => mem_takeWhile_imp hc⟩

def ownTags : List Text := ["brief", "param", "tparam", "return", "note"]

/-- The name of another tag: a word that does not begin as one of the tags with a part of their own. -/
structure OtherTag (w : Text) : Prop where
  word : Word w
  other : ∀ tag ∈ ownTags, ¬tag <+: w

/-! ## Named lines -/

/-- Named rows, no name twice, whose names are of a kind. -/
structure Notes.Clean (N : Text → Prop) (ns : Notes) : Prop where
  keys : (ns.map (·.1)).Nodup
  rows : ∀ n ∈ ns, N n.1 ∧ ∀ l ∈ n.2, Row l

lemma Notes.clean_nil (N : Text → Prop) : Clean N [] := ⟨by simp, by simp⟩

lemma map_fst_setLines (name : Text) (ls : List Text) (ns : Notes) :
    (setLines name ls ns).map (·.1) = if name ∈ ns.map (·.1) then ns.map (·.1) else ns.map (·.1) ++ [name] := by
  induction ns with
  | nil => simp [setLines]
  | cons n ns ih =>
    by_cases hn : n.1 = name
    · simp [setLines, hn]
    · have hn' : (n.1 == name) = false := by simpa using hn
      rw [setLines, hn', if_neg (by simp), map_cons, map_cons, ih]
      simp only [mem_cons, Ne.symm hn, false_or]
      split <;> simp

def linesOf (name : Text) (ns : Notes) : List Text := ((ns.find? (·.1 == name)).map (·.2)).getD []

lemma addLine_eq (name line : Text) (ns : Notes) : addLine name line ns = setLines name (linesOf name ns ++ [line]) ns := by
  induction ns with
  | nil => rfl
  | cons n ns ih =>
    cases hn : n.1 == name with
    | true => simp [addLine, setLines, linesOf, hn]
    | false => simpa [addLine, setLines, linesOf, hn] using ih

lemma nodup_with_name {ks : List Text} (h : ks.Nodup) : (if name ∈ ks then ks else ks ++ [name]).Nodup := by
  split
  · exact h
  next hn =>
    exact nodup_append.mpr ⟨h, by simp, fun a ha b hb => by
      rw [mem_singleton] at hb
      rintro rfl
      exact hn (hb ▸ ha)⟩

lemma Notes.Clean.setLines (h : Clean N ns) (hname : N name) (hls : ∀ l ∈ ls, Row l) : Clean N (setLines name ls ns) := by
  refine ⟨map_fst_setLines name ls ns ▸ nodup_with_name h.keys, ?_⟩
  have hrows := h.rows
  clear h
  induction ns with
  | nil => simpa [DocBlock.setLines] using ⟨hname, hls⟩
  | cons n ns ih =>
    obtain ⟨hn, hns⟩ := forall_mem_cons.mp hrows
    rw [DocBlock.setLines]
    split
    · exact forall_mem_cons.mpr ⟨⟨hname, hls⟩, hns⟩
    · exact forall_mem_cons.mpr ⟨hn, ih hns⟩

lemma append_rows (h : ∀ l ∈ ls, Row l) (hline : Row line) : ∀ l ∈ ls ++ [line], Row l := by
  intro l hl
  rcases mem_append.mp hl with hl | hl
  · exact h l hl
  · exact mem_singleton.mp hl ▸ hline

lemma Notes.Clean.linesOf (h : Clean N ns) (name : Text) : ∀ l ∈ linesOf name ns, Row l := by
  rw [DocBlock.linesOf]
  cases hf : ns.find? (·.1 == name) with
  | none => simp
  | some n => exact (h.rows n (mem_of_find?_eq_some hf)).2

lemma Notes.Clean.addLine (h : Clean N ns) (hname : N name) (hline : Row line) : Clean N (addLine name line ns) := by
  rw [addLine_eq]
  exact h.setLines hname (append_rows (h.linesOf name) hline)

lemma addToLast_rows {ns : List (List Text)} (h : ∀ n ∈ ns, ∀ l ∈ n, Row l) (hline : Row line) :
    ∀ n ∈ addToLast line ns, ∀ l ∈ n, Row l := by
  fun_induction addToLast line ns with
  | case1 => exact h
  | case2 n =>
    intro m hm l hl
    rw [mem_singleton] at hm
    subst hm
    exact append_rows (h n mem_cons_self) hline l hl
  | case3 n ns _ ih =>
    obtain ⟨hn, hns⟩ := forall_mem_cons.mp h
    exact forall_mem_cons.mpr ⟨hn, ih hns⟩

/-! ## Parts -/

/-- Parts whose lines are rows and whose names are as a comment can give them. -/
structure Parts.Clean (p : Parts) : Prop where
  brief : ∀ l ∈ p.brief, Row l
  params : Notes.Clean (· ≠ []) p.params
  tparams : Notes.Clean Word p.tparams
  result : ∀ l ∈ p.result, Row l
  notes : ∀ n ∈ p.notes, ∀ l ∈ n, Row l
  others : Notes.Clean OtherTag p.others

/-- The name of a part under way is as a comment can give it. -/
def Part.Named : Part → Prop
  | .param name => name ≠ []
  | .tparam name => Word name
  | .other tag => OtherTag tag
  | _ => True

lemma Parts.Clean.continueWith (h : p.Clean) (hpart : part.Named) (hline : Row line) : (p.continueWith part line).Clean := by
  cases part with
  | none => exact h
  | brief => exact { h with brief := append_rows h.brief hline }
  | param name => exact { h with params := h.params.addLine hpart hline }
  | tparam name => exact { h with tparams := h.tparams.addLine hpart hline }
  | result => exact { h with result := append_rows h.result hline }
  | note => exact { h with notes := addToLast_rows h.notes hline }
  | other tag => exact { h with others := h.others.addLine hpart hline }

lemma ownLines_rows (h : Flat t) : ∀ l ∈ ownLines t, Row l := by
  intro l hl
  rw [ownLines] at hl
  split at hl
  · cases hl
  · exact mem_singleton.mp hl ▸ row_trim h

lemma firstLine_subset (t : Text) : firstLine t ⊆ t := ( takeWhile_prefix _).subset

/-- A name with its text: the text comes from the line, and without signs the name is a word. -/
lemma nameAndText_eq_some {signs : List Char} {rest text : Text} (h : nameAndText? signs rest = some (name, text)) :
    text ⊆ rest ∧ name ≠ [] ∧ (signs = [] → Word name) := by
  simp only [nameAndText?] at h
  split at h
  · cases h
  · split at h
    · cases h
    next hword =>
      cases h
      refine ⟨?_, fun hnil => (word_takeWhile hword).nonempty (append_eq_nil_iff.mp hnil).2, ?_⟩
      · refine trans (firstLine_subset _) ?_
        refine ((dropWhile_suffix _).trans ((dropWhile_suffix _).trans ?_)).subset
        exact (drop_suffix _ _).trans (dropWhile_suffix _)
      · rintro rfl
        have hsign : ((rest.dropWhile isBlank).take 1).filter ([] : List Char).contains = [] := by simp
        rw [hsign] at hword ⊢
        exact word_takeWhile hword

lemma returnsAsReturn_flat (h : Flat line) : Flat (returnsAsReturn line) := by
  rw [returnsAsReturn]
  split
  next a b hcut =>
    rw [cutFirst_eq_some hcut, flat_append, flat_append] at h
    exact (h.1.1.append (by simp [Flat, isLineEnd])).append h.2
  · exact h

lemma otherTag_takeWhile (hat : startsWith line "@") (hown : ∀ tag ∈ ownTags, ¬ '@' :: tag <+: line)
    (hne : ¬((line.drop 1).takeWhile isWordChar).isEmpty) : OtherTag ((line.drop 1).takeWhile isWordChar) := by
  refine ⟨word_takeWhile hne, fun tag htag hp => hown tag htag ?_⟩
  obtain ⟨r, rfl⟩ := startsWith_iff.mp hat
  have hr : tag <+: r := hp.trans ( List.takeWhile_prefix _)
  exact cons_prefix_cons.mpr ⟨rfl, hr⟩

lemma Parts.Clean.read (h : p.Clean) (hpart : part.Named) (hline : Row line) :
    (p.read part line).1.Clean ∧ (p.read part line).2.Named := by
  have hdrop : ∀ n, Flat (line.drop n) := fun n => hline.flat.of_subset (drop_suffix n line).subset
  fun_cases Parts.read p part line with
  | case1 => exact ⟨{ h with brief := append_rows h.brief (row_trim (hdrop 6)) }, trivial⟩
  | case2 _ _ name text hnt =>
    have htext := ownLines_rows ((hdrop 6).of_subset (nameAndText_eq_some hnt).1)
    have hname := (nameAndText_eq_some hnt).2.1
    exact ⟨{ h with params := h.params.setLines hname htext }, hname⟩
  | case4 _ _ _ name text hnt =>
    have htext := ownLines_rows ((hdrop 7).of_subset (nameAndText_eq_some hnt).1)
    have hname := (nameAndText_eq_some hnt).2.2 rfl
    exact ⟨{ h with tparams := h.tparams.setLines hname htext }, hname⟩
  | case6 =>
    refine ⟨{ h with result := ?_ }, trivial⟩
    have htext : Flat ((returnsAsReturn line).drop 7) := (returnsAsReturn_flat hline.flat).of_subset (drop_suffix 7 _).subset
    split
    · simpa using h.result
    · exact append_rows h.result (row_trim htext)
  | case7 =>
    refine ⟨{ h with notes := fun n hn => ?_ }, trivial⟩
    rcases mem_append.mp hn with hn | hn
    · exact h.notes n hn
    · exact mem_singleton.mp hn ▸ ownLines_rows (row_trim (hdrop 5)).flat
  | case3 | case5 | case8 => exact ⟨h, trivial⟩
  | case9 hbrief hparam htparam hreturn hnote hat tag htag =>
    have hown : ∀ tag ∈ ownTags, ¬ '@' :: tag <+: line := by
      have hnot : ∀ {head : Text}, ¬startsWith line head → ¬head <+: line := fun hh => startsWith_iff.not.mp hh
      simp only [ownTags, forall_mem_cons]
      exact ⟨hnot hbrief, hnot hparam, hnot htparam, hnot hreturn, hnot hnote, by simp⟩
    have htag := otherTag_takeWhile hat hown htag
    refine ⟨{ h with others := h.others.addLine htag (row_trim ?_) }, htag⟩
    refine (hdrop 1).of_subset (List.Subset.trans (firstLine_subset _) ?_)
    exact ((dropWhile_suffix _).trans (dropWhile_suffix _)).subset
  | case10 => exact ⟨h.continueWith hpart hline, hpart⟩

lemma Parts.clean_ofLines (h : ∀ l ∈ ls, Flat l) : (Parts.ofLines ls).Clean := by
  have hfold : ∀ (ls : List Text) (s : Parts × Part), (∀ l ∈ ls, Flat l) → s.1.Clean → s.2.Named →
      (ls.foldl (fun s l => Parts.read s.1 s.2 (trim l)) s).1.Clean := by
    intro ls
    induction ls with
    | nil => intro s _ hs _; exact hs
    | cons l ls ih =>
      intro s hls hs hpart
      obtain ⟨hl, hls⟩ := forall_mem_cons.mp hls
      obtain ⟨hclean, hnamed⟩ := hs.read hpart (row_trim hl)
      exact ih _ hls hclean hnamed
  refine hfold ls _ h ?_ trivial
  exact ⟨by simp, Notes.clean_nil _, Notes.clean_nil _, by simp, by simp, Notes.clean_nil _⟩

end FunctionDocs.DocBlock
