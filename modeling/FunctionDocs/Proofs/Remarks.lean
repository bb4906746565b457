import FunctionDocs.Proofs.Reading

/-!
# Every line is read under its tag

A comment is a sequence of remarks, each a tag with the text on its line and the lines that continue it. Whatever the order of
the remarks, reading their lines gives each tag the lines of its own remarks, in order and without any other line.
-/

open List

namespace FunctionDocs.DocBlock

open Text

variable {rs : List Remark} {r : Remark} {word : Text} {ls : List Text}

/-! ## Remarks -/

/-- A tag of a comment. -/
inductive Tag where
  | brief
  | param (name : Text)
  | tparam (name : Text)
  | result
  | note
  | other (word : Text)
  deriving DecidableEq

/-- A tag as it is written, up to the text behind it. -/
def Tag.written : Tag → Text
  | .brief => "@brief "
  | .param name => "@param " ++ name ++ " "
  | .tparam name => "@tparam " ++ name ++ " "
  | .result => "@return "
  | .note => "@note "
  | .other word => "@" ++ word ++ " "

def Tag.part : Tag → Part
  | .brief => .brief
  | .param name => .param name
  | .tparam name => .tparam name
  | .result => .result
  | .note => .note
  | .other word => .other word

/-- A remark of a comment: a tag, the text on its line, and the lines that continue it. -/
structure Remark where
  tag : Tag
  text : Text
  more : List Text
  deriving DecidableEq

def Remark.lines (r : Remark) : List Text := r.text :: r.more

def Remark.rows (r : Remark) : List Text := (r.tag.written ++ r.text) :: r.more

/-- A line of a remark: a row that is not empty, does not begin as a tag and does not hold the longer spelling of `@return`. -/
@[mk_iff]
structure Spoken (l : Text) : Prop where
  row : Row l
  nonempty : l ≠ []
  tagless : Tagless l
  returns : contains l "@returns" = false

/-- A name is a word, and another tag is a word that begins as none of the tags with a part of their own. -/
def Tag.Proper : Tag → Prop
  | .param name => Word name
  | .tparam name => Word name
  | .other word => Word word ∧ ∀ tag ∈ ownTags, ¬tag <+: word
  | _ => True

/-- A remark that can be read as it is written. -/
@[mk_iff]
structure Remark.Proper (r : Remark) : Prop where
  tag : r.tag.Proper
  lines : ∀ l ∈ r.lines, Spoken l

instance (l : Text) : Decidable (Spoken l) := decidable_of_iff _ (spoken_iff ..).symm

instance : (t : Tag) → Decidable t.Proper
  | .param name => inferInstanceAs (Decidable (Word name))
  | .tparam name => inferInstanceAs (Decidable (Word name))
  | .other word => inferInstanceAs (Decidable (Word word ∧ ∀ tag ∈ ownTags, ¬tag <+: word))
  | .brief | .result | .note => inferInstanceAs (Decidable True)

instance (r : Remark) : Decidable r.Proper := decidable_of_iff _ (Remark.proper_iff ..).symm

/-! ## What is said under each tag -/

def linesUnder (t : Tag) (rs : List Remark) : List Text := (rs.filter (·.tag = t)).flatMap Remark.lines

/-- The parameter that a remark is about, with what is said of it. -/
def Remark.param? (r : Remark) : Option (Text × List Text) :=
  match r.tag with
  | .param name => some (name, r.lines)
  | _ => none

/-- The template parameter that a remark is about, with what is said of it. -/
def Remark.tparam? (r : Remark) : Option (Text × List Text) :=
  match r.tag with
  | .tparam name => some (name, r.lines)
  | _ => none

def Remark.note? (r : Remark) : Option (List Text) :=
  match r.tag with
  | .note => some r.lines
  | _ => none

def Remark.other? (r : Remark) : Option Text :=
  match r.tag with
  | .other word => some word
  | _ => none

/-- The other tags in the order of first mention, each with the lines under it. -/
def othersSaid (rs : List Remark) : Notes :=
  (rs.filterMap Remark.other?).eraseDups.map fun word => (word, linesUnder (.other word) rs)

def partsSaid (rs : List Remark) : Parts where
  brief := linesUnder .brief rs
  params := rs.filterMap Remark.param?
  tparams := rs.filterMap Remark.tparam?
  result := linesUnder .result rs
  notes := rs.filterMap Remark.note?
  others := othersSaid rs

/-! ## One remark -/

def Parts.with (p : Parts) (r : Remark) : Parts :=
  match r.tag with
  | .brief => { p with brief := p.brief ++ r.lines }
  | .param name => { p with params := setLines name r.lines p.params }
  | .tparam name => { p with tparams := setLines name r.lines p.tparams }
  | .result => { p with result := p.result ++ r.lines }
  | .note => { p with notes := p.notes ++ [r.lines] }
  | .other word => { p with others := setLines word (linesOf word p.others ++ r.lines) p.others }

lemma Remark.Proper.readAll (h : r.Proper) (p : Parts) (part : Part) : readAll (p, part) r.rows = (p.with r, r.tag.part) := by
  obtain ⟨tag, text, more⟩ := r
  obtain ⟨htext, hmore⟩ := forall_mem_cons.mp h.lines
  have hlines : ∀ l ∈ more, Tagless l := fun l hl => (hmore l hl).tagless
  cases tag with
  | brief =>
    have hrows : Remark.rows ⟨.brief, text, more⟩ = ("@brief ".toList ++ text) :: more := rfl
    rw [hrows, readAll_brief htext.row.trimmed hlines]
    rfl
  | param name =>
    have hrows : Remark.rows ⟨.param name, text, more⟩ = ("@param".toList ++ ([' '] ++ (name ++ ' ' :: text))) :: more := by
      dsimp only [Remark.rows, Tag.written]
      rw [append_assoc, append_assoc]
      rfl
    have hblank : ∀ c, (' ' :: text).head? = some c → isWordChar c = false := by
      rintro c ⟨⟩
      decide
    rw [hrows, readAll_param rfl (by simp) h.tag hblank hlines, linesBehind_row htext.row htext.nonempty]
    rfl
  | tparam name =>
    have hrows : Remark.rows ⟨.tparam name, text, more⟩ = ("@tparam".toList ++ ([' '] ++ (name ++ ' ' :: text))) :: more := by
      dsimp only [Remark.rows, Tag.written]
      rw [append_assoc, append_assoc]
      rfl
    rw [hrows, readAll_tparam h.tag htext.row htext.nonempty hlines]
    rfl
  | result =>
    have hrows : Remark.rows ⟨.result, text, more⟩ = ("@return ".toList ++ text) :: more := rfl
    rw [hrows, readAll_result htext.row htext.nonempty htext.returns hlines]
    rfl
  | note =>
    have hrows : Remark.rows ⟨.note, text, more⟩ = ("@note ".toList ++ text) :: more := rfl
    rw [hrows, readAll_note htext.row htext.nonempty hlines]
    rfl
  | other word =>
    have htag : OtherTag word := ⟨h.tag.1, h.tag.2⟩
    have hrows : Remark.rows ⟨.other word, text, more⟩ = trim ('@' :: (word ++ ' ' :: text)) :: more := by
      dsimp only [Remark.rows, Tag.written]
      rw [trim_tag htag.word htext.row, if_neg (by simpa using htext.nonempty), append_assoc, append_assoc]
      rfl
    rw [hrows, readAll_other htag htext.row hlines]
    rfl

/-! ## All remarks -/

lemma setLines_map {name : Text} {ks : List Text} (f : Text → List Text) (hks : ks.Nodup) (h : name ∈ ks) (ls : List Text) :
    setLines name ls (ks.map fun k => (k, f k)) = ks.map fun k => (k, if k = name then ls else f k) := by
  induction ks with
  | nil => cases h
  | cons k ks ih =>
    obtain ⟨hk, hks⟩ := nodup_cons.mp hks
    rw [map_cons, map_cons, setLines]
    by_cases hname : k = name
    · subst hname
      have hrest : ks.map (fun k' => (k', f k')) = ks.map fun k' => (k', if k' = k then ls else f k') := by
        refine map_congr_left fun k' hk' => ?_
        rw [if_neg (by rintro rfl; exact hk hk')]
      rw [if_pos (by simp), if_pos rfl, hrest]
    · have hmem : name ∈ ks := (mem_cons.mp h).resolve_left (Ne.symm hname)
      rw [if_neg (by simpa using hname), if_neg hname, ih hks hmem]

lemma linesOf_map (name : Text) (ks : List Text) (f : Text → List Text) :
    linesOf name (ks.map fun k => (k, f k)) = if name ∈ ks then f name else [] := by
  induction ks with
  | nil => rfl
  | cons k ks ih =>
    by_cases hname : k = name
    · simp [linesOf, hname]
    · have hne : (k == name) = false := by simpa using hname
      simp only [linesOf] at ih
      simp only [linesOf, map_cons, find?_cons, hne, ih, mem_cons, Ne.symm hname, false_or]

lemma eraseDups_concat (ks : List Text) (k : Text) :
    (ks ++ [k]).eraseDups = if k ∈ ks.eraseDups then ks.eraseDups else ks.eraseDups ++ [k] := by
  rw [eraseDups_append, List.removeAll]
  by_cases h : k ∈ ks
  · simp [h]
  · simp [h, eraseDups_cons]

lemma nodup_eraseDups (ks : List Text) : ks.eraseDups.Nodup := by
  induction ks using reverseRecOn with
  | nil => exact nodup_nil
  | append_singleton ks k ih =>
    rw [eraseDups_concat]
    exact nodup_with_name ih

lemma linesUnder_concat (t : Tag) (rs : List Remark) (r : Remark) :
    linesUnder t (rs ++ [r]) = linesUnder t rs ++ if r.tag = t then r.lines else [] := by
  by_cases h : r.tag = t <;> simp [linesUnder, h]

lemma linesUnder_eq_nil (h : word ∉ rs.filterMap Remark.other?) : linesUnder (.other word) rs = [] := by
  have hnone : rs.filter (·.tag = .other word) = [] := by
    rw [filter_eq_nil_iff]
    intro r hr htag
    exact h (mem_filterMap.mpr ⟨r, hr, by rw [Remark.other?, of_decide_eq_true htag]⟩)
  rw [linesUnder, hnone, flatMap_nil]

lemma othersSaid_other (h : r.tag = .other word) :
    othersSaid (rs ++ [r]) = setLines word (linesOf word (othersSaid rs) ++ r.lines) (othersSaid rs) := by
  have hwords : (rs ++ [r]).filterMap Remark.other? = rs.filterMap Remark.other? ++ [word] := by simp [Remark.other?, h]
  have hold : linesOf word (othersSaid rs) = linesUnder (.other word) rs := by
    rw [othersSaid, linesOf_map]
    split
    · rfl
    next hmem =>
      exact (linesUnder_eq_nil (mt mem_eraseDups.mpr hmem)).symm
  have hlines : ∀ k, linesUnder (.other k) (rs ++ [r]) =
      if k = word then linesUnder (.other word) rs ++ r.lines else linesUnder (.other k) rs := by
    intro k
    rw [linesUnder_concat, h]
    by_cases hk : k = word
    · simp [hk]
    · simp [hk, Ne.symm hk]
  rw [hold, othersSaid, othersSaid, hwords, eraseDups_concat]
  simp only [hlines]
  split
  next hmem =>
    rw [setLines_map _ (nodup_eraseDups _) hmem]
  next hmem =>
    have hrest : (rs.filterMap Remark.other?).eraseDups.map (fun k => (k, if k = word then linesUnder (.other word) rs ++ r.lines else
        linesUnder (.other k) rs)) = (rs.filterMap Remark.other?).eraseDups.map fun k => (k, linesUnder (.other k) rs) := by
      refine map_congr_left fun k hk => ?_
      rw [if_neg (by rintro rfl; exact hmem hk)]
    rw [setLines_of_not_mem (by simpa using hmem), map_append, hrest]
    simp

lemma othersSaid_own (h : ∀ word, r.tag ≠ .other word) : othersSaid (rs ++ [r]) = othersSaid rs := by
  have hwords : (rs ++ [r]).filterMap Remark.other? = rs.filterMap Remark.other? := by
    cases htag : r.tag with
    | other word => exact absurd htag (h word)
    | _ => simp [Remark.other?, htag]
  have hlines : ∀ k, linesUnder (.other k) (rs ++ [r]) = linesUnder (.other k) rs := by
    intro k
    rw [linesUnder_concat, if_neg (h k), append_nil]
  rw [othersSaid, othersSaid, hwords]
  simp only [hlines]

/-- The remarks name no parameter and no template parameter twice. -/
@[mk_iff]
structure Distinct (rs : List Remark) : Prop where
  params : ((rs.filterMap Remark.param?).map (·.1)).Nodup
  tparams : ((rs.filterMap Remark.tparam?).map (·.1)).Nodup

instance (rs : List Remark) : Decidable (Distinct rs) := decidable_of_iff _ (distinct_iff ..).symm

lemma Distinct.init (h : Distinct (rs ++ [r])) : Distinct rs := by
  have hparams := h.params
  have htparams := h.tparams
  rw [filterMap_append, map_append, nodup_append] at hparams htparams
  exact ⟨hparams.1, htparams.1⟩

lemma partsSaid_concat (h : Distinct (rs ++ [r])) : partsSaid (rs ++ [r]) = (partsSaid rs).with r := by
  rw [partsSaid, filterMap_append, filterMap_append, filterMap_append, linesUnder_concat, linesUnder_concat]
  cases htag : r.tag with
  | param name =>
    have hnew : name ∉ (rs.filterMap Remark.param?).map (·.1) := by
      have hparams := h.params
      rw [filterMap_append, map_append, nodup_append] at hparams
      exact fun hmem => hparams.2.2 name hmem name (by simp [Remark.param?, htag]) rfl
    simp [Parts.with, partsSaid, Remark.param?, Remark.tparam?, Remark.note?, htag, setLines_of_not_mem hnew, othersSaid_own]
  | tparam name =>
    have hnew : name ∉ (rs.filterMap Remark.tparam?).map (·.1) := by
      have htparams := h.tparams
      rw [filterMap_append, map_append, nodup_append] at htparams
      exact fun hmem => htparams.2.2 name hmem name (by simp [Remark.tparam?, htag]) rfl
    simp [Parts.with, partsSaid, Remark.param?, Remark.tparam?, Remark.note?, htag, setLines_of_not_mem hnew, othersSaid_own]
  | other word => simp [Parts.with, partsSaid, Remark.param?, Remark.tparam?, Remark.note?, htag, othersSaid_other htag]
  | brief | result | note => simp [Parts.with, partsSaid, Remark.param?, Remark.tparam?, Remark.note?, htag, othersSaid_own]

lemma readAll_remarks (hrs : ∀ r ∈ rs, r.Proper) (h : Distinct rs) :
    ∃ part, readAll ({}, .none) (rs.flatMap Remark.rows) = (partsSaid rs, part) := by
  induction rs using reverseRecOn with
  | nil => exact ⟨.none, rfl⟩
  | append_singleton rs r ih =>
    obtain ⟨hrs, hr⟩ := forall_mem_append.mp hrs
    obtain ⟨part, hread⟩ := ih hrs h.init
    have hrow := (hr r mem_cons_self).readAll (partsSaid rs) part
    exact ⟨_, by rw [flatMap_append, readAll_append, hread, flatMap_singleton, hrow, partsSaid_concat h]⟩

lemma Remark.Proper.trimmed (h : r.Proper) : ∀ l ∈ r.rows, Trimmed l := by
  obtain ⟨htext, hmore⟩ := forall_mem_cons.mp h.lines
  refine forall_mem_cons.mpr ⟨⟨fun c hc => ?_, ?_⟩, fun l hl => (hmore l hl).row.trimmed⟩
  · have hat : (r.tag.written ++ r.text).head? = some '@' := by cases r.tag <;> rfl
    rw [hat] at hc
    cases hc
    decide
  · exact closed_append htext.nonempty htext.row.trimmed.last

lemma ofLines_remarks (hrs : ∀ r ∈ rs, r.Proper) (h : Distinct rs) : Parts.ofLines (rs.flatMap Remark.rows) = partsSaid rs := by
  have htrim : (rs.flatMap Remark.rows).map trim = rs.flatMap Remark.rows := by
    rw [map_congr_left, map_id]
    intro l hl
    obtain ⟨r, hr, hl⟩ := mem_flatMap.mp hl
    exact ((hrs r hr).trimmed l hl).trim_eq
  obtain ⟨part, hread⟩ := readAll_remarks hrs h
  have hfold : .ofLines (rs.flatMap Remark.rows) = (readAll ({}, .none) ((rs.flatMap Remark.rows).map trim)).1 := by
    rw [Parts.ofLines, readAll, foldl_map]
  rw [hfold, htrim, hread]

/-! ## Texts -/

/-- Lines under each other, each below the first behind a margin. -/
def hung (margin : Text) (ls : List Text) : Text := joinWith ('\n' :: margin) ls

lemma trimmed_joinWith {sep : Text} (h : ∀ l ∈ ls, Trimmed l ∧ l ≠ []) (hne : ls ≠ []) :
    joinWith sep ls ≠ [] ∧ Trimmed (joinWith sep ls) := by
  fun_induction joinWith sep ls with
  | case1 => exact absurd rfl hne
  | case2 t => exact (h t mem_cons_self).symm
  | case3 t u r ih =>
    obtain ⟨⟨ht, htne⟩, hr⟩ := forall_mem_cons.mp h
    obtain ⟨hne, htrim⟩ := ih hr (by simp)
    refine ⟨by simp [htne], fun c hc => ht.head c ?_, closed_append hne htrim.last⟩
    rwa [append_assoc, head?_append_of_ne_nil _ htne] at hc

lemma layOut_eq_hung (m : Text) (h : ∀ l ∈ ls, Trimmed l ∧ l ≠ []) : layOut m ls = hung m ls := by
  cases ls with
  | nil => rfl
  | cons l ls =>
    have hmap : (l :: ls).map trim = l :: ls := by
      rw [map_congr_left (g := id) fun r hr => (h r hr).1.trim_eq, map_id]
    rw [layOut_cons, hmap, (trimmed_joinWith h (by simp)).2.trim_eq, hung]

lemma layOut_spoken (m : Text) (h : ∀ l ∈ ls, Spoken l) : layOut m ls = hung m ls :=
  layOut_eq_hung m fun l hl => ⟨(h l hl).row.trimmed, (h l hl).nonempty⟩

/-- What remarks say, with the lines under each tag written below each other. -/
def textsSaid (rs : List Remark) : Texts where
  brief := hung margin (linesUnder .brief rs)
  params := (rs.filterMap Remark.param?).map fun n => (n.1, hung margin n.2)
  result := hung resultMargin (linesUnder .result rs)
  notes := unlines ((rs.filterMap Remark.note?).map (hung margin))
  tparams := (rs.filterMap Remark.tparam?).map fun n => (n.1, hung margin n.2)
  others := othersSaid rs

lemma linesUnder_spoken (hrs : ∀ r ∈ rs, r.Proper) (t : Tag) : ∀ l ∈ linesUnder t rs, Spoken l := by
  intro l hl
  obtain ⟨r, hr, hl⟩ := mem_flatMap.mp hl
  exact (hrs r (mem_of_mem_filter hr)).lines l hl

lemma lines_of_param {n : Text × List Text} (h : r.param? = some n ∨ r.tparam? = some n) : n.2 = r.lines := by
  rw [Remark.param?, Remark.tparam?] at h
  cases htag : r.tag <;> rw [htag] at h <;> rcases h with h | h <;> cases h <;> rfl

lemma lines_of_note (h : r.note? = some ls) : ls = r.lines := by
  rw [Remark.note?] at h
  split at h <;> cases h
  rfl

lemma texts_partsSaid (hrs : ∀ r ∈ rs, r.Proper) : (partsSaid rs).texts = textsSaid rs := by
  have hnames : ∀ f : Remark → Option (Text × List Text), (∀ r n, f r = some n → n.2 = r.lines) →
      (rs.filterMap f).map (fun n => (n.1, layOut margin n.2)) = (rs.filterMap f).map fun n => (n.1, hung margin n.2) := by
    intro f hf
    refine map_congr_left fun n hn => ?_
    obtain ⟨r, hr, hn⟩ := mem_filterMap.mp hn
    rw [hf r n hn, layOut_spoken margin (hrs r hr).lines]
  have hnotes : (rs.filterMap Remark.note?).map (layOut margin) = (rs.filterMap Remark.note?).map (hung margin) := by
    refine map_congr_left fun ls hls => ?_
    obtain ⟨r, hr, hls⟩ := mem_filterMap.mp hls
    rw [lines_of_note hls, layOut_spoken margin (hrs r hr).lines]
  rw [Parts.texts, partsSaid, textsSaid, hnotes, hnames _ fun _ _ h => lines_of_param (.inl h),
    hnames _ fun _ _ h => lines_of_param (.inr h), layOut_spoken margin (linesUnder_spoken hrs .brief),
    layOut_spoken resultMargin (linesUnder_spoken hrs .result)]

/-- Every line of a sequence of remarks is read under its tag: the parts that are read hold, under each tag and name, the lines of its
remarks in order, and the texts are these lines below each other. -/
theorem ofLines_attributes {rs : List Remark} (hrs : ∀ r ∈ rs, r.Proper) (h : Distinct rs) :
    Parts.ofLines (rs.flatMap Remark.rows) = partsSaid rs ∧ (Parts.ofLines (rs.flatMap Remark.rows)).texts = textsSaid rs := by
  rw [ofLines_remarks hrs h]
  exact ⟨rfl, texts_partsSaid hrs⟩

/-- Remarks of all kinds in a mixed order, with a template parameter and a parameter of one name. -/
def mixedRemarks : List Remark :=
  [⟨.brief, "Looks up", ["an entry."]⟩, ⟨.param "key", "the key", ["of the entry"]⟩, ⟨.other "see", "insert", []⟩,
    ⟨.tparam "key", "type of the key", []⟩, ⟨.result, "the entry", ["or nothing"]⟩, ⟨.note, "slow", ["for large tables"]⟩,
    ⟨.brief, "Never fails.", []⟩, ⟨.other "throws", "nothing", []⟩, ⟨.other "see", "erase", ["and clear"]⟩,
    ⟨.note, "param key is copied", []⟩, ⟨.param "depth", "how far", []⟩, ⟨.result, "if there is none", []⟩]

theorem mixedRemarks_attributed :
    (∀ r ∈ mixedRemarks, r.Proper) ∧ Distinct mixedRemarks ∧
      (Parts.ofLines (mixedRemarks.flatMap Remark.rows)).texts =
        { brief := "Looks up\n *        an entry.\n *        Never fails."
          params := [("key".toList, "the key\n *        of the entry"), ("depth".toList, "how far")]
          result := "the entry\n *         or nothing\n *         if there is none"
          notes := "slow\n *        for large tables\nparam key is copied"
          tparams := [("key".toList, "type of the key")]
          others := [("see".toList, ["insert", "erase", "and clear"]), ("throws".toList, ["nothing"])] } := by
  have hproper : ∀ r ∈ mixedRemarks, r.Proper := by decide +kernel
  have hdistinct : Distinct mixedRemarks := by decide +kernel
  exact ⟨hproper, hdistinct, (ofLines_attributes hproper hdistinct).2.trans (by decide +kernel)⟩

end FunctionDocs.DocBlock
