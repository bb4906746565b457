import FunctionDocs.Proofs.ChangelogRuns

/-!
# The notes of a version

The notes of a version are read from the changelog line by line. Every line that starts like the heading of the version restarts
them, and a heading of another version ends them. So they are those below the heading of the version exactly if no heading that
only starts like it, such as the one of a later fix of the version, comes in between.
-/

open List

namespace FunctionDocs.Release.Changelog

open Text Code DocBlock WorldM

variable {v l o b : Text} {ls above below taken own : List Text} {found : Option (List Text)} {text : Text} {cs : List Commit}

/-- A line that is taken for the heading of a version. -/
def isHeading (l : Text) : Bool := lineStarts "# changelog for version" l

/-- A line that starts with the words of a heading as they are written. -/
def isWritten (l : Text) : Bool := startsWith l "# Changelog for version"

/-- The lines up to the next one that is taken for a heading. -/
def upToHeading (below : List Text) : List Text := below.takeWhile (!isHeading ·)

/-- The headings that follow a line that starts like the heading of the version start like it too. -/
def Restarts (v : Text) (above : List Text) : Prop :=
  ∀ l ∈ above.dropWhile (!lineStarts (heading v) ·), isHeading l → lineStarts (heading v) l

/-- The next heading is one of another version. -/
def Ends (v : Text) (below : List Text) : Prop := ∀ l ∈ below.find? isHeading, lineStarts (heading v) l = false

/-- The notes below a heading, up to the next one as it is written. -/
def notes (below : List Text) : Text := trim (below.takeWhile (!isWritten ·)).flatten

/-- The heading of a version is found as such, no heading above it takes its place, and the next one is a heading as it is
written, of a version that does not start like this one. -/
structure Clear (v : Text) (above below : List Text) : Prop where
  last : ∀ c ∈ (heading v).getLast?, isBlank c = false
  restarts : Restarts v above
  ends : Ends v below
  next : ∀ l ∈ below.find? isHeading, isWritten l

/-! ## The section that is read -/

lemma isHeading_of_lineStarts (h : lineStarts (heading v) l) : isHeading l := by
  have hlower : toLower "# changelog for version" <+: toLower (heading v) := ⟨lowerAfter (some 'n') (' ' :: v), rfl⟩
  exact startsWith_iff.mpr (hlower.trans (startsWith_iff.mp h))

lemma sectionLines_own (h : lineStarts (heading v) l) : sectionLines v found (l :: ls) = sectionLines v (some []) ls := if_pos h

lemma sectionLines_skip (h : ¬lineStarts (heading v) l) : sectionLines v none (l :: ls) = sectionLines v none ls := if_neg h

lemma sectionLines_stop (h : ¬lineStarts (heading v) l) (hl : isHeading l) :
    sectionLines v (some taken) (l :: ls) = some taken.reverse := by
  rw [sectionLines, if_neg h]
  exact if_pos hl

lemma sectionLines_take (hl : ¬isHeading l) : sectionLines v (some taken) (l :: ls) = sectionLines v (some (l :: taken)) ls := by
  rw [sectionLines, if_neg (mt isHeading_of_lineStarts hl)]
  exact if_neg hl

lemma sectionLines_ends (h : Ends v below) : sectionLines v (some taken) below = some (taken.reverse ++ upToHeading below) := by
  induction below generalizing taken with
  | nil => simp [sectionLines, upToHeading]
  | cons l below ih =>
    by_cases hl : isHeading l
    · have hown : lineStarts (heading v) l = false := h l (find?_cons_of_pos hl)
      rw [sectionLines_stop (by simp [hown]) hl, upToHeading, takeWhile_cons_of_neg (by simp [hl]), append_nil]
    · have hrest : Ends v below := fun x hx => h x (by rwa [find?_cons_of_neg hl])
      rw [sectionLines_take hl, ih hrest, upToHeading, upToHeading, takeWhile_cons_of_pos (by simp [hl]), reverse_cons,
        append_assoc, singleton_append]

lemma sectionLines_found (ho : lineStarts (heading v) o) (h : ∀ l ∈ above, isHeading l → lineStarts (heading v) l) :
    sectionLines v (some taken) (above ++ o :: below) = sectionLines v (some []) below := by
  induction above generalizing taken with
  | nil => exact sectionLines_own ho
  | cons l above ih =>
    obtain ⟨hl, habove⟩ := forall_mem_cons.mp h
    rw [cons_append]
    by_cases hown : lineStarts (heading v) l
    · rw [sectionLines_own hown, ih habove]
    · rw [sectionLines_take (mt hl hown), ih habove]

lemma sectionLines_restarts (ho : lineStarts (heading v) o) (h : Restarts v above) :
    sectionLines v none (above ++ o :: below) = sectionLines v (some []) below := by
  induction above with
  | nil => exact sectionLines_own ho
  | cons l above ih =>
    rw [cons_append]
    by_cases hown : lineStarts (heading v) l
    · rw [sectionLines_own hown]
      refine sectionLines_found ho fun x hx => h x ?_
      rw [dropWhile_cons_of_neg (by simp [hown])]
      exact mem_cons_of_mem _ hx
    · rw [sectionLines_skip hown]
      exact ih fun x hx => h x (by rwa [dropWhile_cons_of_pos (by simp [hown])])

/-- What is read comes from below a line that starts like the heading of the version. -/
lemma sectionLines_spec (h : sectionLines v found ls = some own) :
    (∃ taken, found = some taken ∧ Ends v ls ∧ own = taken.reverse ++ upToHeading ls) ∨
      ∃ above o below, ls = above ++ o :: below ∧ lineStarts (heading v) o ∧ Restarts v above ∧
        (found.isSome → ∀ l ∈ above, isHeading l → lineStarts (heading v) l) ∧ Ends v below ∧ own = upToHeading below := by
  induction ls generalizing found with
  | nil =>
    obtain ⟨taken, hfound, rfl⟩ := Option.map_eq_some_iff.mp h
    exact .inl ⟨taken, hfound, nofun, (append_nil _).symm⟩
  | cons l ls ih =>
    by_cases hown : lineStarts (heading v) l
    · rw [sectionLines_own hown] at h
      rcases ih h with ⟨_, ⟨⟩, hends, hbody⟩ | ⟨above, o, below, rfl, ho, -, hall, hrest⟩
      · exact .inr ⟨[], l, ls, rfl, hown, nofun, nofun, hends, hbody⟩
      · have habove : ∀ x ∈ l :: above, isHeading x → lineStarts (heading v) x := forall_mem_cons.mpr ⟨fun _ => hown, hall rfl⟩
        exact .inr ⟨l :: above, o, below, rfl, ho, fun x hx => habove x (dropWhile_subset _ hx), fun _ => habove, hrest⟩
    · have hskip : ∀ above, Restarts v above → Restarts v (l :: above) := fun above hr => by
        rwa [Restarts, dropWhile_cons_of_pos (by simp [hown])]
      cases found with
      | none =>
        rw [sectionLines_skip hown] at h
        rcases ih h with ⟨_, ⟨⟩, -⟩ | ⟨above, o, below, rfl, ho, hr, -, hrest⟩
        exact .inr ⟨l :: above, o, below, rfl, ho, hskip above hr, nofun, hrest⟩
      | some taken =>
        by_cases hl : isHeading l
        · rw [sectionLines_stop hown hl] at h
          refine .inl ⟨taken, rfl, fun x hx => ?_, ?_⟩
          · rw [find?_cons_of_pos hl] at hx
            simpa [← Option.some.inj hx] using hown
          · rw [upToHeading, takeWhile_cons_of_neg (by simp [hl]), append_nil]
            exact (Option.some.inj h).symm
        · rw [sectionLines_take hl] at h
          rcases ih h with ⟨_, ⟨⟩, hends, hbody⟩ | ⟨above, o, below, rfl, ho, hr, hall, hrest⟩
          · refine .inl ⟨taken, rfl, fun x hx => hends x (by rwa [find?_cons_of_neg hl] at hx), ?_⟩
            rw [hbody, upToHeading, upToHeading, takeWhile_cons_of_pos (by simp [hl]), reverse_cons, append_assoc, singleton_append]
          · have habove := forall_mem_cons.mpr ⟨fun hheading => absurd hheading hl, hall rfl⟩
            exact .inr ⟨l :: above, o, below, rfl, ho, hskip above hr, fun _ => habove, hrest⟩

/-! ## The section of a heading -/

lemma length_lowerAfter (before : Option Char) (t : Text) : (lowerAfter before t).length = t.length + t.countP (·.toNat == 304) := by
  fun_induction lowerAfter before t with
  | case1 => rfl
  | case2 before c r rest hc inWord ending ih => simp_all [rest]; omega
  | case3 before c r rest hc hc' ih => simp_all [rest]; omega
  | case4 before c r rest hc hc' ih => simp_all [rest]; omega

lemma lineStarts_own (hb : isBlankLine b) :
    lineStarts (heading v) (heading v ++ b) ↔ ∀ c ∈ (heading v).getLast?, isBlank c = false := by
  rw [lineStarts, trim_append_blank hb]
  constructor
  · intro h c hc
    by_contra hblank
    obtain ⟨t, ht⟩ := getLast?_eq_some_iff.mp hc
    have hle := (startsWith_iff.mp h).length_le
    have hsub : trim (heading v) <+ t := by
      rw [ht, trim_append_blank (by simpa [isBlankLine] using hblank)]
      exact (infix_trim t).sublist
    have hlength := hsub.length_le
    have hcount := hsub.countP_le (p := (·.toNat == 304))
    rw [toLower, toLower, length_lowerAfter, length_lowerAfter] at hle
    rw [ht] at hle hlength hcount
    simp at hle
    omega
  · intro h
    have htrimmed : Trimmed (heading v) := ⟨by rintro _ ⟨⟩; rfl, h⟩
    rw [htrimmed.trim_eq]
    exact startsWith_iff.mpr prefix_rfl

lemma isHeading_of_isWritten (h : isWritten l) : isHeading l := by
  obtain ⟨r, rfl⟩ := startsWith_iff.mp h
  rw [isHeading, lineStarts, trim_eq_trimRight (by rintro _ ⟨⟩; rfl), trimRight_append_of_last (by rintro _ ⟨⟩; rfl)]
  exact startsWith_iff.mpr ⟨lowerAfter (some 'n') (trimRight r), rfl⟩

lemma countP_trim (t : Text) : (trim t).countP (!isBlank ·) = t.countP (!isBlank ·) := by
  obtain ⟨a, b, ha, hb, ht⟩ := trim_split t
  have hblank : ∀ u : Text, isBlankLine u → u.countP (!isBlank ·) = 0 := fun u hu =>
    countP_eq_zero.mpr fun c hc => by simp [isBlankLine_iff.mp hu c hc]
  conv_rhs => rw [ht, countP_append, countP_append, hblank a ha, hblank b hb, Nat.zero_add, Nat.add_zero]

lemma notes_eq_iff : trim (upToHeading below).flatten = notes below ↔ ∀ l ∈ below.find? isHeading, isWritten l := by
  constructor
  · intro h
    have hcount : (upToHeading below).flatten.countP (!isBlank ·) =
        (below.takeWhile (!isWritten ·)).flatten.countP (!isBlank ·) := by
      rw [← countP_trim, h, notes, countP_trim]
    clear h
    induction below with
    | nil => exact nofun
    | cons l below ih =>
      by_cases hl : isHeading l
      · rw [find?_cons_of_pos hl]
        rintro _ ⟨⟩
        by_contra hwritten
        rw [upToHeading, takeWhile_cons_of_neg (by simp [hl]), takeWhile_cons_of_pos (by simp [hwritten]), flatten_cons,
          countP_append] at hcount
        have hnone : ∀ c ∈ l, isBlank c := by simpa using (Nat.add_eq_zero_iff.mp hcount.symm).1
        rw [isHeading, lineStarts, trim_eq_nil_iff.mpr (isBlankLine_iff.mpr hnone)] at hl
        exact absurd hl (by decide)
      · have hwritten := mt isHeading_of_isWritten hl
        rw [upToHeading, takeWhile_cons_of_pos (by simp [hl]), takeWhile_cons_of_pos (by simp [hwritten]), flatten_cons, flatten_cons,
          countP_append, countP_append, Nat.add_left_cancel_iff] at hcount
        rw [find?_cons_of_neg hl]
        exact ih hcount
  · intro h
    have hsame : below.takeWhile (!isWritten ·) = upToHeading below := by
      induction below with
      | nil => rfl
      | cons l below ih =>
        by_cases hl : isHeading l
        · have hwritten := h l (find?_cons_of_pos hl)
          rw [upToHeading, takeWhile_cons_of_neg (by simp [hwritten]), takeWhile_cons_of_neg (by simp [hl])]
        · have hwritten := mt isHeading_of_isWritten hl
          rw [find?_cons_of_neg hl] at h
          rw [upToHeading, takeWhile_cons_of_pos (by simp [hwritten]), takeWhile_cons_of_pos (by simp [hl]), ih h, upToHeading]
    rw [notes, hsame]

lemma sectionFor_of_clear (hlines : rawLines text = above ++ (heading v ++ b) :: below) (hb : isBlankLine b)
    (h : Clear v above below) : sectionFor v text = .ok (notes below) := by
  rw [sectionFor, hlines, sectionLines_restarts ((lineStarts_own hb).mpr h.last) h.restarts, sectionLines_ends h.ends, reverse_nil,
    nil_append, ← notes_eq_iff.mpr h.next]

lemma clear_of_sectionFor (hlines : rawLines text = above ++ (heading v ++ b) :: below) (hb : isBlankLine b)
    (hapart : ∀ as o bs, rawLines text = as ++ o :: bs → as.length ≠ above.length → lineStarts (heading v) o →
      trim (upToHeading bs).flatten ≠ notes below) (h : sectionFor v text = .ok (notes below)) : Clear v above below := by
  rw [sectionFor] at h
  split at h
  next body hbody =>
    rcases sectionLines_spec hbody with ⟨_, ⟨⟩, -⟩ | ⟨as, o, bs, hls, ho, hrestarts, -, hends, rfl⟩
    have hsame : as.length = above.length := by
      by_contra hne
      exact hapart as o bs hls hne ho (Except.ok.inj h)
    obtain ⟨rfl, htail⟩ := append_inj (hls.symm.trans hlines) hsame
    obtain ⟨rfl, rfl⟩ := cons.inj htail
    exact ⟨(lineStarts_own hb).mp ho, hrestarts, hends, notes_eq_iff.mp (Except.ok.inj h)⟩
  · cases h

/-! ## A new section -/

lemma rawLines_feed (h : ∀ l ∈ ls, '\n' ∉ l) (t : Text) : rawLines (feed ls ++ t) = ls.map (· ++ ['\n']) ++ rawLines t := by
  have hline : ∀ {l : Text} (t : Text), '\n' ∉ l → rawLines (l ++ '\n' :: t) = (l ++ ['\n']) :: rawLines t := fun {l} t hl => by
    induction l with
    | nil => rfl
    | cons c l ih =>
      obtain ⟨hc, hl⟩ := not_or.mp (mt mem_cons.mpr hl)
      rw [cons_append, rawLines, if_neg (by simpa using Ne.symm hc), ih hl]
      rfl
  induction ls with
  | nil => rfl
  | cons l ls ih =>
    obtain ⟨hl, hls⟩ := forall_mem_cons.mp h
    rw [feed_cons, append_assoc, cons_append, hline _ hl, ih hls]
    rfl

lemma isHeading_append_blank (hb : isBlankLine b) : isHeading (l ++ b) = isHeading l := by
  rw [isHeading, lineStarts, trim_append_blank hb, isHeading, lineStarts]

lemma isHeading_item (c : Commit) : isHeading (item c) = false := by
  obtain ⟨b, -, hsplit⟩ := trimRight_split (item c)
  have htrim : trim (item c) = trimRight (item c) := rfl
  rw [isHeading, lineStarts, htrim]
  cases hitem : trimRight (item c) with
  | nil => decide
  | cons x r =>
    rw [hitem, item] at hsplit
    obtain ⟨rfl, -⟩ := cons.inj hsplit
    rfl

lemma body_rows (hne : cs ≠ []) (hcs : ∀ c ∈ cs, '\n' ∉ c.summary) :
    ∃ ls, ls ≠ [] ∧ body cs = unlines ls ∧ body cs ≠ [] ∧ ∀ l ∈ ls, '\n' ∉ l ∧ isHeading (l ++ ['\n']) = false := by
  obtain ⟨hgroups, k, m, c, hc, hrows⟩ := rows_spec hne
  obtain ⟨b, hb, hitem⟩ := trimRight_split (item c)
  have hfilled : trimRight (item c) ≠ [] := by
    intro hnil
    rw [hnil, nil_append] at hitem
    rw [← hitem] at hb
    cases hb
  have hrow : ∀ l ∈ groups cs, '\n' ∉ l ∧ isHeading (l ++ ['\n']) = false := by
    intro l hl
    rw [isHeading_append_blank rfl]
    rcases mem_groups hl with rfl | ⟨k, rfl⟩ | ⟨c, hc, rfl⟩
    · decide
    · cases k <;> decide
    · exact ⟨by simpa [item] using hcs c hc, isHeading_item c⟩
  have htext : unlines (groups cs) = unlines (titleRow k :: m ++ [trimRight (item c)]) ++ (b ++ ['\n']) := by
    rw [hgroups, hrows, append_assoc, singleton_append, unlines_append_cons, unlines_append_cons]
    conv_lhs => rw [hitem]
    simp [below]
  obtain ⟨htrimmed, hbody⟩ := @trimmed_unlines (titleRow k :: m ++ [trimRight (item c)]) (by simp)
    (by rintro _ ⟨⟩; exact (titleRow_neat k).2) (by rw [getLast?_concat]; rintro _ ⟨⟩; exact ⟨trimmed_trim (item c), hfilled⟩)
  have hsplit : body cs = unlines (titleRow k :: m ++ [trimRight (item c)]) := by
    rw [body, ← groups, htext, trim_append_blank (isBlankLine_append.mpr ⟨hb, rfl⟩), htrimmed.trim_eq]
  refine ⟨_, by simp, hsplit, hsplit ▸ hbody, fun l hl => ?_⟩
  have hlast := hrow (item c) (by rw [hgroups, hrows]; simp)
  rcases mem_append.mp hl with hl | hl
  · exact hrow l (by rw [hgroups, hrows]; simp only [mem_append, hl, true_or])
  · rw [mem_singleton.mp hl]
    refine ⟨fun hmem => hlast.1 (trimRight_subset _ hmem), ?_⟩
    rw [← hlast.2, isHeading_append_blank rfl, isHeading_append_blank rfl]
    conv_rhs => rw [hitem, isHeading_append_blank hb]

/-- The old changelog as it is saved below a new section. -/
def kept (content : Text) : Text := if isBlankLine content then [] else trimRight content ++ ['\n']

lemma trim_heading {x y : Text} (hy : y ≠ []) (hlast : ∀ c, y.getLast? = some c → isBlank c = false) (hb : isBlankLine b) :
    trim (heading v ++ x ++ y ++ b) = heading v ++ x ++ y := by
  rw [trim_append_blank hb]
  refine Trimmed.trim_eq ⟨by rintro _ ⟨⟩; rfl, fun c hc => hlast c ?_⟩
  rwa [getLast?_append_of_ne_nil _ hy] at hc

lemma trim_started {new content : Text} (hnew : Trimmed new) (hne : new ≠ []) :
    ∃ gap, (gap = [] ∨ gap = [[]]) ∧
      trim (sectionText v new ++ "\n" ++ content) ++ "\n" = heading v ++ "\n\n" ++ new ++ "\n" ++ feed gap ++ kept content := by
  rw [sectionText, kept]
  cases hcontent : isBlankLine content with
  | true =>
    have hblank : isBlankLine ("\n" ++ "\n" ++ content) := isBlankLine_append.mpr ⟨rfl, hcontent⟩
    rw [append_assoc _ "\n".toList content, append_assoc _ "\n".toList, ← append_assoc "\n".toList, trim_heading hne hnew.last hblank]
    simp [feed]
  | false =>
    obtain ⟨b, hb, hsplit⟩ := trimRight_split content
    have hfilled : trimRight content ≠ [] := fun hnil => by
      rw [hsplit, hnil, nil_append, hb] at hcontent
      cases hcontent
    refine ⟨[[]], .inr rfl, ?_⟩
    conv_lhs => rw [hsplit, ← append_assoc, append_assoc (heading v), append_assoc (heading v), append_assoc (heading v),
      trim_heading hfilled (fun c => trimRight_last) hb]
    simp [feed]

lemma ends_append (h : ∀ l ∈ above, isHeading l = false)
    (hbelow : ∀ l ∈ below.head?, isHeading l ∧ lineStarts (heading v) l = false) :
    Ends v (above ++ below) ∧ upToHeading (above ++ below) = above := by
  have hnone : above.find? isHeading = none := find?_eq_none.mpr (by simpa using h)
  rw [Ends, find?_append, hnone, upToHeading, takeWhile_append_of_pos (by simpa using h)]
  cases below with
  | nil => simp
  | cons l below =>
    obtain ⟨hl, hown⟩ := hbelow l rfl
    simp [hl, hown]

lemma sectionFor_started {content : Text} (hv : '\n' ∉ v) (hne : cs ≠ []) (hcs : ∀ c ∈ cs, '\n' ∉ c.summary)
    (hlast : ∀ c ∈ (heading v).getLast?, isBlank c = false)
    (hold : ∀ l ∈ (rawLines (kept content)).head?, isHeading l ∧ lineStarts (heading v) l = false) :
    sectionFor v (trim (sectionText v (body cs) ++ "\n" ++ content) ++ "\n") = .ok (body cs) := by
  obtain ⟨ls, hls, hbody, hfilled, hrows⟩ := body_rows hne hcs
  have htrimmed : Trimmed (body cs) := trimmed_trim _
  obtain ⟨gap, hgap, hsaved⟩ := @trim_started v _ content htrimmed hfilled
  have hown : ∀ l ∈ [] :: ls ++ gap, '\n' ∉ l ∧ isHeading (l ++ ['\n']) = false := by
    intro l hl
    rcases mem_append.mp hl with hl | hl
    · rcases mem_cons.mp hl with rfl | hl
      · decide
      · exact hrows l hl
    · rcases hgap with rfl | rfl
      · cases hl
      · rw [mem_singleton.mp hl]
        decide
  have hfeed : trim (sectionText v (body cs) ++ "\n" ++ content) ++ "\n" = feed (heading v :: ([] :: ls ++ gap)) ++ kept content := by
    rw [hsaved, hbody, feed_cons, feed_append, feed_cons [], ← unlines_feed hls]
    simp
  have hflat : ∀ l ∈ heading v :: ([] :: ls ++ gap), '\n' ∉ l :=
    forall_mem_cons.mpr ⟨by simpa [heading] using ⟨by decide, hv⟩, fun l hl => (hown l hl).1⟩
  have hnone : ∀ x ∈ ([] :: ls ++ gap).map (· ++ ['\n']), isHeading x = false := by
    intro x hx
    obtain ⟨l, hl, rfl⟩ := mem_map.mp hx
    exact (hown l hl).2
  obtain ⟨hends, hup⟩ := ends_append hnone hold
  have hblank : isBlankLine (['\n'] ++ feed gap) := by rcases hgap with rfl | rfl <;> rfl
  have htext : (([] :: ls ++ gap).map (· ++ ['\n'])).flatten = ['\n'] ++ body cs ++ (['\n'] ++ feed gap) := by
    rw [← flatMap_def, ← feed, feed_append, feed_cons, ← unlines_feed hls, hbody]
    simp
  rw [sectionFor, hfeed, rawLines_feed hflat, map_cons, cons_append, sectionLines_own ((lineStarts_own rfl).mpr hlast),
    sectionLines_ends hends, hup]
  exact congrArg Except.ok (htext ▸ trim_of_split rfl htrimmed hblank)

lemma not_mem_unifyLineEnds (t : Text) : '\r' ∉ Bytes.unifyLineEnds t := by
  fun_induction Bytes.unifyLineEnds t with
  | case1 => exact not_mem_nil
  | case2 r ih => exact not_mem_cons_of_ne_of_not_mem (by decide) ih
  | case3 c r _ ih =>
    refine not_mem_cons_of_ne_of_not_mem ?_ ih
    split
    · decide
    next hc =>
      exact fun heq => hc (beq_iff_eq.mpr heq.symm)

variable {w : World} {subjects : List Text} {rest : List ProcessAnswer} {content : Text}

/-- A run that finds no section of its version puts one above the old changelog. -/
lemma updateChangelog_started (hgit : Answers w.processes subjects rest) (hfile : w.tree.readText "changelog.md" = .ok content)
    (hnone : findSection? v content = none) (hv : '\r' ∉ v) (hne : told subjects ≠ []) :
    ∃ sec w', (updateChangelog v).run.run w = (.ok sec, w') ∧
      w'.tree.readText "changelog.md" = .ok (trim (sectionText v (body (told subjects)) ++ "\n" ++ content) ++ "\n") := by
  have hupdate : update v (body (told subjects)) content = .ok (.started (sectionText v (body (told subjects)) ++ "\n" ++ content)) := by
    rw [update, hnone]
  obtain ⟨t, ht⟩ := (readable_file hfile).2 (trim (sectionText v (body (told subjects)) ++ "\n" ++ content) ++ "\n")
  have hreturn : '\r' ∉ trim (sectionText v (body (told subjects)) ++ "\n" ++ content) ++ "\n" := by
    have hbody : '\r' ∉ body (told subjects) := plain_body (.inr rfl) fun s hs hr => absurd (hgit.flat s hs _ hr) (by decide)
    have hheading : '\r' ∉ heading v := fun hr => hv ((mem_append.mp hr).resolve_left (by decide))
    have hcontent : '\r' ∉ content := by
      obtain ⟨bs, -, hread⟩ := ok_of_bind_ok hfile
      obtain ⟨text, -, hread⟩ := ok_of_bind_ok hread
      rw [← Except.ok.inj hread]
      exact not_mem_unifyLineEnds text
    have hsaved : '\r' ∉ sectionText v (body (told subjects)) ++ "\n" ++ content := by
      simp [sectionText, hbody, hheading, hcontent]
    exact fun hr => hsaved (trim_subset _ ((mem_append.mp hr).resolve_right (by decide)))
  obtain ⟨w', hrun, -, htree⟩ := run_updateChangelog hgit (fun h => absurd h hne) fun _ printed calls =>
    recordCommits_steps hfile hupdate fun w'' hw => by rw [hw]; exact ht
  exact ⟨_, w', hrun, by rw [htree, Tree.readText_writeText hfile hreturn ht]⟩

/-- The notes that are read for a version are those below its heading if the heading is clear, and only then unless other notes
are the same. After a run that adds a section they are its body if the first heading of the old changelog does not start like
the new one. -/
theorem sectionFor_published (v : Text) :
    (∀ text above l below, rawLines text = above ++ l :: below → l = heading v ∨ l = heading v ++ "\n" →
      (Clear v above below → sectionFor v text = .ok (notes below)) ∧
        ((∀ as o bs, rawLines text = as ++ o :: bs → as.length ≠ above.length → lineStarts (heading v) o →
            trim (upToHeading bs).flatten ≠ notes below) →
          sectionFor v text = .ok (notes below) → Clear v above below)) ∧
      ∀ w subjects rest content, Answers w.processes subjects rest → w.tree.readText "changelog.md" = .ok content →
        findSection? v content = none → told subjects ≠ [] → '\n' ∉ v → '\r' ∉ v →
        ∃ sec w' saved, (updateChangelog v).run.run w = (.ok sec, w') ∧ w'.tree.readText "changelog.md" = .ok saved ∧
          ((∀ c ∈ (heading v).getLast?, isBlank c = false) →
            (∀ l ∈ (rawLines (kept content)).head?, isHeading l ∧ lineStarts (heading v) l = false) →
              sectionFor v saved = .ok (body (told subjects))) := by
  constructor
  · intro text above l below hlines hl
    obtain ⟨b, hb, rfl⟩ : ∃ b, isBlankLine b ∧ l = heading v ++ b := by
      rcases hl with rfl | rfl
      · exact ⟨[], rfl, (append_nil _).symm⟩
      · exact ⟨_, rfl, rfl⟩
    exact ⟨sectionFor_of_clear hlines hb, clear_of_sectionFor hlines hb⟩
  · intro w subjects rest content hgit hfile hnone hne hfeed hreturn
    obtain ⟨sec, w', hrun, hread⟩ := updateChangelog_started hgit hfile hnone hreturn hne
    refine ⟨sec, w', _, hrun, hread, fun hlast hold => sectionFor_started hfeed hne (fun c hc => ?_) hlast hold⟩
    obtain ⟨s, hs, hsub, -⟩ := summary_of_mem_told hc
    exact ((hgit.flat s hs).of_subset hsub).not_mem

/-- The notes of a version between two others, and those of a new version above them. -/
theorem sectionFor_between_versions :
    sectionFor "0.8" "# Changelog for version 0.9\n\n* c\n\n# Changelog for version 0.8\n\n* b\n\n# Changelog for version 0.7\n" =
        .ok "* b" ∧
      ∃ sec w' saved, (updateChangelog "1.0").run.run (atChangelog [olderPart] ["feat: a"]) = (.ok sec, w') ∧
        w'.tree.readText "changelog.md" = .ok saved ∧ sectionFor "1.0" saved = .ok (body (told ["feat: a"])) := by
  have hclear : Clear "0.8" ["# Changelog for version 0.9\n", "\n", "* c\n", "\n"]
      ["\n", "* b\n", "\n", "# Changelog for version 0.7\n"] := by
    refine ⟨by decide, ?_, ?_, by decide⟩
    · rw [Restarts]
      decide
    · rw [Ends]
      decide
  have hgit : Answers (atChangelog [olderPart] ["feat: a"]).processes ["feat: a"] [] :=
    ⟨⟨0, "0.9\n", [], [], rfl, by decide⟩, by decide, ⟨by decide, by decide⟩⟩
  have hfile : (atChangelog [olderPart] ["feat: a"]).tree.readText "changelog.md" = .ok (written [olderPart]) := by decide
  obtain ⟨sec, w', saved, hrun, hread, hnotes⟩ :=
    (sectionFor_published "1.0").2 _ _ _ _ hgit hfile (by decide) (by decide) (by decide) (by decide)
  exact ⟨((sectionFor_published "0.8").1 _ _ _ _ (by decide) (.inr rfl)).1 hclear, sec, w', saved, hrun, hread,
    hnotes (by decide) (by decide)⟩

/-- A version whose name goes on like that of the new one takes its place: the notes that are read are the older ones. -/
theorem sectionFor_longer_version :
    let saved := ((updateChangelog "1.0").run.run
      (atChangelog [⟨"1.0rc1", "## Features\n\n* b"⟩] ["feat: a"])).2.tree.readText "changelog.md"
    saved = .ok (written [⟨"1.0", "## Features\n\n* a"⟩, ⟨"1.0rc1", "## Features\n\n* b"⟩]) ∧
      saved >>= sectionFor "1.0" = .ok "## Features\n\n* b" := by
  decide +kernel

end FunctionDocs.Release.Changelog
