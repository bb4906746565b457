import FunctionDocs.Proofs.Descriptions
import FunctionDocs.Proofs.Insertion

/-!
# What a new header hides

The comment of a function may stand above blank lines or directives, but a header is looked for directly above the function. Where
none is found, a placeholder comes between the comment and the function and becomes its comment; a Doxygen comment in another style
gives way to its plain description. All other comments keep the words of their description.
-/

open List

namespace FunctionDocs.DocBlock

open Text

variable {comment w : Text} {p t : Text}

/-! ## The words of a comment -/

lemma behindTag_infix (row : Text) : behindTag row <:+: row := by
  rw [behindTag]
  split
  · exact infix_refl row
  · exact (drop_suffix _ row).isInfix

lemma mem_descriptions {inside : Bool} {rows : List Text} {d : Text} (h : d ∈ descriptions inside rows) :
    ∃ row ∈ rows, d <:+: row := by
  induction rows generalizing inside with
  | nil => cases h
  | cons row rows ih =>
    rcases mem_cons.mp h with rfl | h
    · refine ⟨row, mem_cons_self, ?_⟩
      generalize (if (tagOf row).isEmpty then inside else !valueTags.contains (tagOf row)) = inside'
      cases inside' with
      | true => exact behindTag_infix row
      | false => exact nil_infix
    · obtain ⟨row', hrow', hd⟩ := ih h
      exact ⟨row', mem_cons_of_mem _ hrow', hd⟩

lemma prefix_trim (ht : Trimmed t) (h : p <+: t) : trim p <+: t := by
  obtain ⟨l, r, hl, -, hp⟩ := trim_split p
  cases l with
  | nil =>
    exact (prefix_append (trim p) r).trans (hp ▸ h)
  | cons c l =>
    rw [hp] at h
    obtain ⟨u, rfl⟩ := h
    have hc : isBlank c = false := ht.cons
    rw [(isBlankLine_cons.mp hl).1] at hc
    cases hc

lemma mem_lineTexts (h : t ∈ lineTexts comment) :
    ∃ l ∈ (trim comment).lines, ∃ p, p <+: trim l ∧ t = trim (p.dropWhile isMark) := by
  rw [lineTexts, mem_append] at h
  rcases h with h | h
  · obtain ⟨l, hl, rfl⟩ := mem_map.mp h
    exact ⟨l, dropLast_subset _ hl, trim l, prefix_refl _, rfl⟩
  · obtain ⟨l, hl, rfl⟩ := mem_map.mp h
    refine ⟨l, mem_of_getLast? (Option.mem_toList.mp hl), ?_⟩
    rw [lastText]
    split
    · refine ⟨trim (dropRight isMark (trim l)), prefix_trim (trimmed_trim l) ?_, rfl⟩
      have hsuffix := dropWhile_suffix isMark (l := (trim l).reverse)
      rw [dropRight, ← reverse_suffix, reverse_reverse]
      exact hsuffix
    · exact ⟨trim l, prefix_refl _, rfl⟩

lemma mem_descriptionWords (h : w ∈ descriptionWords comment) :
    ∃ l ∈ (trim comment).lines, ∃ p, p <+: trim l ∧ w <:+: p.dropWhile isMark := by
  obtain ⟨d, hd, hw⟩ := mem_flatMap.mp h
  obtain ⟨row, hrow, hin⟩ := mem_descriptions hd
  obtain ⟨l, hl, p, hp, rfl⟩ := mem_lineTexts hrow
  exact ⟨l, hl, p, hp, ((infix_of_mem_words hw).trans hin).trans (infix_trim _)⟩

lemma descriptionWords_infix (h : w ∈ descriptionWords comment) : w <:+: comment := by
  obtain ⟨l, hl, p, hp, hw⟩ := mem_descriptionWords h
  have hline : w <:+: l := ((hw.trans (dropWhile_suffix _).isInfix).trans hp.isInfix).trans (infix_trim l)
  exact (hline.trans (infix_of_mem_lines hl)).trans (infix_trim comment)

lemma descriptionWords_blank (h : isBlankLine comment) : descriptionWords comment = [] := by
  rw [eq_nil_iff_forall_not_mem]
  intro w hw
  obtain ⟨l, hl, -⟩ := mem_descriptionWords hw
  rw [trim_eq_nil_iff.mpr h] at hl
  cases hl

lemma not_isBlank_of_mem_descriptionWords (h : w ∈ descriptionWords comment) : ∀ c ∈ w, isBlank c = false := by
  obtain ⟨d, -, hw⟩ := mem_flatMap.mp h
  exact mem_words hw

/-! ## Line comments -/

lemma lines_unlines {ls : List Text} (hne : ls ≠ []) (hflat : ∀ l ∈ ls, Flat l) (htrimmed : ∀ l ∈ ls, Trimmed l ∧ l ≠ []) :
    (trim (unlines ls)).lines = ls := by
  have hhead : ∀ c, (unlines ls).head? = some c → isBlank c = false := by
    intro c hc
    obtain ⟨l, ls, rfl⟩ := exists_cons_of_ne_nil hne
    obtain ⟨htrim, hnil⟩ := htrimmed l mem_cons_self
    obtain ⟨u, hu⟩ := Source.prefix_unlines l ls
    rw [← hu, head?_append_of_ne_nil _ hnil] at hc
    exact htrim.head c hc
  have hlast : ∃ c, (unlines ls).getLast? = some c ∧ isBlank c = false := by
    obtain ⟨init, last, rfl⟩ := (eq_nil_or_concat' ls).resolve_left hne
    obtain ⟨htrim, hnil⟩ := htrimmed last (by simp)
    rw [unlines_append_cons, below, flatMap_nil, append_nil, getLast?_append_of_ne_nil _ hnil]
    exact ⟨last.getLast hnil, getLast?_eq_some_getLast hnil, htrim.last _ (getLast?_eq_some_getLast hnil)⟩
  obtain ⟨c, hc, hblank⟩ := hlast
  have htrim : trim (unlines ls) = unlines ls := by
    refine Trimmed.trim_eq ⟨hhead, fun d hd => ?_⟩
    rw [Option.some.inj (hd.symm.trans hc)]
    exact hblank
  have hfed : Fed (unlines ls) := joinWith_fed (by decide) fun l hl => fed_of_flat (hflat l hl)
  rw [htrim, lines_eq_splitOnChar hfed ⟨c, hc, fun hfeed => absurd hblank (by rw [hfeed]; decide)⟩]
  exact splitOnChar_joinWith hne fun l hl => (hflat l hl).not_mem

lemma infix_slashText {l : Text} (hslash : Header.isSlashLine l) (hp : p <+: trim l)
    (hblank : ∀ c ∈ w, isBlank c = false) (hw : w <:+: p.dropWhile isMark) : w <:+: Header.slashText l := by
  obtain ⟨r, hr⟩ : ∃ r, '/' :: '/' :: r = trim l := startsWith_iff.mp hslash
  have hmarks : p.dropWhile isMark <:+ p.drop 2 := by
    rw [← hr] at hp
    match p, hp with
    | [], _ => exact suffix_refl _
    | [c], hp =>
      rw [(cons_prefix_cons.mp hp).1]
      exact suffix_refl _
    | c :: d :: q, hp =>
      obtain ⟨hc, hp⟩ := cons_prefix_cons.mp hp
      rw [hc, (cons_prefix_cons.mp hp).1]
      change q.dropWhile isMark <:+ q
      exact dropWhile_suffix isMark
  have hdrop : p.drop 2 <+: (trim l).drop 2 := hp.drop 2
  exact carries_trim _ w hblank ((hw.trans hmarks.isInfix).trans hdrop.isInfix)

lemma infix_framed_slashes {run : List Text} (hflat : ∀ l ∈ run, Flat l) (hslash : ∀ l ∈ run, Header.isSlashLine l) {w : Text}
    (h : w ∈ descriptionWords (unlines (run.map trim))) :
    w <:+: unlines (Source.framed (run.map fun l => Header.starLine (Header.slashText l))) := by
  have hblank := not_isBlank_of_mem_descriptionWords h
  obtain ⟨l, hl, p, hp, hw⟩ := mem_descriptionWords h
  have hne : run.map trim ≠ [] := by
    intro hnil
    rw [hnil] at hl
    cases hl
  have htrimmed : ∀ l ∈ run.map trim, Trimmed l ∧ l ≠ [] := by
    intro l hl
    obtain ⟨m, hm, rfl⟩ := mem_map.mp hl
    refine ⟨trimmed_trim m, fun hnil => ?_⟩
    have hslash := hslash m hm
    rw [Header.isSlashLine, hnil] at hslash
    cases hslash
  have hflat' : ∀ l ∈ run.map trim, Flat l := by
    intro l hl
    obtain ⟨m, hm, rfl⟩ := mem_map.mp hl
    exact (hflat m hm).of_subset (trim_subset m)
  rw [lines_unlines hne hflat' htrimmed] at hl
  obtain ⟨m, hm, rfl⟩ := mem_map.mp hl
  rw [trim_trim] at hp
  have htext : w <:+: Header.slashText m := infix_slashText (hslash m hm) hp hblank hw
  have hstar : Header.slashText m <:+: Header.starLine (Header.slashText m) := by
    rw [Header.starLine]
    split
    next hempty =>
      rw [isEmpty_iff.mp hempty]
      exact nil_infix
    · exact (suffix_append _ _).isInfix
  refine (htext.trans hstar).trans (infix_joinWith ?_)
  exact mem_append_left _ (mem_cons_of_mem _ (mem_map.mpr ⟨m, hm, rfl⟩))

end FunctionDocs.DocBlock

namespace FunctionDocs.Header

open Text Code Source DocBlock

variable {f : Function} {content : List Text} {style : Option Value} {comment : Text}

/-! ## Comments along an insertion -/

/-- The texts of the header that takes the place of a function's comment: a placeholder where no header is found above it, and the
plain description where a Doxygen comment is not wanted. -/
def replacementTexts (style : Option Value) (ls : List Text) (f : Function) : Option (List Text) :=
  if headerExists ls f.startLine = .ok true then
    if f.isDoxygen = true ∧ wantsDoxygen style = .ok false then some (headerTexts f.name (some (plainText f.comment))) else none
  else some (headerTexts f.name none)

/-- The line comments that become a block are all of the function's comment. -/
def HeaderEdit.Whole (f : Function) (ls : List Text) : HeaderEdit → Prop
  | fromSlashes start => f.comment = unlines ((Header.slashRun ls start).map trim)
  | _ => True

instance (f : Function) (ls : List Text) (e : HeaderEdit) : Decidable (e.Whole f ls) :=
  match e with
  | .leave | .add _ | .restyle _ => inferInstanceAs (Decidable True)
  | .fromSlashes start => inferInstanceAs (Decidable (f.comment = unlines ((Header.slashRun ls start).map trim)))

/-- The edit of a function's header takes its comment as a whole. -/
def TakesWhole (style : Option Value) (ls : List Text) (f : Function) : Prop :=
  Then (headerEdit style ls f) fun e => e.GivesWay ls ∧ e.Whole f ls
  deriving Decidable

/-- All words of a function's description stand in a comment. -/
def Describes (comment : Text) (f : Function) : Prop := ∀ w ∈ descriptionWords f.comment, contains comment w = true
  deriving Decidable

/-- A comment tells the description of a function exactly if the header that takes the place of its comment tells it. -/
def ToldAgain (style : Option Value) (content : List Text) (comment : Text) (f : Function) : Prop :=
  Describes comment f ↔ ∀ texts ∈ replacementTexts style content f, Describes (unlines (headerBlock texts)) f

lemma toldAgain_blank (h : isBlankLine f.comment) (style : Option Value) (content : List Text) (comment : Text) :
    ToldAgain style content comment f := by
  have hnone : ∀ comment, Describes comment f := by
    intro comment w hw
    rw [descriptionWords_blank h] at hw
    cases hw
  exact iff_of_true (hnone comment) fun texts _ => hnone _

lemma toldAgain_kept
    (hexists : headerExists content f.startLine = .ok true) (hstyle : f.isDoxygen → wantsDoxygen style = .ok true)
    (h : Describes comment f) : ToldAgain style content comment f := by
  have hnone : replacementTexts style content f = none := by
    rw [replacementTexts, if_pos hexists, if_neg]
    rintro ⟨hdoxygen, hwants⟩
    rw [hstyle hdoxygen] at hwants
    cases hwants
  rw [ToldAgain, hnone]
  exact iff_of_true h nofun

lemma toldAgain_replaced {texts : List Text}
    (h : replacementTexts style content f = some texts) : ToldAgain style content (unlines (headerBlock texts)) f := by
  rw [ToldAgain, h]
  exact ⟨fun hall texts htexts => Option.some.inj htexts ▸ hall, fun hall => hall texts rfl⟩

lemma ToldAgain.of_untouched {g : Function} (hsame : Untouched f g)
    (h : ToldAgain style content comment g) : ToldAgain style content comment f := by
  have htexts : replacementTexts style content g = replacementTexts style content f := by
    rw [replacementTexts, replacementTexts, hsame.line, hsame.comment, hsame.same.name, hsame.doxygen]
  have hdescribes : ∀ comment, Describes comment g ↔ Describes comment f := by
    intro comment
    rw [Describes, Describes, hsame.comment]
  simp only [ToldAgain, htexts, hdescribes] at h ⊢
  exact h

lemma byHeader_toldAgain (style : Option Value) (content : List Text) (hflat : ∀ l ∈ content, Flat l) :
    ByHeader style content (TakesWhole style) fun _ f g => ToldAgain style content g.comment f where
  stays := by
    intro ls f g e he htidy hwhole hstays hline hread hsame
    obtain ⟨hgives, -⟩ := (Then.of_ok he).mp hwhole
    have hsaid : Describes g.comment f := by
      intro w hw
      rw [hsame.comment, contains_iff]
      exact descriptionWords_infix hw
    rcases headerEdit_cases htidy.found he with
      ⟨hblank, rfl⟩ | ⟨-, ⟨hexists, rfl⟩ | ⟨hexists, ⟨-, rfl⟩ | ⟨hstyle, ⟨-, rfl⟩ | ⟨-, rfl⟩⟩⟩⟩
    · exact toldAgain_blank hblank ..
    · cases hexists.symm.trans hstays
    · exact absurd hstays hgives.not_stays
    · cases hstays
    · exact toldAgain_kept (headerExists_congr hline ▸ hexists) hstyle hsaid
  casts := by
    intro ls f g e he htidy hwhole hcasts hcast hline hread hsame hstart hcomment
    obtain ⟨-, hwhole⟩ := (Then.of_ok he).mp hwhole
    rw [hcomment]
    have hadd : headerExists ls f.startLine = .ok false →
        ToldAgain style content (unlines (framed (HeaderEdit.body f ls (.add f.startLine)))) f := by
      intro hexists
      refine toldAgain_replaced ?_
      rw [replacementTexts, if_neg]
      rw [← headerExists_congr hline, hexists]
      nofun
    rcases headerEdit_cases htidy.found he with
      ⟨-, rfl⟩ | ⟨-, ⟨hexists, rfl⟩ | ⟨hexists, ⟨hstyle, rfl⟩ | ⟨hstyle, ⟨hslash, rfl⟩ | ⟨-, rfl⟩⟩⟩⟩
    · exact hadd hcasts
    · exact hadd hcasts
    · refine toldAgain_replaced ?_
      rw [replacementTexts, if_pos (headerExists_congr hline ▸ hexists), if_pos hstyle]
    · refine toldAgain_kept (headerExists_congr hline ▸ hexists) hstyle fun w hw => ?_
      rw [contains_iff]
      rw [show f.comment = unlines ((Header.slashRun ls f.startLine).map trim) from hwhole] at hw
      have hrun : ∀ l ∈ Header.slashRun ls f.startLine, Flat l ∧ isSlashLine l := by
        intro l hl
        obtain ⟨bs, -, hsplit⟩ := slashRun_split ls f.startLine
        refine ⟨hflat l ?_, ?_⟩
        · have hmem : l ∈ content.take f.startLine := by
            rw [← hline, ← Int.toNat_natCast f.startLine, hsplit]
            simp [hl]
          exact mem_of_mem_take hmem
        · exact mem_takeWhile_imp (mem_reverse.mp hl)
      exact infix_framed_slashes (fun l hl => (hrun l hl).1) (fun l hl => (hrun l hl).2) hw
    · cases hcasts
  upper := by
    intro ls u f g h e _ _ _ _ _ _ _ hcomment htold
    rw [hcomment]
    exact htold

lemma byClosing_toldAgain (style : Option Value) (content : List Text) :
    ByClosing (fun _ _ _ _ => True) fun _ f g => ToldAgain style content g.comment f where
  keeps := by
    intro ls name f g h i line new _ _ _ _ _ _ _ hsame htold
    rw [hsame.comment]
    exact htold

/-- After a tidy insertion the comment of a function tells the words of its old description exactly if no header took the place of
the old comment or the one that did tells them. -/
theorem insertComments_description_kept_iff {style : Option Value} {content new file : Text} {fs : List Function} {f : Function}
    (htidy : TidyRun style content (TakesWhole style) fun _ _ _ _ => True) (h : insertComments content style = .ok new)
    (hfs : functionsOf content file = .ok fs) (hf : f ∈ fs) :
    ∃ fs' f', functionsOf new file = .ok fs' ∧ f' ∈ fs' ∧ Same f f' ∧
      (Describes f'.comment f ↔ ∀ texts ∈ replacementTexts style content.lines f, Describes (unlines (headerBlock texts)) f) := by
  have hflat : ∀ l ∈ content.lines, Flat l := fun l hl => (mem_lines hl).2
  obtain ⟨fs₀, ls, gs, hfs₀, rfl, hls, hgs, hall⟩ :=
    insertComments_kept (byHeader_toldAgain style content.lines hflat) (byClosing_toldAgain style content.lines) htidy h
  obtain ⟨gs₀, hgs₀, hbefore⟩ := functionsIn_untouched [] hfs (functionsIn_ok hfs).1 fun _ => rfl
  obtain rfl := Except.ok.inj (hgs₀.symm.trans hfs₀)
  obtain ⟨fs', hfs', hafter⟩ := functionsIn_untouched file hgs (functionsIn_ok hgs).1 fun _ => rfl
  obtain ⟨f₀, hf₀, hff₀⟩ := exists_beside hbefore.flip hf
  obtain ⟨g, hg, hf₀g, htold⟩ := exists_beside hall.flip hf₀
  obtain ⟨f', hf', hgf'⟩ := exists_beside hafter.flip hg
  refine ⟨fs', f', functionsIn_lines hls hfs', hf', (hff₀.same.trans hf₀g).trans hgf'.same, ?_⟩
  rw [hgf'.comment]
  exact htold.of_untouched hff₀

def doxygenStyle : Option Value := some (.str "doxygen")

/-- A function below a line comment, and one without a comment. -/
def slashedText : Text := "// adds one\nint add(int a) \x7b\n\x7d\n\nvoid stop() \x7b\n\x7d\n"

/-- The functions of `slashedText`. -/
def slashedFunctions : List Function :=
  [⟨"add", "int", "int a", false, "// adds one", false, [], 1, 1, false, none⟩, ⟨"stop", "void", [], false, [], false, [], 4, 1, false, none⟩]

/-- The words of a line comment directly above a function stand in the block that it becomes. -/
theorem slashed_description_kept :
    TidyRun doxygenStyle slashedText (TakesWhole doxygenStyle) (fun _ _ _ _ => True) ∧ functionsOf slashedText [] = .ok slashedFunctions ∧
      ∃ f ∈ slashedFunctions, descriptionWords f.comment = ["adds".toList, "one".toList] ∧
        ∃ new fs' f', insertComments slashedText doxygenStyle = .ok new ∧ functionsOf new [] = .ok fs' ∧ f' ∈ fs' ∧ Same f f' ∧
          Describes f'.comment f := by
  have htidy : TidyRun doxygenStyle slashedText (TakesWhole doxygenStyle) fun _ _ _ _ => True := by decide +kernel
  have hfs : functionsOf slashedText [] = .ok slashedFunctions := by decide
  obtain ⟨new, hnew⟩ : ∃ new, insertComments slashedText doxygenStyle = .ok new := by decide +kernel
  obtain ⟨fs', f', hfs', hf', hsame, hiff⟩ := insertComments_description_kept_iff htidy hnew hfs List.mem_cons_self
  exact ⟨htidy, hfs, _, List.mem_cons_self, by decide, new, fs', f', hnew, hfs', hf', hsame, hiff.mpr (by decide)⟩

def apartText : Text := "/**\n * @brief adds\n */\n\nint add(int a) \x7b\n  return a;\n\x7d\n"

/-- The function of `apartText`. -/
def apartFunction : Function := ⟨"add", "int", "int a", false, "/**\n * @brief adds\n */", true, [], 4, 1, false, none⟩

/-- The header that `apartFunction` gets. -/
def apartHeader : Text := unlines (headerBlock ["add -->> TODO: Add your description here"])

/-- A comment above a blank line is hidden by the placeholder that comes between it and its function. -/
theorem apart_description_hidden :
    TidyRun doxygenStyle apartText (TakesWhole doxygenStyle) (fun _ _ _ _ => True) ∧ functionsOf apartText [] = .ok [apartFunction] ∧
      "adds".toList ∈ descriptionWords apartFunction.comment ∧
      (insertComments apartText doxygenStyle >>= (functionsOf · [])) =
        .ok [{ apartFunction with comment := apartHeader, isDoxygen := false, startLine := 9 }] ∧
      contains apartHeader "adds" = false := by
  decide +kernel

end FunctionDocs.Header
