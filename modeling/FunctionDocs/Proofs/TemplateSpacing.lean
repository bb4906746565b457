import FunctionDocs.Proofs.Dangling
import FunctionDocs.Proofs.Standing

/-!
# The space before template parameters

A template head is recognised only with white space between the word `template` and the bracket. Without it the parameters of the
template are lost and its head stays in the return type. So the two spellings of a line give the same functions exactly when neither of
them is read as a function at all.
-/

open List

namespace FunctionDocs.Source

open Text Pattern
variable {p t : Text} {h : Head}

open DocBlock (prefix_append_cons_iff)

/-! ## Prefixes that stay -/

lemma prefix_trimRight (hp : ∀ c ∈ p.getLast?, isBlank c = false) (h : p <+: t) : p <+: trimRight t := by
  obtain ⟨r, hr, ht⟩ := trimRight_split t
  rw [ht] at h
  rcases prefix_append_cases h with hpre | ⟨c, q, hq, rfl⟩
  · exact hpre
  · obtain ⟨d, hd⟩ : ∃ d, (c :: q).getLast? = some d := ⟨_, getLast?_cons⟩
    have hsolid := hp d (by rw [getLast?_append, hd]; rfl)
    rw [isBlankLine_iff.mp hr d (hq.subset (mem_of_getLast? hd))] at hsolid
    cases hsolid

lemma prefix_trim_of_trimmed (hp : Trimmed p) (hne : p ≠ []) (h : p <+: t) : p <+: trim t := by
  obtain ⟨c, q, rfl⟩ := exists_cons_of_ne_nil hne
  obtain ⟨r, rfl⟩ := h
  rw [trim_eq_trimRight (by rintro d ⟨⟩; exact hp.cons)]
  exact prefix_trimRight hp.last (prefix_append _ _)

lemma prefix_beforeSlashes (hp : '/' ∉ p) (h : p <+: t) : p <+: beforeSlashes t := by
  induction p generalizing t with
  | nil => exact nil_prefix
  | cons c p ih =>
    obtain ⟨hc, hp⟩ := ne_and_not_mem_of_not_mem_cons hp
    obtain ⟨r, rfl⟩ := h
    rw [cons_append, beforeSlashes]
    · exact cons_prefix_cons.mpr ⟨rfl, ih hp (prefix_append p r)⟩
    · rintro r' hr' -
      exact hc hr'.symm

lemma prefix_headText (hslash : '/' ∉ p) (hp : ∀ c ∈ p.getLast?, isBlank c = false) (h : p <+: t) : p <+: headText t := by
  obtain ⟨r, rfl⟩ := h
  have hdrop := dropInline_of_not_mem hslash
  rw [headText, dropInline_append (by rwa [hdrop]), hdrop]
  exact prefix_trimRight hp (prefix_beforeSlashes hslash (prefix_append _ _))

/-! ## A text of one line -/

lemma lines_of_flat (h : Flat t) (hne : t ≠ []) : lines t = [t] := by
  rw [lines_eq_splitOnChar (fun c hc hend => absurd hend (by rw [h c hc]; decide)), splitOnChar_of_not_mem h.not_mem]
  refine ⟨t.getLast hne, getLast?_eq_some_getLast hne, fun hfeed => h.not_mem ?_⟩
  rw [← hfeed]
  exact getLast_mem hne

lemma joinFrom_single {l : Text} (h : trim l = l) : joinFrom 0 none [l] = [⟨l, 0, 0⟩] := by
  have hbegin : beginLine 0 l = .inl ⟨l, 0, 0⟩ ∨ ∃ d, beginLine 0 l = .inr ⟨l, d, 0, 0⟩ := by
    simp only [beginLine, h]
    split
    · exact .inl rfl
    · split
      · split
        · exact .inr ⟨_, rfl⟩
        · exact .inl rfl
      · exact .inl rfl
  rw [joinFrom]
  rcases hbegin with hbegin | ⟨d, hbegin⟩ <;> · simp only [hbegin]; rfl

lemma dropInline_concat {c : Char} (hc : c ≠ '/') (t : Text) : ∃ u, dropInline (t ++ [c]) = u ++ [c] := by
  induction hn : t.length using Nat.strong_induction_on generalizing t with
  | _ k ih =>
    cases t with
    | nil =>
      refine ⟨[], ?_⟩
      rw [nil_append, dropInline_cons, inlineLength_of_ne hc]
      rfl
    | cons d r =>
      rw [cons_append, dropInline_cons]
      split
      next n hlen =>
        obtain ⟨x, hx, -⟩ := inlineLength_eq_some hlen
        rcases eq_nil_or_concat' (drop n (d :: (r ++ [c]))) with hnil | ⟨u, e, hu⟩
        · -- the line would end with the end of a comment
          have hend : "/*" ++ x ++ "*/" = ("/*" ++ x ++ ['*']) ++ ['/'] := by simp
          rw [hnil, append_nil, hend] at hx
          have hlast := congrArg getLast? hx
          rw [← cons_append, getLast?_concat, getLast?_concat] at hlast
          exact absurd (Option.some.inj hlast) hc
        · rw [hu] at hx ⊢
          have hlast := congrArg getLast? hx
          rw [← cons_append, getLast?_concat, ← append_assoc, getLast?_concat] at hlast
          cases hlast
          refine ih u.length ?_ u rfl
          have hlength := congrArg length hx
          simp at hlength hn
          omega
      · obtain ⟨u, hu⟩ := ih r.length (by rw [← hn]; exact Nat.lt_succ_self _) r rfl
        exact ⟨d :: u, by rw [hu]; rfl⟩

lemma splitBody_of_brace (t : Text) (first last : Nat) :
    (⟨t ++ ['{'], first, last⟩ : Joined).splitBody = [⟨t ++ ['{'], first, last⟩] := by
  have hnone : headAndBody? (t ++ ['{']) = none := by
    simp only [headAndBody?]
    split
    case isFalse => rfl
    split
    case h_2 => rfl
    rename_i head tail hcut
    rw [if_neg]
    intro hclose
    have hcloses := endsWith_iff.mp hclose
    rcases eq_nil_or_concat' tail with rfl | ⟨u, c, rfl⟩
    · exact absurd hcloses (by decide)
    -- what follows the first brace ends with the last one
    · have hlast := congrArg getLast? (cutFirst_eq_some hcut)
      rw [← append_assoc, getLast?_concat, getLast?_concat] at hlast
      cases hlast
      rw [trim_concat rfl, singleton_suffix_iff_getLast?_eq_some, getLast?_concat] at hcloses
      cases hcloses
  rw [Joined.splitBody, hnone]

/-- The front of a line: it does not begin with white space, and holds no slash and no closing brace. -/
structure Front (w : Text) : Prop where
  head : ∃ c ∈ w.head?, isBlank c = false
  slash : '/' ∉ w
  brace : '}' ∉ w
  flat : Flat w

variable {w x : Text}

lemma Front.trim_eq (hw : Front w) (x : Text) : trim (w ++ (x ++ ['{'])) = w ++ (x ++ ['{']) := by
  refine Trimmed.trim_eq ⟨fun c hc => ?_, fun c hc => ?_⟩
  · obtain ⟨d, hd, hblank⟩ := hw.head
    rw [head?_append, Option.mem_def.mp hd] at hc
    cases hc
    exact hblank
  · rw [← append_assoc, getLast?_concat] at hc
    cases hc
    decide

lemma Front.dropInline_append (hw : Front w) (t : Text) : dropInline (w ++ t) = w ++ dropInline t := by
  have hdrop := dropInline_of_not_mem hw.slash
  rw [Source.dropInline_append (by rw [hdrop]; exact hw.slash), hdrop]

lemma Front.joinLines_eq (hw : Front w) (hx : Unbroken (dropInline (x ++ ['{']))) :
    joinLines [w ++ (x ++ ['{'])] = [⟨w ++ dropInline (x ++ ['{']), 0, 0⟩] := by
  obtain ⟨u, hu⟩ := dropInline_concat (c := '{') (by decide) x
  have hsplit : (⟨w ++ (x ++ ['{']), 0, 0⟩ : Joined).splitDefinitions = [⟨w ++ (u ++ ['{']), 0, 0⟩] := by
    have hcode : trim (dropInline (w ++ (x ++ ['{']))) = w ++ (u ++ ['{']) := by rw [hw.dropInline_append, hu, hw.trim_eq]
    have hwhole := hx.append hw.brace
    rw [hu, ← hcode] at hwhole
    rw [hwhole.splitDefinitions_eq, hcode, if_neg (by simp)]
  have hbody := splitBody_of_brace (w ++ u) 0 0
  rw [append_assoc] at hbody
  rw [joinLines, joinFrom_single (hw.trim_eq x), flatMap_singleton, hsplit, flatMap_singleton, hbody, hu]

lemma Front.hiddenBlocks_eq (hw : Front w) (x : Text) : hiddenBlocks [w ++ (x ++ ['{'])] = [] := by
  have hopen : startsWith (trim (w ++ (x ++ ['{']))) "/*" = false := by
    rw [hw.trim_eq, startsWith_eq_false_iff]
    obtain ⟨c, hc, -⟩ := hw.head
    obtain ⟨r, rfl⟩ := head?_eq_some_iff.mp hc
    intro hbegin
    have hslash := (cons_prefix_cons.mp hbegin).1
    exact hw.slash (hslash ▸ mem_cons_self)
  have hblocks : blocks [w ++ (x ++ ['{'])] = [] := by
    rw [blocks, blocksFrom]
    simp only [hopen]
    rfl
  rw [hiddenBlocks, hblocks]
  rfl

/-- What is found on a single joined line: nothing, or the function of its head. -/
def FoundOn (j : Joined) (fs : List Function) : Prop :=
  fs = [] ∨ ∃ h f, fs = [f] ∧ readHead (headLine j) [] = .ok (some h) ∧ f.returnType = (mask j.text).restore h.returnType ∧
    f.isTemplate = (readTemplate (mask j.text) none).1.isSome ∧ f.templateParams = (readTemplate (mask j.text) none).1.join

lemma Front.functionsOf_ok (hw : Front w) (hflat : Flat x) (hx : Unbroken (dropInline (x ++ ['{']))) (file : Text) :
    ∃ fs, functionsOf (w ++ (x ++ ['{'])) file = .ok fs ∧ FoundOn ⟨w ++ dropInline (x ++ ['{']), 0, 0⟩ fs := by
  have hlines : (w ++ (x ++ ['{'])).lines = [w ++ (x ++ ['{'])] :=
    lines_of_flat (hw.flat.append (hflat.append (by decide))) (by simp)
  have hmarked : marked [w ++ (x ++ ['{'])] = [(⟨w ++ dropInline (x ++ ['{']), 0, 0⟩, false)] := by
    rw [marked, hw.joinLines_eq hx, hw.hiddenBlocks_eq]
    rfl
  obtain ⟨ss, hss⟩ : ∃ ss, startsOver [] [w ++ (x ++ ['{'])] = .ok ss := by
    cases hstarts : startsOver [] [w ++ (x ++ ['{'])] with
    | ok ss => exact ⟨ss, rfl⟩
    | error e =>
      rw [startsOver, hmarked, startsOn_error_iff, dangles_cons] at hstarts
      obtain ⟨-, ⟨-, hdangling⟩ | ⟨above, j, rest, h, -⟩⟩ := hstarts
      · obtain ⟨passed, k, rest, h, -⟩ := hdangling.body
        simp at h
      · simp at h
  obtain ⟨fs, hfs⟩ := functionsIn_of_starts hss file
  rw [functionsOf_eq, hlines]
  refine ⟨fs, hfs, ?_⟩
  rw [functionsIn, hw.joinLines_eq hx] at hfs
  rcases functionsFrom_cons hfs with ⟨-, h⟩ | ⟨head, f, -, hread, -, hf, h⟩
  · cases h
    exact .inl rfl
  · cases h
    obtain ⟨comment, -, rfl⟩ := Sheet.function_ok hf
    exact .inr ⟨head, _, rfl, hread, rfl, rfl, rfl⟩

/-! ## Template heads -/

lemma mask_append (hw : '<' ∉ w) (t : Text) : mask (w ++ t) = ⟨w ++ (mask t).text, (mask t).parts⟩ := by
  induction w with
  | nil => rfl
  | cons c w ih =>
    obtain ⟨hc, hw⟩ := ne_and_not_mem_of_not_mem_cons hw
    have hstep : mask (c :: (w ++ t)) = ⟨c :: (mask (w ++ t)).text, (mask (w ++ t)).parts⟩ := by
      rw [mask, maskFrom, if_neg (by simpa using symm hc)]
      rfl
    rw [cons_append, hstep, ih hw]
    rfl

lemma mask_opening (t : Text) : mask ('<' :: t) = ⟨'<' :: t, []⟩ ∨ ∃ r, (mask ('<' :: t)).text = placeholder 0 ++ r := by
  have hmask := maskedAs_mask ('<' :: t)
  generalize mask ('<' :: t) = m at hmask
  generalize hline : '<' :: t = line at hmask
  cases hmask with
  | rest _ => exact .inl rfl
  | char hc _ => exact absurd (cons.inj hline).1.symm hc
  | part _ _ => exact .inr ⟨_, rfl⟩

lemma takeWhile_blank {y a : Text} {d : Char} (hy : isBlankLine y) (hd : isBlank d = false) :
    (y ++ d :: a).takeWhile isBlank = y := (span_append (isBlankLine_iff.mp hy) (by simpa using hd)).1

lemma templateHead_match {w : Text} {c : Char} {m : Match} (hw : isBlankLine w) (hc : isBlank c = false)
    (ht : "template".toList ++ (w ++ [c]) <+: t) (hm : templateHead.match? t = some m) : w ≠ [] ∧ c = '_' := by
  obtain ⟨y, digits, r, hne, hy, -, -, rfl⟩ := templateHead_params hm
  obtain ⟨r', hline⟩ := ht
  have hwhole : "template" ++ (w ++ c :: r') = "template" ++ (y ++ '_' :: (['_', 'T', 'P', 'L'] ++ (digits ++ ['_', '_'] ++ r))) := by
    simpa [mark, markLetters] using hline
  have htail := append_cancel_left hwhole
  have hsame := congrArg (takeWhile isBlank) htail
  rw [takeWhile_blank hw hc, takeWhile_blank hy (by decide)] at hsame
  subst hsame
  exact ⟨hne, (cons.inj (append_cancel_left htail)).1⟩

lemma templateHead_isSome (ht : "template ".toList ++ placeholder 0 <+: t) : (templateHead.match? t).isSome := by
  obtain ⟨r, rfl⟩ := ht
  rw [match?, matchAt?, Option.isSome_map]
  refine run_isSome templateHead (by simp [templateHead, placeholderPattern, Pattern.all, blanks1, Blind]) ?_ rfl fun _ _ => rfl
  refine ⟨"template", " " ++ placeholder 0, rfl, rfl, " ", placeholder 0, rfl, ⟨le_refl 1, by decide⟩, ?_⟩
  exact ⟨"__TPL", ['0', '_', '_'], by decide, rfl, ['0'], ['_', '_'], rfl, ⟨le_refl 1, by decide⟩, rfl⟩

lemma readTemplate_isSome {m : Masked} (h : "template" <+: m.text) : (readTemplate m none).1.isSome := by
  rw [readTemplate, if_pos (startsWith_iff.mpr h)]
  split <;> rfl

lemma readTemplate_of_none {m : Masked} (h : "template" <+: m.text) (hnone : templateHead.match? (trim m.text) = none) :
    readTemplate m none = (some none, m.text) := by
  rw [readTemplate, if_pos (startsWith_iff.mpr h), hnone]

lemma readTemplate_tight (t : Text) :
    readTemplate (mask ("template".toList ++ '<' :: t)) none = (some none, (mask ("template".toList ++ '<' :: t)).text) := by
  rw [mask_append (by decide)]
  refine readTemplate_of_none (prefix_append _ _) ?_
  cases hm : templateHead.match? (trim ("template" ++ (mask ('<' :: t)).text)) with
  | none => rfl
  | some m =>
    obtain ⟨c, r, hc, htext⟩ : ∃ c r, (c = '<' ∨ c = '_') ∧ (mask ('<' :: t)).text = c :: r := by
      rcases mask_opening t with hmask | ⟨r, hmask⟩
      · exact ⟨'<', t, .inl rfl, by rw [hmask]⟩
      · exact ⟨'_', _, .inr rfl, by rw [hmask]; rfl⟩
    rw [htext] at hm
    have hblank : isBlank c = false := by rcases hc with rfl | rfl <;> decide
    have htrimmed : Trimmed ("template".toList ++ ([] ++ [c])) := by rcases hc with rfl | rfl <;> exact ⟨by decide, by decide⟩
    have hbegin := prefix_trim_of_trimmed htrimmed (by simp) (t := "template" ++ c :: r) ⟨r, by simp⟩
    exact absurd rfl (templateHead_match rfl hblank hbegin hm).1

/-! ## Return types -/

lemma HeadCut.Reads.opening_in_type {c : HeadCut} (hc : c.Reads h) (hparen : '(' ∉ w) (hletter : 'o' ∉ w)
    (hline : w ++ ['<'] <+: c.line) : w ++ ['<'] <+: c.lead ++ c.type := by
  have hsplit : c.line = (c.lead ++ c.type) ++ (c.gap ++ (c.name ++ c.behind) ++ '(' :: (c.params ++ ')' :: c.tail)) := by
    simp [line]
  rw [hsplit] at hline
  rcases prefix_append_cases hline with hpre | ⟨d, q, hline, hq⟩
  · exact hpre
  have hsub : d :: q ⊆ w ++ ['<'] := by
    rw [hq]
    exact subset_append_right _ _
  have hin : '<' ∈ d :: q := by
    have hlast := congrArg getLast? hq
    rw [getLast?_concat, getLast?_append_of_ne_nil _ (cons_ne_nil d q)] at hlast
    exact mem_of_getLast? hlast.symm
  have hfree : ∀ {e : Char}, e ∉ w → e ≠ '<' → e ∉ d :: q := fun he hne hmem =>
    (mem_append.mp (hsub hmem)).elim he fun hmem => hne (mem_singleton.mp hmem)
  rw [prefix_append_cons_iff (hfree hparen (by decide))] at hline
  -- the bracket is no white space, so it would stand in the name
  have hblank : ∀ {b : Text}, isBlankLine b → '<' ∉ b := fun hb => not_mem_of_isBlankLine hb (by decide)
  rcases prefix_append_cases hline with hpre | ⟨e, v, hline, hv⟩
  · exact absurd (hpre.subset hin) (hblank hc.gap)
  have hin' : '<' ∈ e :: v := (mem_append.mp (hv ▸ hin)).resolve_left (hblank hc.gap)
  have hname : '<' ∈ c.name := (mem_append.mp (hline.subset hin')).resolve_right (hblank hc.behind)
  rcases hc.spelled with hchars | ⟨r, hr⟩
  · exact absurd (hchars '<' hname) (by decide)
  · -- an operator begins with a letter that does not stand before the bracket
    rw [← hr] at hline
    refine absurd ?_ (hfree hletter (by decide))
    rw [hv, (cons_prefix_cons.mp hline).1]
    exact mem_append_right _ mem_cons_self

lemma returnType_opens {line : Text} {below : List Joined} (hparen : '(' ∉ w) (hletter : 'o' ∉ w)
    (hw : Trimmed (w ++ ['<'])) (hline : w ++ ['<'] <+: line) (hread : readHead line below = .ok (some h)) :
    w ++ ['<'] <+: h.returnType := by
  obtain ⟨c, rfl, hc⟩ := readHead_cut hread
  have hpre := hc.opening_in_type hparen hletter hline
  rw [hc.returnType]
  refine prefix_trim_of_trimmed hw (by simp) ?_
  cases hlead : c.lead with
  | nil => rwa [hlead] at hpre
  | cons b l =>
    rw [hlead] at hpre
    have hb := (isBlankLine_iff.mp hc.lead) b (by rw [hlead]; exact mem_cons_self)
    rw [hw.head b (by
      obtain ⟨r, hr⟩ := hpre
      have hhead := congrArg head? hr
      rw [head?_append_of_ne_nil _ (by simp)] at hhead
      exact hhead)] at hb
    cases hb

/-! ## The two spellings -/

def Function.view (f : Function) : Text × Text × Text × Bool × Option Text :=
  (f.returnType, f.name, f.params, f.isTemplate, f.templateParams)

lemma FoundOn.tight {fs : List Function} (h : FoundOn ⟨"template" ++ '<' :: t, 0, 0⟩ fs) :
    ∀ f ∈ fs, f.isTemplate ∧ f.templateParams = none := by
  rcases h with rfl | ⟨head, f, rfl, -, -, htemplate, hparams⟩
  · exact nofun
  · intro f' hf'
    cases mem_singleton.mp hf'
    simp only [readTemplate_tight] at htemplate hparams
    exact ⟨htemplate, hparams⟩

lemma FoundOn.spaced {gs : List Function} (h : FoundOn ⟨"template " ++ '<' :: t, 0, 0⟩ gs) : ∀ g ∈ gs, g.isTemplate := by
  rcases h with rfl | ⟨head, g, rfl, -, -, htemplate, -⟩
  · exact nofun
  · intro g' hg'
    cases mem_singleton.mp hg'
    rw [htemplate]
    refine readTemplate_isSome ?_
    exact ⟨' ' :: (mask ('<' :: t)).text, rfl⟩

lemma unclosed_in_type {b t : Text} {below : List Joined} {h : Head} (hb : isBlankLine b) (hmask : mask ('<' :: t) = ⟨'<' :: t, []⟩)
    (hread : readHead (headLine ⟨"template".toList ++ b ++ '<' :: t, 0, 0⟩) below = .ok (some h)) :
    "template".toList ++ b ++ ['<'] <+: (mask ("template".toList ++ b ++ '<' :: t)).restore h.returnType := by
  have hfree : ∀ {c : Char}, isBlank c = false → c ∉ "template".toList → c ∉ "template".toList ++ b :=
    fun hc hmem hin => (mem_append.mp hin).elim hmem (not_mem_of_isBlankLine hb hc)
  have hbegin : "template".toList ++ b ++ ['<'] <+: "template".toList ++ b ++ '<' :: t := ⟨t, by simp⟩
  have hlast : ("template".toList ++ b ++ ['<']).getLast? = some '<' := getLast?_concat
  have htrimmed : Trimmed ("template".toList ++ b ++ ['<']) := by
    refine ⟨fun c hc => ?_, fun c hc => ?_⟩
    · cases hc
      decide
    · rw [hlast] at hc
      cases hc
      decide
  have hwhole : mask ("template".toList ++ b ++ '<' :: t) = ⟨"template".toList ++ b ++ '<' :: t, []⟩ := by
    rw [mask_append (hfree (by decide) (by decide)), hmask]
  have hnone : templateHead.match? (trim ("template".toList ++ b ++ '<' :: t)) = none := by
    cases hm : templateHead.match? (trim ("template".toList ++ b ++ '<' :: t)) with
    | none => rfl
    | some m =>
      have hfront := prefix_trim_of_trimmed htrimmed (by simp) hbegin
      exact absurd (templateHead_match hb (by decide) hfront hm).2 (by decide)
  have hline : headLine ⟨"template".toList ++ b ++ '<' :: t, 0, 0⟩ = headText ("template".toList ++ b ++ '<' :: t) := by
    have hread := readTemplate_of_none (m := ⟨"template".toList ++ b ++ '<' :: t, []⟩) ⟨b ++ '<' :: t, by simp⟩ hnone
    simp only [headLine, hwhole, hread]
  rw [hwhole]
  refine returnType_opens (hfree (by decide) (by decide)) (hfree (by decide) (by decide)) htrimmed ?_ (hline ▸ hread)
  refine prefix_headText ?_ htrimmed.last hbegin
  intro hslash
  rcases mem_append.mp hslash with hslash | hslash
  · exact hfree (by decide) (by decide) hslash
  · exact absurd hslash (by decide)

lemma FoundOn.view_ne {f g : Function} (hf : FoundOn ⟨"template".toList ++ '<' :: t, 0, 0⟩ [f])
    (hg : FoundOn ⟨"template ".toList ++ '<' :: t, 0, 0⟩ [g]) : f.view ≠ g.view := by
  intro hview
  have htight := (hf.tight f mem_cons_self).2
  obtain hnil | ⟨head, f', hfs, hread, htype, -, -⟩ := hf
  · cases hnil
  obtain hnil | ⟨head', g', hgs, hread', htype', -, hparams'⟩ := hg
  · cases hnil
  cases hfs
  cases hgs
  simp only [Function.view, Prod.mk.injEq] at hview
  obtain ⟨hreturn, -, -, -, hparams⟩ := hview
  rcases mask_opening t with hmask | ⟨r, hmask⟩
  · -- both spellings stay in the return type
    have hf := @unclosed_in_type [] t [] head rfl hmask hread
    have hg := @unclosed_in_type [' '] t [] head' rfl hmask hread'
    have hsame : (mask ("template".toList ++ [] ++ '<' :: t)).restore head.returnType =
        (mask ("template".toList ++ [' '] ++ '<' :: t)).restore head'.returnType := htype.symm.trans (hreturn.trans htype')
    rw [hsame] at hf
    obtain ⟨r, hr⟩ := hf
    obtain ⟨r', hr'⟩ := hg
    have hchar := congrArg (·[8]?) (hr.trans hr'.symm)
    exact absurd hchar (by simp)
  · -- the parameters of the template are found with the space and not without
    have hbegin : "template ".toList ++ placeholder 0 <+: trim ("template ".toList ++ (mask ('<' :: t)).text) := by
      rw [hmask]
      exact prefix_trim_of_trimmed ⟨by decide, by decide⟩ (by decide) ⟨r, by rw [append_assoc]⟩
    obtain ⟨m, hm⟩ := Option.isSome_iff_exists.mp (templateHead_isSome hbegin)
    simp only [mask_append (w := "template ".toList) (by decide), readTemplate] at hparams'
    rw [if_pos, hm] at hparams'
    · rw [htight, hparams'] at hparams
      cases hparams
    · exact startsWith_iff.mpr ⟨' ' :: (mask ('<' :: t)).text, rfl⟩

lemma front_tight : Front "template<" := ⟨⟨'t', rfl, by decide⟩, by decide, by decide, by decide⟩

lemma front_spaced : Front "template <" := ⟨⟨'t', rfl, by decide⟩, by decide, by decide, by decide⟩

/-- A line with template parameters, whole and with an opening brace at its end, is read in both spellings, with the space before the
parameters and without, as a template. Without the space the parameters are not reported, and the two spellings agree only if neither
is read as a function. -/
theorem functionsOf_spacing_iff {params head : Text} (hparams : Flat params) (hhead : Flat head) (hbrace : endsWith head ['{'] = true)
    (hwhole : Unbroken (dropInline (params ++ '>' :: head))) (file : Text) :
    ∃ fs gs, functionsOf ("template<" ++ (params ++ '>' :: head)) file = .ok fs ∧
      functionsOf ("template <" ++ (params ++ '>' :: head)) file = .ok gs ∧
      (∀ f ∈ fs, f.isTemplate = true ∧ f.templateParams = none) ∧ (∀ g ∈ gs, g.isTemplate = true) ∧
      (fs.map Function.view = gs.map Function.view ↔ fs = [] ∧ gs = []) := by
  obtain ⟨head, rfl⟩ := endsWith_iff.mp hbrace
  have hline : params ++ '>' :: (head ++ ['{']) = (params ++ '>' :: head) ++ ['{'] := by simp
  have hflat : Flat (params ++ '>' :: head) :=
    hparams.append (List.forall_mem_cons.mpr ⟨by decide, (flat_append.mp hhead).1⟩)
  rw [hline] at hwhole ⊢
  obtain ⟨fs, hfs, hfound⟩ := front_tight.functionsOf_ok hflat hwhole file
  obtain ⟨gs, hgs, hfound'⟩ := front_spaced.functionsOf_ok hflat hwhole file
  have htight : FoundOn ⟨"template".toList ++ '<' :: dropInline (params ++ '>' :: head ++ ['{']), 0, 0⟩ fs := hfound
  have hspaced : FoundOn ⟨"template ".toList ++ '<' :: dropInline (params ++ '>' :: head ++ ['{']), 0, 0⟩ gs := hfound'
  refine ⟨fs, gs, hfs, hgs, htight.tight, hspaced.spaced, fun hview => ?_, fun ⟨hf, hg⟩ => by rw [hf, hg]⟩
  have hlength := congrArg List.length hview
  rw [List.length_map, List.length_map] at hlength
  rcases htight.imp_right fun ⟨_, f, hf, _⟩ => Exists.intro f hf with rfl | ⟨f, rfl⟩
  · exact ⟨rfl, List.length_eq_zero_iff.mp hlength.symm⟩
  · obtain ⟨g, rfl⟩ := List.length_eq_one_iff.mp hlength.symm
    exact absurd (List.cons.inj hview).1 (htight.view_ne hspaced)

def sizedParams : Text := "typename T, int N"

def sizedRest : Text := " T f(T a) \x7b"

/-- The two spellings of a line are read differently. -/
theorem spacing_seen :
    Flat sizedParams ∧ Flat sizedRest ∧ endsWith sizedRest ['{'] = true ∧
      Unbroken (dropInline (sizedParams ++ '>' :: sizedRest)) ∧
      ∃ fs gs, functionsOf ("template<" ++ (sizedParams ++ '>' :: sizedRest)) [] = .ok fs ∧
        functionsOf ("template <" ++ (sizedParams ++ '>' :: sizedRest)) [] = .ok gs ∧
        fs.map Function.view ≠ gs.map Function.view := by
  have hwhole : Unbroken (dropInline (sizedParams ++ '>' :: sizedRest)) := unbroken_of_not_mem (by decide)
  have hflat : Flat sizedParams := by decide
  have hflat' : Flat sizedRest := by decide
  obtain ⟨fs, gs, hfs, hgs, -, -, hiff⟩ := functionsOf_spacing_iff hflat hflat' rfl hwhole []
  refine ⟨hflat, hflat', rfl, hwhole, fs, gs, hfs, hgs, fun hview => ?_⟩
  rw [(hiff.mp hview).1] at hfs
  revert hfs
  decide

/-- A function whose template parameters follow the word directly keeps the template head in its return type. -/
theorem tight_not_spaced :
    functionsOf "template<typename T> T f(T a) \x7b" [] =
        .ok [⟨"f", "template<typename T> T", "T a", false, [], false, [], 0, 1, true, none⟩] ∧
      functionsOf "template <typename T> T f(T a) \x7b" [] =
        .ok [⟨"f", "T", "T a", false, [], false, [], 0, 1, true, some "<typename T>".toList⟩] := by
  decide

end FunctionDocs.Source
