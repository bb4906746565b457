import FunctionDocs.Proofs.ParamLines

/-!
# The parameter lines of a composed comment

Which lines of a composed comment are about a parameter can be told from the comment alone. Such a line begins with the tag, and
the lines below it that are set back belong to it. No other paragraph of a comment has a line that looks so: what stands below
the first line of a paragraph is set back behind its star, and taking out hints leaves it set back.
-/

open List

namespace FunctionDocs.DocBlock

open Text Pattern

variable {e : Entry} {docs : List (Text × Text)} {ls : List Text} {k : Nat} {p t u : Text} {ms ps : List Text}
  {m b name comment tag : Text} {size : Text → Option Nat}

/-! ## Reading parameter lines -/

def paramMark : Text := " * @param "

/-- The lines of parameters among the lines of a comment, each with the lines below it that continue it. -/
def paramRowsIn : List Text → List (List Text)
  | [] => []
  | l :: ls =>
    if startsWith l paramMark then (l :: ls.takeWhile (startsWith · margin)) :: paramRowsIn ls else paramRowsIn ls

lemma paramRowsIn_skip (h : ∀ l ∈ ls, ¬paramMark <+: l) (ms : List Text) : paramRowsIn (ls ++ ms) = paramRowsIn ms := by
  induction ls with
  | nil => rfl
  | cons l ls ih =>
    obtain ⟨hl, hls⟩ := forall_mem_cons.mp h
    have hno : ¬startsWith l paramMark := fun hs => hl (startsWith_iff.mp hs)
    rw [cons_append, paramRowsIn, if_neg hno, ih hls]

lemma takeWhile_margin_append (h : ∀ l, ms.head? = some l → ¬margin <+: l) :
    (ls ++ ms).takeWhile (startsWith · margin) = ls.takeWhile (startsWith · margin) := by
  induction ls with
  | nil =>
    cases ms with
    | nil => rfl
    | cons l ms => exact takeWhile_cons_of_neg fun hs => h l rfl (startsWith_iff.mp hs)
  | cons l ls ih =>
    rw [cons_append, takeWhile_cons, takeWhile_cons, ih]

/-- The lines of a paragraph that a parameter takes: the first, and those set back below it. -/
def paragraphRows (p : Text) : List Text :=
  (splitOnChar '\n' p).take 1 ++ (splitOnChar '\n' p).tail.takeWhile (startsWith · margin)

/-! ## Lines below the first -/

lemma lines_behind {P : Text → Prop} (hu : ∀ a b, u = a ++ '\n' :: b → P b) (ht : Flat t) :
    ∀ a b, t ++ u = a ++ '\n' :: b → P b := by
  intro a b hab
  rw [append_eq_append_iff] at hab
  rcases hab with ⟨z, -, hz⟩ | ⟨z, hz, hb⟩
  · exact hu z b hz
  · cases z with
    | nil => exact hu [] b hb.symm
    | cons c z =>
      cases hb
      exact absurd (by rw [hz]; simp) ht.not_mem

/-- No line of the text but the first begins a parameter. -/
def Quiet (t : Text) : Prop := ∀ a b, t = a ++ '\n' :: b → ¬paramMark <+: b

lemma quiet_of_flat (h : Flat t) : Quiet t := by
  rintro a b rfl
  exact absurd (by simp) h.not_mem

lemma Quiet.within (h : Quiet t) (hu : u <:+: t) : Quiet u := by
  obtain ⟨x, y, rfl⟩ := hu
  intro a b hab hb
  refine h (x ++ a) (b ++ y) ?_ (hb.trans (prefix_append _ _))
  rw [hab]
  simp

lemma Quiet.behind (hu : Quiet u) (ht : Flat t) : Quiet (t ++ u) := lines_behind hu ht

/-- The first line of a text, and the lines below it, which come from behind its line feeds. -/
lemma splitOnChar_lines (t : Text) :
    ∃ l ls, splitOnChar '\n' t = l :: ls ∧ l <+: t ∧ (∀ m, '\n' ∉ m → m <+: t → m <+: l) ∧
      ∀ x ∈ ls, ∃ a b, t = a ++ '\n' :: b ∧ x <+: b := by
  induction hn : t.length using Nat.strongRecOn generalizing t with
  | ind n ih =>
    rcases not_mem_or_split '\n' t with h | ⟨a, b, rfl, ha⟩
    · exact ⟨t, [], splitOnChar_of_not_mem h, prefix_refl t, fun m _ hm => hm, by simp⟩
    · obtain ⟨l, ls, hb, hl, -, hls⟩ := ih b.length (by rw [← hn]; simp; omega) b rfl
      refine ⟨a, l :: ls, ?_, prefix_append _ _, fun m hm hp => (prefix_append_cons_iff hm).mp hp, ?_⟩
      · rw [splitOnChar_append_cons, splitOnChar_of_not_mem ha, hb]
        rfl
      · intro x hx
        rcases mem_cons.mp hx with rfl | hx
        · exact ⟨a, b, rfl, hl⟩
        · obtain ⟨a', b', rfl, hx⟩ := hls x hx
          exact ⟨a ++ '\n' :: a', b', by simp, hx⟩

lemma Quiet.no_param (h : Quiet p) (hp : ¬paramMark <+: p) : ∀ l ∈ splitOnChar '\n' p, ¬paramMark <+: l := by
  obtain ⟨l, ls, hsplit, hl, -, hls⟩ := splitOnChar_lines p
  rw [hsplit]
  intro x hx hm
  rcases mem_cons.mp hx with rfl | hx
  · exact hp (hm.trans hl)
  · obtain ⟨a, b, hab, hb⟩ := hls x hx
    exact h a b hab (hm.trans hb)

lemma not_margin_of_tag {l : Text} (hp : [' ', '*', ' ', '@'] <+: p) (hl : l <+: p) : ¬margin <+: l := by
  intro hm
  obtain ⟨r, hr⟩ := hm.trans hl
  obtain ⟨s, rfl⟩ := hp
  cases hr

lemma paramRowsIn_paragraphs (hps : ∀ p ∈ ps, paramMark <+: p ∧ Quiet p)
    (hms : ∀ l, ms.head? = some l → ¬margin <+: l) :
    paramRowsIn (ps.flatMap (splitOnChar '\n') ++ ms) = ps.map paragraphRows ++ paramRowsIn ms := by
  induction ps with
  | nil => rfl
  | cons p ps ih =>
    obtain ⟨⟨hmark, hquiet⟩, hrest⟩ := forall_mem_cons.mp hps
    obtain ⟨l, ls, hsplit, -, hl, hls⟩ := splitOnChar_lines p
    have hhead : startsWith l paramMark := startsWith_iff.mpr (hl paramMark (by decide) hmark)
    have hbelow : ∀ x ∈ ls, ¬paramMark <+: x := by
      intro x hx hm
      obtain ⟨a, b, hab, hb⟩ := hls x hx
      exact hquiet a b hab (hm.trans hb)
    -- Behind the paragraph comes the next one, or what stands behind them all.
    have hnext : ∀ x, (ps.flatMap (splitOnChar '\n') ++ ms).head? = some x → ¬margin <+: x := by
      cases ps with
      | nil => exact hms
      | cons q qs =>
        obtain ⟨k, ks, hq, hk, -, -⟩ := splitOnChar_lines q
        rw [flatMap_cons, hq]
        rintro x ⟨⟩
        have htag : [' ', '*', ' ', '@'] <+: paramMark := by decide
        exact not_margin_of_tag (htag.trans (hrest q mem_cons_self).1) hk
    have hrows : paragraphRows p = l :: ls.takeWhile (startsWith · margin) := by rw [paragraphRows, hsplit]; rfl
    rw [flatMap_cons, hsplit, append_assoc, cons_append, paramRowsIn, if_pos hhead, paramRowsIn_skip hbelow,
      takeWhile_margin_append hnext, ih hrest, map_cons, hrows]
    rfl

/-! ## Lines set back -/

/-- A star and `k` blanks behind it. -/
def indent (k : Nat) : Text := ' ' :: '*' :: List.replicate k ' '

/-- Every line of the text but the first is set back by `k` blanks behind its star, as far as the line goes. -/
def SetBack (k : Nat) (t : Text) : Prop := ∀ a b, t = a ++ '\n' :: b → b <+: indent k ∨ indent k <+: b

lemma setBack_of_flat (h : Flat t) (k : Nat) : SetBack k t := by
  rintro a b rfl
  exact absurd (by simp) h.not_mem

lemma SetBack.within (h : SetBack k t) (hu : u <:+: t) : SetBack k u := by
  obtain ⟨x, y, rfl⟩ := hu
  intro a b hab
  rcases h (x ++ a) (b ++ y) (by rw [hab]; simp) with hb | hb
  · exact .inl ((prefix_append _ _).trans hb)
  · exact prefix_or_prefix_of_prefix (prefix_append b y) hb

lemma SetBack.behind (hu : SetBack k u) (ht : Flat t) : SetBack k (t ++ u) := lines_behind hu ht

lemma SetBack.below (hu : SetBack k u) (hm : Flat m) (hback : indent k <+: m) : SetBack k ('\n' :: (m ++ u)) := by
  intro a b hab
  cases a with
  | nil =>
    cases hab
    exact .inr (hback.trans (prefix_append _ _))
  | cons c a => exact hu.behind hm a b (cons.inj hab).2

lemma SetBack.quiet (h : SetBack (k + 2) t) : Quiet t := by
  intro a b hab hm
  have hlong : ¬paramMark <+: indent (k + 2) := by
    rintro ⟨r, hr⟩
    cases hr
  rcases h a b hab with hb | hb
  · exact hlong (hm.trans hb)
  · obtain ⟨r, rfl⟩ := hm
    obtain ⟨s, hs⟩ := hb
    cases hs

lemma setBack_layOut (hm : Flat m) (hback : indent k <+: m) (h : ∀ l ∈ ls, Row l) : SetBack k (layOut m ls) := by
  have hjoin : ∀ rows : List Text, (∀ l ∈ rows, Flat l) → SetBack k (joinWith ('\n' :: m) rows) := by
    intro rows hrows
    fun_induction joinWith ('\n' :: m) rows with
    | case1 => exact setBack_of_flat (by simp [Flat]) k
    | case2 t => exact setBack_of_flat (hrows t mem_cons_self) k
    | case3 t u r ih =>
      obtain ⟨ht, hr⟩ := forall_mem_cons.mp hrows
      rw [append_assoc]
      exact ((ih hr).below hm hback).behind ht
  cases ls with
  | nil => exact setBack_of_flat (by simp [layOut, Flat]) k
  | cons l ls =>
    rw [layOut_cons]
    refine (hjoin _ fun t ht => ?_).within (infix_trim _)
    obtain ⟨r, hr, rfl⟩ := mem_map.mp ht
    exact (row_trim (h r hr).flat).flat

/-! ## Hints -/

/-- Every stretch with a length begins as one of the hints does. -/
def BeginsHint (size : Text → Option Nat) : Prop :=
  ∀ t n, size t = some n → [' ', '–'] <+: t ∨ [' ', '('] <+: t

lemma beginsHint_default : BeginsHint defaultHintLength := by
  intro t n h
  left
  by_contra hnot
  have hnone := @defaultHintLength_eq_none t fun hp => hnot (IsPrefix.trans ⟨_, rfl⟩ hp)
  rw [hnone] at h
  cases h

lemma beginsHint_pointer : BeginsHint pointerHintLength := by
  intro t n h
  right
  by_contra hnot
  have hnone := @pointerHintLength_eq_none t fun hp => hnot (IsPrefix.trans ⟨_, rfl⟩ hp)
  rw [hnone] at h
  cases h

/-- A text in which no hint can begin: neither of the characters that follow the blank of a hint stands in it. -/
def Hintless (b : Text) : Prop := '–' ∉ b ∧ '(' ∉ b
  deriving Decidable

lemma BeginsHint.kept (h : BeginsHint size) {w : Text} (hb : Hintless b)
    (hseam : b.getLast? = some ' ' → ∀ c, w.head? = some c → c ≠ '–' ∧ c ≠ '(') :
    eraseSized size 0 (b ++ w) = b ++ eraseSized size 0 w := by
  have hbegin : ∀ (d : Char) (u : Text), d ∉ b → (b.getLast? = some ' ' → ∀ c, w.head? = some c → c ≠ d) → u <:+ b → u ≠ [] →
      ¬[' ', d] <+: u ++ w := by
    intro d u hd hw hu hne hp
    obtain ⟨c, u, rfl⟩ := exists_cons_of_ne_nil hne
    obtain ⟨r, hr⟩ := hp
    cases u with
    | nil =>
      obtain ⟨v, rfl⟩ := hu
      cases w with
      | nil => cases hr
      | cons e w =>
        cases hr
        exact hw (by simp) d rfl rfl
    | cons e u =>
      cases hr
      exact hd (hu.subset (by simp))
  refine eraseSized_append fun u hu hne => ?_
  cases hs : size (u ++ w) with
  | none => rfl
  | some n =>
    rcases h _ n hs with hp | hp
    · exact absurd hp (hbegin '–' u hb.1 (fun hl c hc => (hseam hl c hc).1) hu hne)
    · exact absurd hp (hbegin '(' u hb.2 (fun hl c hc => (hseam hl c hc).2) hu hne)

lemma hintless_indent (k : Nat) : Hintless (indent k) := by
  constructor <;> simp [indent]

lemma BeginsHint.setBack (h : BeginsHint size) {k : Nat} {t : Text} (ht : SetBack (k + 1) t) :
    SetBack k (eraseSized size 0 t) := by
  have hmore : indent (k + 1) = indent k ++ [' '] := by
    rw [indent, replicate_succ']
    rfl
  intro a b hab
  obtain ⟨a', b', rfl, rfl⟩ := eraseSized_split hab
  rcases ht a' b' rfl with hb | ⟨r, rfl⟩
  · have hfree : Hintless b' := ⟨fun hc => (hintless_indent _).1 (hb.subset hc), fun hc => (hintless_indent _).2 (hb.subset hc)⟩
    have hkept := h.kept (w := []) hfree (by simp)
    rw [eraseSized, append_nil] at hkept
    rw [hkept]
    exact prefix_or_prefix_of_prefix hb (by rw [hmore]; exact prefix_append _ _)
  · right
    rw [hmore, append_assoc, h.kept (hintless_indent k) (by rintro - c ⟨⟩; decide)]
    exact prefix_append _ _

lemma SetBack.dropHints (h : SetBack (k + 2) t) : SetBack k (dropHints t) := by
  rw [dropHints_eq]
  have hpasses := beginsHint_pointer.setBack (beginsHint_default.setBack h)
  exact hpasses.within ( trimRight_prefix _).isInfix

lemma dropHints_append (hb : Hintless b) (hclosed : Closed b) (w : Text) : dropHints (b ++ w) = b ++ dropHints w := by
  have hseam : ∀ {w : Text}, b.getLast? = some ' ' → ∀ c, w.head? = some c → c ≠ '–' ∧ c ≠ '(' :=
    fun hl => absurd (hclosed ' ' hl) (by decide)
  rw [dropHints_eq, dropHints_eq, beginsHint_default.kept hb hseam, beginsHint_pointer.kept hb hseam, trimRight_append_of_last hclosed]

/-! ## What is said is set back -/

/-- The texts of a Doxygen comment: all lines below the first are set back, those of further notes apart. -/
structure Texts.Deep (s : Texts) : Prop where
  brief : SetBack 8 s.brief
  params : ∀ n ∈ s.params, SetBack 8 n.2
  tparams : ∀ n ∈ s.tparams, Flat n.1 ∧ SetBack 8 n.2
  result : SetBack 8 s.result
  notes : Quiet s.notes
  others : Notes.Clean OtherTag s.others

lemma quiet_unlines {ts : List Text} (h : ∀ t ∈ ts, Trimmed t ∧ SetBack (k + 2) t) : Quiet (unlines ts) := by
  have hfirst : ∀ (u : Text) (r : List Text), paramMark <+: joinWith ['\n'] (u :: r) → paramMark <+: u := by
    intro u r hp
    cases r with
    | nil => exact hp
    | cons v r =>
      rw [joinWith, append_assoc] at hp
      exact (prefix_append_cons_iff (by decide)).mp hp
  change Quiet (joinWith ['\n'] ts)
  fun_induction joinWith ['\n'] ts with
  | case1 => exact quiet_of_flat (by simp [Flat])
  | case2 t => exact (h t mem_cons_self).2.quiet
  | case3 t u r ih =>
    obtain ⟨ht, hr⟩ := forall_mem_cons.mp h
    intro a b hab hm
    rw [append_assoc, append_eq_append_iff] at hab
    rcases hab with ⟨z, -, hz⟩ | ⟨z, hz, hb⟩
    · cases z with
      | nil =>
        -- The line feed is the one below `t`, and the next text does not begin with white space.
        cases hz
        obtain ⟨s, rfl⟩ := hfirst u r hm
        exact absurd (hr _ mem_cons_self).1.cons (by decide)
      | cons c z => exact ih hr z b (cons.inj hz).2 hm
    · cases z with
      | nil =>
        cases hb
        obtain ⟨s, rfl⟩ := hfirst u r hm
        exact absurd (hr _ mem_cons_self).1.cons (by decide)
      | cons c z =>
        cases hb
        exact ht.2.quiet a z hz ((prefix_append_cons_iff (by decide)).mp hm)

lemma setBack_rows (h : ∀ l ∈ ls, Row l) : SetBack 8 (layOut margin ls) := setBack_layOut flat_margin ⟨[], rfl⟩ h

lemma Parts.Clean.deep {p : Parts} (h : p.Clean) : p.texts.Deep where
  brief := setBack_rows h.brief
  params := by
    intro n hn
    obtain ⟨m, hm, rfl⟩ := mem_map.mp hn
    exact setBack_rows (h.params.rows m hm).2
  tparams := by
    intro n hn
    obtain ⟨m, hm, rfl⟩ := mem_map.mp hn
    exact ⟨(h.tparams.rows m hm).1.flat, setBack_rows (h.tparams.rows m hm).2⟩
  result := setBack_layOut (by decide) ⟨[' '], rfl⟩ h.result
  notes := by
    refine quiet_unlines (k := 6) fun t ht => ?_
    obtain ⟨m, hm, rfl⟩ := mem_map.mp ht
    exact ⟨trimmed_layOut _ _, setBack_rows (h.notes m hm)⟩
  others := h.others

lemma saidBy_doxygen (hne : comment ≠ []) :
    saidBy name comment true =
      if (Parts.ofLines (bodyLines comment)).texts.brief.isEmpty then
        { (Parts.ofLines (bodyLines comment)).texts with brief := todoDescription name }
      else (Parts.ofLines (bodyLines comment)).texts := by
  have hfull : comment.isEmpty = false := by simpa using hne
  simp only [saidBy, hfull]
  rfl

lemma deep_saidBy (hname : Flat name) (hne : comment ≠ []) : (saidBy name comment true).Deep := by
  have hdeep := (Parts.clean_ofLines (flat_bodyLines comment)).deep
  have htodo : Flat (todoDescription name) := ((by decide : Flat "TODO ").append hname).append (by decide)
  rw [saidBy_doxygen hne]
  split
  · exact { hdeep with brief := setBack_of_flat htodo 8 }
  · exact hdeep

/-! ## The parameter lines of a comment -/

/-- A paragraph without a line of a parameter. -/
structure Aside (p : Text) : Prop where
  quiet : Quiet p
  other : ¬paramMark <+: p

lemma no_param_of_aside (h : ∀ p ∈ ps, Aside p) : ∀ l ∈ ps.flatMap (splitOnChar '\n'), ¬paramMark <+: l := by
  intro l hl
  obtain ⟨p, hp, hl⟩ := mem_flatMap.mp hl
  exact (h p hp).quiet.no_param (h p hp).other l hl

lemma aside_tagged (htag : Flat tag) (hother : ∀ r, ¬paramMark <+: tag ++ r) (ht : Quiet t) : Aside (tag ++ t) :=
  ⟨ht.behind htag, hother t⟩

lemma not_param_of_tag (h : ¬paramMark.take 5 <+: tag) (hlen : 5 ≤ tag.length) (r : Text) : ¬paramMark <+: tag ++ r := by
  intro hp
  have hhead : paramMark.take 5 <+: tag ++ r := ( take_prefix 5 _).trans hp
  exact h (prefix_of_prefix_length_le hhead (prefix_append tag r) hlen)

lemma aside_brief (h : SetBack 8 t) : Aside (" * @brief " ++ t) := by
  exact aside_tagged (by decide) (not_param_of_tag (by decide) (by decide)) (SetBack.quiet h)

lemma aside_tparamLine {n : Text × Text} (h : Flat n.1 ∧ SetBack 8 n.2) : Aside (tparamLine n) := by
  have htext : SetBack 8 (if (trim n.2).isEmpty then todo else trim n.2) := by
    split
    · exact setBack_of_flat (by decide) 8
    · exact h.2.within (infix_trim _)
  have htag : Flat (" ".toList ++ n.1 ++ " ".toList) := ((by decide : Flat " ".toList).append h.1).append (by decide)
  have hform : tparamLine n = " * @tparam".toList ++
      dropHints (" ".toList ++ n.1 ++ " ".toList ++ (if (trim n.2).isEmpty then todo else trim n.2)) := by
    have hclosed : Closed " * @tparam".toList := by decide
    rw [← dropHints_append (by decide) hclosed]
    rfl
  rw [hform]
  exact aside_tagged (by decide) (not_param_of_tag (by decide) (by decide)) (SetBack.quiet (k := 4) (htext.behind htag).dropHints)

lemma aside_resultParagraph {returnType doc : Text} (h : SetBack 8 doc) : ∀ p ∈ resultParagraph returnType doc, Aside p := by
  have htext : SetBack 8 (if doc.isEmpty then todo else doc) := by
    split
    · exact setBack_of_flat (by decide) 8
    · exact h
  rw [resultParagraph]
  split
  · simp
  · rw [forall_mem_singleton]
    exact aside_tagged (by decide) (not_param_of_tag (by decide) (by decide)) (SetBack.quiet htext)

lemma aside_notesParagraph {notes : Text} (h : Quiet notes) : ∀ p ∈ notesParagraph notes, Aside p := by
  rw [notesParagraph]
  split
  · simp
  · rw [forall_mem_singleton]
    exact aside_tagged (by decide) (not_param_of_tag (by decide) (by decide)) (h.within (infix_trim _))

lemma aside_otherLines {n : Text × List Text} (h : OtherTag n.1 ∧ ∀ l ∈ n.2, Row l) : ∀ p ∈ otherLines n, Aside p := by
  obtain ⟨hname, hrows⟩ := h
  obtain ⟨name, ls⟩ := n
  intro p hp
  cases ls with
  | nil => simp [otherLines] at hp
  | cons l ls =>
    obtain ⟨hl, hls⟩ := forall_mem_cons.mp hrows
    simp only [otherLines, mem_cons, mem_map] at hp
    rcases hp with rfl | ⟨x, hx, rfl⟩
    · have htag : Flat (" * @" ++ name ++ " ") := ((by decide : Flat " * @").append hname.word.flat).append (by decide)
      refine aside_tagged htag ?_ (quiet_of_flat (row_trim hl.flat).flat)
      intro r hp
      have hform : " * @" ++ name ++ " " ++ r = " * @" ++ (name ++ ' ' :: r) := by simp
      rw [hform] at hp
      have hp : "param " <+: name ++ ' ' :: r := (prefix_append_right_inj " * @".toList).mp hp
      have hparam : "param" <+: name ++ ' ' :: r := .trans ⟨[' '], rfl⟩ hp
      exact hname.other "param" (by decide) ((prefix_append_cons_iff (by decide)).mp hparam)
    · have hrow := quiet_of_flat (row_trim (hls x hx).flat).flat
      exact aside_tagged flat_margin (not_param_of_tag (by decide) (by decide)) hrow

lemma mem_tparamsOf_setBack (h : ∀ n ∈ docs, Flat n.1 ∧ SetBack 8 n.2) : ∀ n ∈ tparamsOf e docs, Flat n.1 ∧ SetBack 8 n.2 := by
  rw [tparamsOf]
  split
  · exact h
  · split
    · split
      · intro n hn
        obtain ⟨hflat, htodo⟩ := mem_openTparams n hn
        rw [htodo]
        exact ⟨hflat, setBack_of_flat (by decide) 8⟩
      · simp
    · simp

lemma setBack_docText (h : ∀ n ∈ docs, SetBack 8 n.2) (name : Text) : SetBack 8 (docText docs name) := by
  rw [docText]
  cases hd : docs.find? (·.1 == name) with
  | none => exact setBack_of_flat (by decide) 8
  | some n => exact h n (mem_of_find?_eq_some hd)

lemma dropHints_paramTag {n : Text} (hn : Word n) (t : Text) : dropHints (paramTag n t) = paramTag n (dropHints t) := by
  have hletter : ∀ d, isWordChar d = false → d ∉ n := by
    intro d hd hmem
    rw [hn.chars d hmem] at hd
    cases hd
  have hfree : Hintless (" * @param " ++ n) := by
    constructor
    · rw [mem_append, not_or]
      exact ⟨by decide, hletter _ (by decide +kernel)⟩
    · rw [mem_append, not_or]
      exact ⟨by decide, hletter _ (by decide)⟩
  have hclosed : Closed (" * @param " ++ n) :=
    closed_append hn.nonempty fun c hc => isBlank_of_isWordChar (hn.chars c (mem_of_getLast? hc))
  have hform : ∀ t, paramTag n t = " * @param " ++ n ++ t := fun t => (append_assoc _ _ _).symm
  rw [hform, hform, dropHints_append hfree hclosed]

lemma paramLine_of_no_hints (hname : paramName p ≠ []) (hhints : hints p = []) :
    paramLine docs p = paramTag (paramName p) (dropHints (' ' :: docText docs (paramName p))) := by
  rw [paramLine, hhints, append_nil, dropHints_paramTag (word_paramName hname)]

lemma paramLine_quiet (hdocs : ∀ n ∈ docs, SetBack 8 n.2) (hname : paramName p ≠ [])
    (hhints : hints p = []) : paramMark <+: paramLine docs p ∧ Quiet (paramLine docs p) := by
  have htext : SetBack 8 (' ' :: docText docs (paramName p)) := (setBack_docText hdocs _).behind (t := [' ']) (by decide)
  have hflat := (word_paramName hname).flat
  rw [paramLine_of_no_hints hname hhints]
  refine ⟨prefix_append _ _, ?_⟩
  exact (Quiet.behind (SetBack.quiet (k := 4) htext.dropHints) hflat).behind (by decide)

lemma tag_of_head_otherLines (ns : Notes) {p : Text} (h : (ns.flatMap otherLines).head? = some p) :
    [' ', '*', ' ', '@'] <+: p := by
  induction ns with
  | nil => cases h
  | cons n ns ih =>
    obtain ⟨name, ls⟩ := n
    cases ls with
    | nil => exact ih h
    | cons l ls =>
      cases h
      exact ⟨_, rfl⟩

def behindParams (e : Entry) : List Text :=
  resultParagraph (e.returnType.getD []) (saidOf e).result ++ (notesParagraph (saidOf e).notes ++
    (saidOf e).others.flatMap otherLines)

lemma tag_of_head_behindParams (h : (behindParams e).head? = some p) : [' ', '*', ' ', '@'] <+: p := by
  rw [behindParams, resultParagraph, notesParagraph] at h
  split at h
  · split at h
    · exact tag_of_head_otherLines _ h
    · cases h
      exact ⟨_, rfl⟩
  · cases h
    exact ⟨_, rfl⟩

lemma aside_behindParams (h : (saidOf e).Deep) : ∀ p ∈ behindParams e, Aside p := by
  intro p hp
  rw [behindParams, mem_append, mem_append] at hp
  rcases hp with hp | hp | hp
  · exact aside_resultParagraph h.result p hp
  · exact aside_notesParagraph h.notes p hp
  · obtain ⟨n, hn, hp⟩ := mem_flatMap.mp hp
    exact aside_otherLines (h.others.rows n hn) p hp

lemma not_margin_behindParams (e : Entry) :
    ∀ l, ((behindParams e).flatMap (splitOnChar '\n') ++ [" */".toList]).head? = some l → ¬margin <+: l := by
  cases hb : behindParams e with
  | nil =>
    decide
  | cons p ps =>
    obtain ⟨k, ks, hk, hkp, -, -⟩ := splitOnChar_lines p
    rw [flatMap_cons, hk]
    rintro l ⟨⟩
    exact not_margin_of_tag (tag_of_head_behindParams (by rw [hb]; rfl)) hkp

/-- The parameter lines of the comment composed from a Doxygen comment, read off its text: one for each parameter, in order. -/
lemma paramRowsIn_lines (h : OneLine e) (hdoxygen : e.isDoxygen = some true) (hcomment : trim (e.comment.getD []) ≠ [])
    (hparams : ∀ p ∈ documented (e.params.getD []), paramName p ≠ [] ∧ hints p = []) :
    paramRowsIn (block (paragraphs e)).lines =
      (documented (e.params.getD [])).map fun p => paragraphRows (paramLine (saidOf e).params p) := by
  have hdeep : (saidOf e).Deep := by
    rw [saidOf, hdoxygen]
    exact deep_saidBy h.name hcomment
  have hfront : ∀ p ∈ (" * @brief " ++ (saidOf e).brief) :: (tparamsOf e (saidOf e).tparams).map tparamLine, Aside p := by
    intro p hp
    rcases mem_cons.mp hp with rfl | hp
    · exact aside_brief hdeep.brief
    · obtain ⟨n, hn, rfl⟩ := mem_map.mp hp
      exact aside_tparamLine (mem_tparamsOf_setBack hdeep.tparams n hn)
  have hlines : ∀ t ∈ paramLines (saidOf e).params (e.params.getD []), paramMark <+: t ∧ Quiet t := by
    intro t ht
    rw [paramLines_eq] at ht
    obtain ⟨p, hp, rfl⟩ := mem_map.mp ht
    exact paramLine_quiet hdeep.params (hparams p hp).1 (hparams p hp).2
  have hafter : ∀ l ∈ (behindParams e).flatMap (splitOnChar '\n') ++ [" */".toList], ¬paramMark <+: l := by
    refine forall_mem_append.mpr ⟨no_param_of_aside (aside_behindParams hdeep), forall_mem_singleton.mpr (by decide)⟩
  have hbefore : ∀ l ∈ "/**".toList :: ((" * @brief " ++ (saidOf e).brief) ::
      (tparamsOf e (saidOf e).tparams).map tparamLine).flatMap (splitOnChar '\n'), ¬paramMark <+: l :=
    forall_mem_cons.mpr ⟨by decide, no_param_of_aside hfront⟩
  have hnone := paramRowsIn_skip hafter []
  rw [append_nil] at hnone
  have hform : paragraphs e = ((" * @brief " ++ (saidOf e).brief) :: (tparamsOf e (saidOf e).tparams).map tparamLine) ++
      (paramLines (saidOf e).params (e.params.getD []) ++ behindParams e) := by
    rw [paragraphs, behindParams]
    simp only [append_assoc]
  rw [lines_block fun p hp => (mem_paragraphs h p hp).1.fed, hform, flatMap_append, flatMap_append,
    ← cons_append, append_assoc, append_assoc, paramRowsIn_skip hbefore, paramRowsIn_paragraphs hlines (not_margin_behindParams e), hnone,
    paramLines_eq, map_map]
  exact append_nil _

end FunctionDocs.DocBlock
