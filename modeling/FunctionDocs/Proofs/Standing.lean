import FunctionDocs.Proofs.Heads
import FunctionDocs.Proofs.JoinedCode
import FunctionDocs.Proofs.Masking

/-!
# Texts cut out of masked lines

A text cut out of a masked line stands for something as long as no placeholder is cut: every cut next to a character that no placeholder
has is safe, and so is taking out a template head. Restoring such a text leaves no placeholder in it; and in a piece of it with no
placeholder cut behind it, the mark of a placeholder is found exactly if restoring changes the piece.
-/

open List

namespace FunctionDocs

namespace Pattern

variable {s : Place} {p : Pattern}

/-! ## Taking out matches, one after the other -/

lemma eraseFrom_skip (p : Pattern) (k : Nat) {t : Text} (hs : s.rest = t) :
    p.eraseFrom k t s = p.eraseFrom 0 (t.drop k) (s.skip k) := by
  induction k generalizing t s with
  | zero => rfl
  | succ k ih =>
    cases t with
    | nil => rfl
    | cons c r =>
      rw [Place.skip_succ_of_rest hs]
      exact ih rfl

lemma eraseFrom_of_some {m : Match} (h : p.matchAt? s = some m) (hne : m.text ≠ []) :
    p.eraseFrom 0 s.rest s = p.eraseFrom 0 (s.rest.drop m.text.length) (s.skip m.text.length) := by
  cases hs : s.rest with
  | nil => simp [eraseFrom]
  | cons c r =>
    obtain ⟨k, hk⟩ := Nat.exists_eq_succ_of_ne_zero (mt List.length_eq_zero_iff.mp hne)
    simp only [eraseFrom, h, List.isEmpty_iff, hne]
    rw [hk, drop_succ_cons, Place.skip_succ_of_rest hs, Nat.succ_sub_one]
    exact eraseFrom_skip p k rfl

lemma eraseFrom_of_none (h : p.matchAt? s = none) (c : Char) (r : Text) :
    p.eraseFrom 0 (c :: r) s = c :: p.eraseFrom 0 r (s.step c r) := by
  simp only [eraseFrom, h]

end Pattern

namespace Source

open Text Pattern
open DocBlock (infix_append_cons_iff prefix_append_cons_iff)

variable {parts : List (Text × Text)} {t u : Text} {a w r x part digits : Text}

/-! ## Cuts -/

/-- A text in which the letters of a mark occur in placeholders only. -/
def Standing (parts : List (Text × Text)) (t : Text) : Prop := ∃ u, Stands parts t u

/-- Two texts between which no placeholder is cut: one of them ends there with a character that placeholders do not have. -/
def SafeCut (a b : Text) : Prop := (∀ c ∈ a.getLast?, isKeyChar c = false) ∨ ∀ c ∈ b.head?, isKeyChar c = false

lemma SafeCut.of_append {b : Text} (h : SafeCut (w ++ a) b) : SafeCut a b := by
  refine h.imp_left fun hlast d hd => hlast d ?_
  rw [getLast?_append, Option.mem_def.mp hd]
  rfl

lemma standing_key {p : Text × Text} (hp : p ∈ parts) : Standing parts p.1 := by
  have hpart := Stands.part hp .nil
  rw [append_nil, append_nil] at hpart
  exact ⟨p.2, hpart⟩

lemma Stands.cut (hparts : Sound parts) (h : Stands parts t u) {b : Text} (ht : t = a ++ b) (hseam : SafeCut a b) :
    Standing parts a ∧ Standing parts b := by
  induction h generalizing a with
  | nil =>
    obtain ⟨rfl, rfl⟩ := append_eq_nil_iff.mp ht.symm
    exact ⟨⟨[], .nil⟩, [], .nil⟩
  | @char c t u hfree h ih =>
    cases a with
    | nil =>
      cases ht
      exact ⟨⟨[], .nil⟩, _, .char hfree h⟩
    | cons d a =>
      obtain ⟨rfl, rfl⟩ := cons.inj ht
      have hleft : ¬markLetters <+: c :: a := fun hmark => hfree (hmark.trans (prefix_append (c :: a) b))
      obtain ⟨⟨v, hv⟩, hb⟩ := ih rfl (hseam.of_append (w := [c]))
      exact ⟨⟨_, .char hleft hv⟩, hb⟩
  | @part p t u hp h ih =>
    rcases append_eq_append_iff.mp ht with ⟨w, rfl, rfl⟩ | ⟨w, hw, rfl⟩
    · obtain ⟨⟨v, hv⟩, hb⟩ := ih rfl hseam.of_append
      exact ⟨⟨_, .part hp hv⟩, hb⟩
    · rcases eq_nil_or_concat' a with rfl | ⟨a', d, rfl⟩
      · rw [nil_append] at hw
        rw [← hw]
        exact ⟨⟨[], .nil⟩, _, .part hp h⟩
      cases w with
      | nil =>
        rw [append_nil] at hw
        rw [← hw]
        exact ⟨standing_key hp, u, h⟩
      | cons e w =>
        -- both characters at the cut belong to the placeholder
        obtain ⟨n, hn⟩ := hparts.key p hp
        have hkey : ∀ c ∈ p.1, isKeyChar c := fun c hc => isKeyChar_of_mem_placeholder (hn ▸ hc)
        have hd := hkey d (by rw [hw]; simp)
        have he := hkey e (by rw [hw]; simp)
        rcases hseam with hseam | hseam
        · rw [hseam d (by simp)] at hd
          cases hd
        · rw [hseam e rfl] at he
          cases he

lemma Standing.cut (hparts : Sound parts) {b : Text} (h : Standing parts (a ++ b)) (hseam : SafeCut a b) :
    Standing parts a ∧ Standing parts b := by
  obtain ⟨u, h⟩ := h
  exact h.cut hparts rfl hseam

lemma isKeyChar_of_isBlank {c : Char} (h : isBlank c) : isKeyChar c = false := by
  have hcodes : ∀ n ∈ blankCodes, isKeyChar (.ofNat n) = false := by decide
  have hc := hcodes c.toNat (mem_blankCodes h)
  rwa [Char.ofNat_toNat] at hc

lemma safeCut_blank_right {b : Text} (hb : isBlankLine b) (hne : b ≠ []) : SafeCut a (b ++ r) := by
  cases b with
  | nil => exact absurd rfl hne
  | cons c b =>
    refine .inr fun d hd => ?_
    cases hd
    exact isKeyChar_of_isBlank (isBlankLine_iff.mp hb _ mem_cons_self)

lemma safeCut_blank_left {b : Text} (hb : isBlankLine b) (hne : b ≠ []) : SafeCut (r ++ b) a := by
  rcases eq_nil_or_concat' b with rfl | ⟨b, c, rfl⟩
  · exact absurd rfl hne
  · refine .inl fun d hd => ?_
    simp only [← append_assoc, getLast?_concat, Option.mem_some_iff] at hd
    rw [← hd]
    exact isKeyChar_of_isBlank (isBlankLine_iff.mp hb c (by simp))

lemma Standing.after_blank (hparts : Sound parts) {b : Text} (hb : isBlankLine b) (h : Standing parts (b ++ r)) :
    Standing parts r := by
  by_cases hne : b = []
  · rwa [hne] at h
  · exact (h.cut hparts (safeCut_blank_left (r := []) hb hne)).2

lemma Standing.before_blank (hparts : Sound parts) {b : Text} (hb : isBlankLine b) (h : Standing parts (r ++ b)) :
    Standing parts r := by
  by_cases hne : b = []
  · rwa [hne, append_nil] at h
  · refine (h.cut hparts ?_).1
    have hseam := safeCut_blank_right (a := r) (r := []) hb hne
    rwa [append_nil] at hseam

lemma Standing.trim (hparts : Sound parts) (h : Standing parts t) : Standing parts (trim t) := by
  obtain ⟨l, r, hl, hr, ht⟩ := trim_split t
  rw [ht, append_assoc] at h
  exact (h.after_blank hparts hl).before_blank hparts hr

lemma Standing.trimRight (hparts : Sound parts) (h : Standing parts t) : Standing parts (trimRight t) := by
  obtain ⟨r, hr, ht⟩ := trimRight_split t
  rw [ht] at h
  exact h.before_blank hparts hr

lemma beforeSlashes_split (t : Text) : beforeSlashes t = t ∨ ∃ r, t = beforeSlashes t ++ '/' :: r := by
  fun_induction beforeSlashes t with
  | case1 => exact .inl rfl
  | case2 r => exact .inr ⟨_, rfl⟩
  | case3 c r _ ih =>
    rcases ih with ih | ⟨r', ih⟩
    · exact .inl (by rw [ih])
    · exact .inr ⟨r', by rw [cons_append, ← ih]⟩

lemma Standing.beforeSlashes (hparts : Sound parts) (h : Standing parts t) : Standing parts (beforeSlashes t) := by
  rcases beforeSlashes_split t with ht | ⟨r, ht⟩
  · rwa [ht]
  · rw [ht] at h
    refine (h.cut hparts (.inr fun c hc => ?_)).1
    cases hc
    decide

/-! ## Placeholders found and restored -/

def mark : Text := '_' :: '_' :: markLetters

lemma mark_eq : "__TPL" = mark := rfl

lemma Stands.key_of_mark (hparts : Sound parts) (h : Stands parts t u) {v : Text} (ht : t = w ++ v) (hmark : mark <+: v) :
    ∃ p ∈ parts, p.1 <+: v := by
  induction h generalizing w with
  | nil =>
    obtain ⟨-, rfl⟩ := append_eq_nil_iff.mp ht.symm
    exact absurd hmark (by decide)
  | @char c t u _ h ih =>
    cases w with
    | nil =>
      rw [nil_append] at ht
      rw [← ht] at hmark
      exact absurd (cons_prefix_cons.mp hmark).2 (h.not_underscore_mark hparts)
    | cons d w => exact ih (cons.inj ht).2
  | @part p t u hp h ih =>
    obtain ⟨n, hn⟩ := hparts.key p hp
    rcases append_eq_append_iff.mp ht with ⟨w', rfl, rfl⟩ | ⟨w', hw, rfl⟩
    · exact ih rfl
    by_cases hnil : w' = []
    · rw [hnil] at hmark ih ⊢
      exact ih (w := []) rfl
    by_cases hwhole : w' = p.1
    · exact ⟨p, hp, hwhole ▸ prefix_append _ _⟩
    · exact absurd hmark (not_prefix_behind ⟨w, hn ▸ hw.symm⟩ (hn ▸ hwhole) hnil (h.not_mark hparts) (h.not_underscore_mark hparts))

lemma Standing.key_of_mark (hparts : Sound parts) {b : Text} (h : Standing parts (a ++ x ++ b))
    (hb : ∀ c ∈ b.head?, isKeyChar c = false) (hmark : mark <:+: x) : ∃ p ∈ parts, p.1 <:+: x := by
  obtain ⟨u, h⟩ := h
  obtain ⟨x₁, x₂, rfl⟩ := hmark
  have hsplit : a ++ (x₁ ++ mark ++ x₂) ++ b = (a ++ x₁) ++ ((mark ++ x₂) ++ b) := by simp
  obtain ⟨p, hp, hkey⟩ := h.key_of_mark hparts hsplit (by simp)
  refine ⟨p, hp, ?_⟩
  obtain ⟨n, hn⟩ := hparts.key p hp
  have hin : p.1 <+: mark ++ x₂ := by
    cases b with
    | nil => rwa [append_nil] at hkey
    | cons c b =>
      refine (prefix_append_cons_iff fun hc => ?_).mp hkey
      have hchar := isKeyChar_of_mem_placeholder (hn ▸ hc)
      rw [hb c rfl] at hchar
      cases hchar
  rw [append_assoc]
  exact hin.isInfix.trans (suffix_append _ _).isInfix

lemma Stands.unmarked (hparts : Sound parts) (h : Stands parts t u) : ¬markLetters <:+: u := by
  -- what begins the text stood for, without a bracket, begins the standing text
  have hbegins : ∀ {t u q : Text}, Stands parts t u → '<' ∉ q → q <+: u → q <+: t := by
    intro t u q h
    induction h generalizing q with
    | nil => exact fun _ hq => hq
    | char _ _ ih =>
      intro hopen hq
      cases q with
      | nil => exact nil_prefix
      | cons d q =>
        obtain ⟨hd, htail⟩ := cons_prefix_cons.mp hq
        exact cons_prefix_cons.mpr ⟨hd, ih (not_mem_of_not_mem_cons hopen) htail⟩
    | @part p t u hp _ _ =>
      intro hopen hq
      obtain ⟨r, hr⟩ := head?_eq_some_iff.mp (hparts.opening p hp)
      cases q with
      | nil => exact nil_prefix
      | cons d q =>
        rw [hr] at hq
        rw [(cons_prefix_cons.mp hq).1] at hopen
        exact absurd mem_cons_self hopen
  induction h with
  | nil => decide
  | @char c t u hfree h ih =>
    intro hin
    rcases infix_cons_iff.mp hin with hin | hin
    · exact hfree (hbegins (.char hfree h) (by decide) hin)
    · exact ih hin
  | @part p t u hp h ih =>
    obtain ⟨o, ho⟩ := getLast?_eq_some_iff.mp (hparts.closing p hp)
    intro hin
    rw [ho, append_assoc] at hin
    rcases (infix_append_cons_iff (by decide)).mp hin with hin | hin
    · refine hparts.unmarked p hp (hin.trans ?_)
      rw [ho]
      exact (prefix_append _ _).isInfix
    · exact ih hin

lemma Standing.restore_unmarked {m : Masked} (hparts : Sound m.parts) (h : Standing m.parts t) :
    contains (m.restore t) "__TPL" = false := by
  obtain ⟨u, h⟩ := h
  rw [h.restore hparts, contains_eq_false_iff]
  exact fun hin => h.unmarked hparts (IsInfix.trans ⟨['_', '_'], [], rfl⟩ hin)

lemma replaceAll_of_absent (h : ¬part <:+: t) (by_ : Text) : replaceAll t part by_ = t := by
  induction t with
  | nil => rfl
  | cons c r ih =>
    rw [replaceAll_cons fun hp => h hp.isInfix, ih fun hin => h (hin.trans (suffix_cons c r).isInfix)]

lemma count_replaceAll {by_ : Text} {b : Char} (hpart : b ∉ part) (hne : part ≠ []) (hby : b ∈ by_) (t : Text) :
    t.count b ≤ (replaceAll t part by_).count b ∧ (part <:+: t → t.count b < (replaceAll t part by_).count b) := by
  induction hlen : t.length using Nat.strong_induction_on generalizing t with
  | _ n ih =>
    by_cases hp : part <+: t
    · obtain ⟨r, rfl⟩ := hp
      have hshort : r.length < n := by
        rw [← hlen, length_append]
        have := length_pos_iff.mpr hne
        omega
      have hrest := (ih r.length hshort r rfl).1
      have hmore := count_pos_iff.mpr hby
      rw [replaceAll_append hne, count_append, count_append, count_eq_zero.mpr hpart]
      exact ⟨by omega, fun _ => by omega⟩
    · cases t with
      | nil => exact ⟨Nat.le_refl _, fun hin => absurd (infix_nil.mp hin) hne⟩
      | cons c r =>
        obtain ⟨hle, hlt⟩ := ih r.length (by rw [← hlen]; exact Nat.lt_succ_self _) r rfl
        rw [replaceAll_cons hp, count_cons, count_cons]
        refine ⟨by omega, fun hin => ?_⟩
        have hrest := hlt ((infix_cons_iff.mp hin).resolve_left hp)
        omega

lemma restore_eq_self_iff {m : Masked} (hparts : Sound m.parts) : m.restore t = t ↔ ∀ p ∈ m.parts, ¬p.1 <:+: t := by
  obtain ⟨text, parts⟩ := m
  simp only [Masked.restore] at hparts ⊢
  -- opening brackets are counted: each replacement brings in at least one
  have hstep : ∀ p ∈ parts, ∀ t : Text, t.count '<' ≤ (replaceAll t p.1 p.2).count '<' ∧
      (p.1 <:+: t → t.count '<' < (replaceAll t p.1 p.2).count '<') := by
    intro p hp
    obtain ⟨n, hn⟩ := hparts.key p hp
    refine count_replaceAll (fun hmem => ?_) (hn ▸ placeholder_ne_nil n) (mem_of_mem_head? (hparts.opening p hp))
    exact absurd (isKeyChar_of_mem_placeholder (hn ▸ hmem)) (by decide)
  clear hparts
  induction parts with
  | nil => simp
  | cons p parts ih =>
    obtain ⟨hfirst, hrest⟩ := forall_mem_cons.mp hstep
    rw [foldl_cons, forall_mem_cons]
    by_cases hin : p.1 <:+: t
    · have hmono : ∀ t : Text, t.count '<' ≤ (parts.foldl (fun t p => replaceAll t p.1 p.2) t).count '<' := by
        clear ih hstep
        induction parts with
        | nil => exact fun t => le_refl _
        | cons q parts ih =>
          obtain ⟨hq, hrest⟩ := forall_mem_cons.mp hrest
          exact fun t => (hq t).1.trans (ih hrest _)
      refine ⟨fun heq => ?_, fun h => absurd hin h.1⟩
      have hlt := (hfirst t).2 hin
      have hle := hmono (replaceAll t p.1 p.2)
      rw [heq] at hle
      omega
    · rw [replaceAll_of_absent hin]
      exact (ih hrest).trans ⟨fun h => ⟨hin, h⟩, And.right⟩

lemma Standing.restore_eq_self_iff {m : Masked} (hparts : Sound m.parts) {b : Text} (h : Standing m.parts (a ++ x ++ b))
    (hb : ∀ c ∈ b.head?, isKeyChar c = false) : m.restore x = x ↔ contains x "__TPL" = false := by
  rw [Source.restore_eq_self_iff hparts, contains_eq_false_iff, mark_eq]
  constructor
  · intro hnone hmark
    obtain ⟨p, hp, hin⟩ := h.key_of_mark hparts hb hmark
    exact hnone p hp hin
  · intro hmark p hp hin
    obtain ⟨n, hn⟩ := hparts.key p hp
    refine hmark (List.IsInfix.trans ?_ hin)
    rw [hn, placeholder_eq]
    exact ⟨[], ofNat n ++ ['_', '_'], rfl⟩

/-! ## Template heads -/

lemma Standing.placeholder (hparts : Sound parts) (hdigits : '_' ∉ digits)
    (h : Standing parts (mark ++ digits ++ ['_', '_'] ++ r)) :
    (∃ p ∈ parts, p.1 = mark ++ digits ++ ['_', '_']) ∧ Standing parts r := by
  obtain ⟨u, h⟩ := h
  generalize ht : mark ++ digits ++ ['_', '_'] ++ r = t at h
  have hmark : mark <+: t := ⟨digits ++ ['_', '_'] ++ r, by rw [← ht]; simp⟩
  cases h with
  | nil => exact absurd hmark (by decide)
  | char _ h => exact absurd (cons_prefix_cons.mp hmark).2 (h.not_underscore_mark hparts)
  | @part p t u hp h =>
    obtain ⟨n, hn⟩ := hparts.key p hp
    rw [hn, placeholder_eq] at ht
    have htail : digits ++ '_' :: ('_' :: r) = ofNat n ++ '_' :: ('_' :: t) := by simpa [mark, markLetters] using ht
    obtain ⟨rfl, hrest⟩ := cut_unique hdigits (underscore_not_mem n) htail
    refine ⟨⟨p, hp, ?_⟩, u, (cons.inj hrest).2 ▸ h⟩
    rw [hn]
    rfl

lemma underscore_not_digit (h : ∀ c ∈ digits, isDecimalDigit c) : '_' ∉ digits := fun hmem => absurd (h '_' hmem) (by decide)

lemma takes_placeholderPattern (h : placeholderPattern.Takes x) : ∃ digits, '_' ∉ digits ∧ x = mark ++ digits ++ ['_', '_'] := by
  obtain ⟨_, _, rfl, rfl, digits, _, rfl, ⟨-, hdigits⟩, rfl⟩ := h
  exact ⟨digits, underscore_not_digit hdigits, by rw [append_assoc]; rfl⟩

lemma templateHead_params {m : Match} (h : templateHead.match? t = some m) :
    ∃ w digits r, w ≠ [] ∧ isBlankLine w ∧ '_' ∉ digits ∧ m.part "params" = mark ++ digits ++ ['_', '_'] ∧
      t = ("template" ++ w) ++ (mark ++ digits ++ ['_', '_'] ++ r) := by
  obtain ⟨e, he, rfl⟩ := Option.map_eq_some_iff.mp h
  obtain ⟨_, s₁, rfl, hafter₁, -, he⟩ := run_silent (p := .lit "template") rfl he
  obtain ⟨w, s₂, ⟨hlen, hw⟩, hafter₂, -, he⟩ := run_silent (p := .blanks1) rfl he
  obtain ⟨x, s₃, hx, hafter₃, hparts₃, he⟩ := run_named rfl he
  cases he
  obtain ⟨digits, hdigits, rfl⟩ := takes_placeholderPattern hx
  refine ⟨w, digits, e.rest, ne_nil_of_length_pos hlen, isBlankLine_iff.mpr hw, hdigits, ?_, ?_⟩
  · rw [hparts₃]
    rfl
  · simpa using (hafter₁.trans (hafter₂.trans hafter₃)).rest

lemma matchAt_templateHeadInside {s : Pattern.Place} {m : Match} (h : templateHeadInside.matchAt? s = some m) :
    s.before.any isWordChar = false ∧ ∃ w digits w', w ≠ [] ∧ isBlankLine w ∧ '_' ∉ digits ∧ isBlankLine w' ∧
      m.text = "template".toList ++ (w ++ (mark ++ digits ++ ['_', '_'] ++ w')) := by
  obtain ⟨⟨_, _, htext, rfl, _, _, rfl, rfl, w, _, rfl, ⟨hlen, hw⟩, x, w', rfl, hx, hw'⟩, hrest⟩ := matchAt_takes h
  obtain ⟨digits, hdigits, rfl⟩ := takes_placeholderPattern hx
  refine ⟨?_, w, digits, w', ne_nil_of_length_pos hlen, isBlankLine_iff.mpr hw, hdigits, isBlankLine_of_takes hw', htext⟩
  obtain ⟨e, he, -⟩ := Option.map_eq_some_iff.mp h
  change (if s.atEdge then _ else none) = some e at he
  split at he
  case isFalse => cases he
  rename_i hedge
  rw [Pattern.Place.atEdge, hrest, htext] at hedge
  change (s.before.any isWordChar != isWordChar 't') = true at hedge
  rw [show isWordChar 't' = true by decide] at hedge
  simpa using hedge

lemma eraseFrom_append (ha : 't' ∉ a) {s : Pattern.Place} (hs : s.rest = a ++ r) :
    templateHeadInside.eraseFrom 0 (a ++ r) s = a ++ templateHeadInside.eraseFrom 0 r (s.skip a.length) := by
  induction a generalizing s with
  | nil => rfl
  | cons c a ih =>
    rw [mem_cons, not_or] at ha
    have hnone : templateHeadInside.matchAt? s = none := by
      cases hm : templateHeadInside.matchAt? s with
      | none => rfl
      | some m =>
        obtain ⟨-, w, digits, w', -, -, -, -, htext⟩ := matchAt_templateHeadInside hm
        have hr' := (matchAt_takes hm).2
        rw [htext, hs] at hr'
        exact absurd (List.cons.inj hr').1.symm ha.1
    rw [cons_append, eraseFrom_of_none hnone, ih ha.2 rfl, length_cons, Pattern.Place.skip_succ_of_rest hs]
    rfl

/-- Behind a word character no template head begins, so a word that follows there followed before. -/
lemma prefix_of_prefix_eraseFrom {q : Text} (hq : ∀ c ∈ q, isWordChar c) {t : Text} {s : Pattern.Place}
    (hbefore : s.before.any isWordChar) (h : q <+: templateHeadInside.eraseFrom 0 t s) : q <+: t := by
  induction q generalizing t s with
  | nil => exact nil_prefix
  | cons d q ih =>
    cases t with
    | nil => exact h
    | cons c r =>
      have hnone : templateHeadInside.matchAt? s = none := by
        cases hm : templateHeadInside.matchAt? s with
        | none => rfl
        | some m =>
          rw [(matchAt_templateHeadInside hm).1] at hbefore
          cases hbefore
      rw [eraseFrom_of_none hnone] at h
      obtain ⟨rfl, htail⟩ := cons_prefix_cons.mp h
      obtain ⟨hd, hq⟩ := forall_mem_cons.mp hq
      exact cons_prefix_cons.mpr ⟨rfl, ih hq (s := s.step d r) hd htail⟩

lemma Standing.eraseFrom (hparts : Sound parts) {s : Pattern.Place} (h : Standing parts s.rest) :
    Standing parts (templateHeadInside.eraseFrom 0 s.rest s) := by
  induction hlen : s.rest.length using Nat.strong_induction_on generalizing s with
  | _ n ih =>
    obtain ⟨u, h⟩ := h
    generalize hs : s.rest = t at h
    cases h with
    | nil => exact ⟨[], .nil⟩
    | @char c t u hfree h =>
      cases hm : templateHeadInside.matchAt? s with
      | none =>
        rw [eraseFrom_of_none hm]
        obtain ⟨v, hv⟩ := ih t.length (by rw [← hlen, hs]; exact Nat.lt_succ_self _) (s := s.step c t) ⟨u, h⟩ rfl
        refine ⟨c :: v, .char (fun hmark => hfree ?_) hv⟩
        obtain ⟨rfl, htail⟩ := cons_prefix_cons.mp hmark
        have hword : (s.step 'T' t).before.any isWordChar := show isWordChar 'T' = true by decide
        exact cons_prefix_cons.mpr ⟨rfl, prefix_of_prefix_eraseFrom (by decide) hword htail⟩
      | some m =>
        obtain ⟨-, w, digits, w', hne, hw, hdigits, hw', htext⟩ := matchAt_templateHeadInside hm
        obtain ⟨r, hr⟩ : m.text <+: s.rest := ⟨m.after, (matchAt_takes hm).2.symm⟩
        have hwhole : Standing parts (("template".toList ++ w) ++ (mark ++ digits ++ ['_', '_'] ++ (w' ++ r))) := by
          refine ⟨c :: u, ?_⟩
          have hline := Stands.char hfree h
          rw [← hs, ← hr, htext] at hline
          simpa using hline
        have hkey := (hwhole.cut hparts (safeCut_blank_left hw hne)).2
        have hrest := ((hkey.placeholder hparts hdigits).2).after_blank hparts hw'
        have hnil : m.text ≠ [] := by simp [htext]
        have hplace : (s.skip m.text.length).rest = r := by rw [Pattern.Place.rest_skip, ← hr, drop_left]
        have herase := eraseFrom_of_some hm hnil
        rw [← Pattern.Place.rest_skip, hs] at herase
        rw [herase]
        refine ih _ ?_ (by rwa [hplace]) rfl
        rw [hplace, ← hlen, ← hr, length_append]
        have := length_pos_iff.mpr hnil
        omega
    | @part p t u hp h =>
      obtain ⟨k, hk⟩ := hparts.key p hp
      have hkeep : 't' ∉ p.1 := fun hmem => absurd (isKeyChar_of_mem_placeholder (hk ▸ hmem)) (by decide)
      have hplace : (s.skip p.1.length).rest = t := by rw [Pattern.Place.rest_skip, hs, drop_left]
      rw [eraseFrom_append hkeep hs]
      obtain ⟨v, hv⟩ := ih t.length (by
        rw [← hlen, hs, length_append]
        have := length_pos_iff.mpr (hk ▸ placeholder_ne_nil k : p.1 ≠ [])
        omega) (s := s.skip p.1.length) ⟨u, by rwa [hplace]⟩ (by rw [hplace])
      rw [hplace] at hv
      exact ⟨_, .part hp hv⟩

lemma Standing.erase (hparts : Sound parts) (h : Standing parts t) : Standing parts (templateHeadInside.erase t) := by
  rw [erase_eq_eraseFrom]
  exact eraseFrom hparts (s := ⟨none, 0, t, []⟩) h

end Source

end FunctionDocs
