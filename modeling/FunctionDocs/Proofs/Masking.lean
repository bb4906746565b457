import FunctionDocs.Proofs.Text
import FunctionDocs.Source.Template
import Mathlib.Data.List.Nodup

/-!
# Masked brackets and what they stand for

Masking cuts a line into single characters, bracketed parts and a rest whose first bracket is never closed; each bracketed part gives
way to a placeholder of its own. Since the line does not hold the mark of a placeholder, the placeholders are the only places in the
masked line where one can be found: they do not overlap, and no other text runs together into one. So they can be replaced one after
the other, and the line is back.
-/

open List

namespace FunctionDocs

namespace Text

variable {fuel n m : Nat} {c : Char} {part : Text}

/-! ## Decimal digits -/

lemma digitsRev_ne_nil (h : 0 < fuel) (n : Nat) : digitsRev fuel n ≠ [] := by
  cases fuel with
  | zero => omega
  | succ fuel =>
    rw [digitsRev]
    split <;> simp

lemma digitsRev_inj {fuel' : Nat} (hm : m < fuel) (hn : n < fuel') (h : digitsRev fuel m = digitsRev fuel' n) : m = n := by
  have hdigit : ∀ a < 10, ∀ b < 10, Char.ofNat (48 + a) = .ofNat (48 + b) → a = b := by decide
  have hlast : ∀ a b : Nat, Char.ofNat (48 + a % 10) = .ofNat (48 + b % 10) → a % 10 = b % 10 :=
    fun a b => hdigit _ (Nat.mod_lt a (by decide)) _ (Nat.mod_lt b (by decide))
  induction fuel generalizing fuel' m n with
  | zero => omega
  | succ fuel ih =>
    cases fuel' with
    | zero => omega
    | succ fuel' =>
      simp only [digitsRev] at h
      split at h <;> split at h
      · have hmod := hlast m n (cons.inj h).1
        omega
      · exact absurd (List.cons.inj h).2.symm (digitsRev_ne_nil (by omega) _)
      · exact absurd (cons.inj h).2 (digitsRev_ne_nil (by omega) _)
      · have hmod := hlast m n (cons.inj h).1
        have hdiv := ih (by omega) (by omega) (cons.inj h).2
        omega

lemma ofNat_inj (h : ofNat m = ofNat n) : m = n := digitsRev_inj (Nat.lt_succ_self m) (Nat.lt_succ_self n) (reverse_injective h)

/-! ## Replacement -/

lemma replaceAfter_eq (part by_ : Text) (skip : Nat) (t : Text) : replaceAfter part by_ skip t = replaceAll (t.drop skip) part by_ := by
  induction skip generalizing t with
  | zero => rfl
  | succ skip ih =>
    cases t with
    | nil => rfl
    | cons c r => exact ih r

lemma replaceAll_cons {r : Text} (h : ¬part <+: c :: r) (by_ : Text) :
    replaceAll (c :: r) part by_ = c :: replaceAll r part by_ := by
  rw [replaceAll, replaceAfter, if_neg (mt isPrefixOf_iff_prefix.mp h)]
  rfl

lemma replaceAll_append (h : part ≠ []) (t by_ : Text) : replaceAll (part ++ t) part by_ = by_ ++ replaceAll t part by_ := by
  obtain ⟨c, r, rfl⟩ := exists_cons_of_ne_nil h
  have hbegin : (c :: r).isPrefixOf (c :: (r ++ t)) := isPrefixOf_iff_prefix.mpr (prefix_append (c :: r) t)
  rw [replaceAll, cons_append, replaceAfter, if_pos hbegin, replaceAfter_eq, length_cons, Nat.add_sub_cancel, drop_left]

lemma replaceAll_keeps {a t : Text} (h : ∀ s, s <:+ a → s ≠ [] → ¬part <+: s ++ t) (by_ : Text) :
    replaceAll (a ++ t) part by_ = a ++ replaceAll t part by_ := by
  induction a with
  | nil => rfl
  | cons c a ih =>
    have hhere : ¬part <+: c :: (a ++ t) := h (c :: a) (suffix_refl _) (cons_ne_nil c a)
    rw [cons_append, replaceAll_cons hhere, ih fun s hs => h s (hs.trans (suffix_cons c a))]
    rfl

lemma prefix_of_prefix_replaceAll {part by_ t p : Text} {b : Char} (hby : by_.head? = some b) (hp : b ∉ p)
    (h : p <+: replaceAll t part by_) : p <+: t := by
  induction t generalizing p with
  | nil => exact h
  | cons c r ih =>
    by_cases hpart : part <+: c :: r
    · obtain ⟨by', rfl⟩ := head?_eq_some_iff.mp hby
      rw [replaceAll, replaceAfter, if_pos ( isPrefixOf_iff_prefix.mpr hpart)] at h
      cases p with
      | nil => exact nil_prefix
      | cons d p =>
        rw [(cons_prefix_cons.mp h).1] at hp
        exact absurd mem_cons_self hp
    · rw [replaceAll_cons hpart] at h
      cases p with
      | nil => exact nil_prefix
      | cons d p =>
        obtain ⟨hd, htail⟩ := cons_prefix_cons.mp h
        exact cons_prefix_cons.mpr ⟨hd, ih (not_mem_of_not_mem_cons hp) htail⟩

end Text

namespace Source

open Text

variable {c : Char} {parts : List (Text × Text)}

/-! ## Placeholders -/

def markLetters : Text := ['T', 'P', 'L']

lemma placeholder_eq (n : Nat) : placeholder n = '_' :: '_' :: 'T' :: 'P' :: 'L' :: (ofNat n ++ ['_', '_']) := by
  rfl

lemma placeholder_ne_nil (n : Nat) : placeholder n ≠ [] := by
  rw [placeholder_eq]
  exact cons_ne_nil _ _

lemma underscore_not_mem (n : Nat) : '_' ∉ ofNat n := by
  intro h
  obtain ⟨d, hd, hc⟩ := mem_ofNat h
  have hdigits : ∀ d < 10, '_' ≠ .ofNat (48 + d) := by decide
  exact hdigits d hd hc

def isKeyChar (c : Char) : Bool := c == '_' || List.elem c markLetters || isAsciiDigit c

lemma isKeyChar_of_mem_placeholder {n : Nat} (h : c ∈ placeholder n) : isKeyChar c := by
  rw [placeholder_eq] at h
  simp only [mem_cons, mem_append, not_mem_nil, or_false] at h
  rcases h with rfl | rfl | rfl | rfl | rfl | hdigit | rfl | rfl
  case inr.inr.inr.inr.inr.inl =>
    obtain ⟨d, hd, rfl⟩ := mem_ofNat hdigit
    have hdigits : ∀ d < 10, isKeyChar (.ofNat (48 + d)) := by decide
    exact hdigits d hd
  all_goals decide

lemma placeholder_unique {m n : Nat} {t u : Text} (h : placeholder m ++ t = placeholder n ++ u) : m = n ∧ t = u := by
  simp only [placeholder_eq, cons_append, append_assoc, cons.injEq, true_and] at h
  obtain ⟨hdigits, hrest⟩ := cut_unique (underscore_not_mem m) (underscore_not_mem n) h
  exact ⟨ofNat_inj hdigits, (cons.inj hrest).2⟩

lemma placeholder_inj {m n : Nat} (h : placeholder m = placeholder n) : m = n := (@placeholder_unique m n [] [] (by rw [h])).1

lemma not_prefix_behind {n : Nat} {s t : Text} (hs : s <:+ placeholder n) (hne : s ≠ placeholder n) (hnil : s ≠ [])
    (hmark : ¬markLetters <+: t) (hunder : ¬ '_' :: markLetters <+: t) : ¬ '_' :: '_' :: markLetters <+: s ++ t := by
  intro hp
  rw [placeholder_eq] at hs hne
  have hletter : ∀ {c : Char} {r : Text}, c ≠ '_' → ¬ '_' :: '_' :: markLetters <+: (c :: r) ++ t :=
    fun hc hp => hc (cons_prefix_cons.mp hp).1.symm
  simp only [suffix_cons_iff] at hs
  rcases hs with rfl | rfl | rfl | rfl | rfl | hs
  · exact hne rfl
  · exact absurd (cons_prefix_cons.mp (cons_prefix_cons.mp hp).2).1 (by decide)
  · exact hletter (by decide) hp
  · exact hletter (by decide) hp
  · exact hletter (by decide) hp
  -- what is left is a tail of the digits and of the two underscores behind them
  obtain ⟨w, hw⟩ := hs
  rcases append_eq_append_iff.mp hw with ⟨d, hd, rfl⟩ | ⟨d, -, hd⟩
  · cases d with
    | nil => exact hmark (cons_prefix_cons.mp (cons_prefix_cons.mp hp).2).2
    | cons c d =>
      refine hletter (fun hc => underscore_not_mem n ?_) hp
      rw [hd, hc]
      exact mem_append_right _ mem_cons_self
  · have htail : s <:+ ['_', '_'] := ⟨d, hd.symm⟩
    simp only [suffix_cons_iff, suffix_nil] at htail
    rcases htail with rfl | rfl | htail
    · exact hmark (cons_prefix_cons.mp (cons_prefix_cons.mp hp).2).2
    · exact hunder (cons_prefix_cons.mp hp).2
    · exact hnil htail

/-! ## Texts that stand for others -/

/-- A text stands for another one: its placeholders stand for what they were put for, and every other character for itself. The
letters of a mark occur in placeholders only. -/
inductive Stands (parts : List (Text × Text)) : Text → Text → Prop
  | nil : Stands parts [] []
  | char {c : Char} {t u : Text} : ¬markLetters <+: c :: t → Stands parts t u → Stands parts (c :: t) (c :: u)
  | part {p : Text × Text} {t u : Text} : p ∈ parts → Stands parts t u → Stands parts (p.1 ++ t) (p.2 ++ u)

/-- Different placeholders for texts in brackets that do not hold the letters of a mark. -/
structure Sound (parts : List (Text × Text)) : Prop where
  key : ∀ p ∈ parts, ∃ n, p.1 = placeholder n
  distinct : parts.Pairwise fun p q => p.1 ≠ q.1
  opening : ∀ p ∈ parts, p.2.head? = some '<'
  closing : ∀ p ∈ parts, p.2.getLast? = some '>'
  unmarked : ∀ p ∈ parts, ¬markLetters <:+: p.2

lemma Sound.tail {p : Text × Text} (h : Sound (p :: parts)) : Sound parts where
  key q hq := h.key q (mem_cons_of_mem p hq)
  distinct := (pairwise_cons.mp h.distinct).2
  opening q hq := h.opening q (mem_cons_of_mem p hq)
  closing q hq := h.closing q (mem_cons_of_mem p hq)
  unmarked q hq := h.unmarked q (mem_cons_of_mem p hq)

lemma Stands.mono {parts' : List (Text × Text)} (hsub : parts ⊆ parts') {t u : Text} (h : Stands parts t u) :
    Stands parts' t u := by
  induction h with
  | nil => exact .nil
  | char hfree _ ih => exact .char hfree ih
  | part hp _ ih => exact .part (hsub hp) ih

variable {parts : List (Text × Text)} {t u : Text}

lemma Stands.not_mark (hparts : Sound parts) (h : Stands parts t u) : ¬markLetters <+: t := by
  cases h with
  | nil => decide
  | char hfree _ => exact hfree
  | @part p t u hp _ =>
    obtain ⟨n, hn⟩ := hparts.key p hp
    rw [hn]
    exact fun hmark => absurd (cons_prefix_cons.mp hmark).1 (by decide)

/-- Neither do they behind one underscore: a placeholder begins with two. -/
lemma Stands.not_underscore_mark (hparts : Sound parts) (h : Stands parts t u) : ¬ '_' :: markLetters <+: t := by
  cases h with
  | nil => decide
  | char _ h => exact fun hmark => h.not_mark hparts (cons_prefix_cons.mp hmark).2
  | @part p t u hp _ =>
    obtain ⟨n, hn⟩ := hparts.key p hp
    rw [hn]
    exact fun hmark => absurd (cons_prefix_cons.mp (cons_prefix_cons.mp hmark).2).1 (by decide)

lemma Stands.not_placeholder (hparts : Sound parts) (h : Stands parts t u) (c : Char) (n : Nat) : ¬placeholder n <+: c :: t := by
  rw [placeholder_eq]
  intro hp
  obtain ⟨-, r, hr⟩ := cons_prefix_cons.mp hp
  exact h.not_underscore_mark hparts ⟨ofNat n ++ ['_', '_'] ++ r, hr⟩

lemma Stands.plain {o : Text} (hfree : ¬markLetters <:+: o) (hlast : ∀ c ∈ o.getLast?, c = '>') (h : Stands parts t u) :
    Stands parts (o ++ t) (o ++ u) := by
  induction o with
  | nil => exact h
  | cons c o ih =>
    have hrest : Stands parts (o ++ t) (o ++ u) := by
      refine ih (fun hin => hfree (hin.trans (suffix_cons c o).isInfix)) fun d hd => hlast d ?_
      rw [getLast?_cons, Option.mem_def.mp hd]
      rfl
    refine .char (fun hmark => ?_) hrest
    -- the letters would begin in the text and end behind it, but its last character is none of them
    rcases prefix_or_prefix_of_prefix hmark (prefix_append (c :: o) t) with hin | hin
    · exact hfree hin.isInfix
    · obtain ⟨d, hd⟩ : ∃ d, (c :: o).getLast? = some d := ⟨_, getLast?_cons⟩
      have hmem : d ∈ markLetters := hin.subset (mem_of_getLast? hd)
      rw [hlast d hd] at hmem
      exact absurd hmem (by decide)

lemma Stands.replaceAll {p : Text × Text} (hparts : Sound (p :: parts)) (h : Stands (p :: parts) t u) :
    Stands parts (replaceAll t p.1 p.2) u := by
  obtain ⟨n, hn⟩ := hparts.key p mem_cons_self
  have hne : p.1 ≠ [] := hn ▸ placeholder_ne_nil n
  induction h with
  | nil => exact .nil
  | @char c t u hfree h ih =>
    have hkeep : ¬p.1 <+: c :: t := hn ▸ h.not_placeholder hparts c n
    rw [replaceAll_cons hkeep]
    refine .char (fun hmark => hfree ?_) ih
    have hbefore := @prefix_of_prefix_replaceAll p.1 p.2 (c :: t) markLetters '<' (hparts.opening p mem_cons_self) (by decide)
    rw [replaceAll_cons hkeep] at hbefore
    exact hbefore hmark
  | @part q t u hq h ih =>
    rcases mem_cons.mp hq with rfl | hq
    · rw [replaceAll_append hne]
      refine ih.plain (hparts.unmarked q mem_cons_self) fun c hc => ?_
      rw [hparts.closing q mem_cons_self] at hc
      exact (Option.some.inj hc).symm
    · obtain ⟨m, hm⟩ := hparts.key q (mem_cons_of_mem p hq)
      have hother : m ≠ n := by
        rintro rfl
        exact (pairwise_cons.mp hparts.distinct).1 q hq (hn.trans hm.symm)
      rw [replaceAll_keeps]
      · exact .part hq ih
      · intro s hs hnil hp
        rw [hn] at hp
        rw [hm] at hs
        by_cases hwhole : s = placeholder m
        · obtain ⟨r, hr⟩ := hp
          rw [hwhole] at hr
          exact hother (placeholder_unique hr).1.symm
        · refine not_prefix_behind hs hwhole hnil (h.not_mark hparts) (h.not_underscore_mark hparts) ?_
          rw [placeholder_eq] at hp
          exact IsPrefix.trans ⟨ofNat n ++ ['_', '_'], rfl⟩ hp

lemma Stands.eq_of_nil (h : Stands [] t u) : t = u := by
  induction h with
  | nil => rfl
  | char _ _ ih => rw [ih]
  | part hp _ _ => cases hp

lemma Stands.restore {m : Masked} (hparts : Sound m.parts) (h : Stands m.parts t u) : m.restore t = u := by
  obtain ⟨text, parts⟩ := m
  induction parts generalizing t with
  | nil => exact h.eq_of_nil
  | cons p parts ih => exact ih hparts.tail (h.replaceAll hparts)

/-! ## Brackets -/

/-- The first bracket of a text is not closed in it: from the front on, more brackets are opened than closed. -/
def NeverClosed (t : Text) : Prop := ∀ q, q <+: t → q ≠ [] → q.count '>' < q.count '<'

/-- A text in brackets: it begins with an opening bracket, which is closed at its end and not before. -/
structure Bracketed (t : Text) : Prop where
  opening : startsWith t ['<'] = true
  within : ∀ q, q <+: t → q ≠ [] → q ≠ t → q.count '>' < q.count '<'
  balanced : t.count '<' = t.count '>'

/-- A bracket that `depth` more brackets have followed than were closed. -/
structure Pending (depth : Nat) (t : Text) : Prop where
  opening : t.head? = some '<'
  never : NeverClosed t
  depth : t.count '<' = t.count '>' + depth

lemma pending_one : Pending 1 ['<'] where
  opening := rfl
  never q hq hne := by
    rcases prefix_cons_iff.mp hq with rfl | ⟨r, rfl, hr⟩
    · exact absurd rfl hne
    · rw [prefix_nil.mp hr]
      decide
  depth := by decide

lemma Pending.push {d d' : Nat} {t : Text} (h : Pending d t) (c : Char) (hd : 0 < d')
    (hstep : [c].count '<' + d = [c].count '>' + d') : Pending d' (t ++ [c]) where
  opening := by
    rw [head?_append, h.opening]
    rfl
  never q hq hne := by
    rcases prefix_concat_iff.mp hq with rfl | hq
    · have hdepth := h.depth
      rw [count_append, count_append]
      omega
    · exact h.never q hq hne
  depth := by
    have hdepth := h.depth
    rw [count_append, count_append]
    omega

lemma Pending.close {t : Text} (h : Pending 1 t) : Bracketed (t ++ ['>']) where
  opening := by
    obtain ⟨r, rfl⟩ := head?_eq_some_iff.mp h.opening
    rfl
  within q hq hne hwhole := by
    rcases prefix_concat_iff.mp hq with rfl | hq
    · exact absurd rfl hwhole
    · exact h.never q hq hne
  balanced := by
    have hdepth := h.depth
    rw [count_append, count_append, hdepth]
    rfl

lemma Bracketed.head {t : Text} (h : Bracketed t) : t.head? = some '<' := by
  obtain ⟨r, rfl⟩ := startsWith_iff.mp h.opening
  rfl

lemma Bracketed.last {t : Text} (h : Bracketed t) : t.getLast? = some '>' := by
  rcases eq_nil_or_concat' t with rfl | ⟨q, c, rfl⟩
  · cases h.opening
  rw [getLast?_concat]
  have hbalanced := h.balanced
  rw [count_append, count_append] at hbalanced
  by_cases hc : c = '>'
  · rw [hc]
  have hcount : [c].count '>' = 0 := count_eq_zero.mpr fun hmem => hc (mem_singleton.mp hmem).symm
  cases q with
  | nil =>
    obtain ⟨r, hr⟩ := startsWith_iff.mp h.opening
    rw [← (cons.inj hr).1] at hbalanced
    exact absurd hbalanced (by decide)
  | cons d q =>
    have hwithin := h.within (d :: q) (prefix_append _ _) (cons_ne_nil d q) (by simp)
    omega

/-! ## Masked lines -/

/-- How a line is masked with placeholders from number `n` on: character by character, a bracketed part at a time, and at last a rest
that is empty or begins with a bracket that is never closed. -/
inductive MaskedAs : Nat → Text → Masked → Prop
  | rest {n : Nat} {t : Text} : NeverClosed t → MaskedAs n t ⟨t, []⟩
  | char {n : Nat} {c : Char} {t : Text} {m : Masked} : c ≠ '<' → MaskedAs n t m → MaskedAs n (c :: t) ⟨c :: m.text, m.parts⟩
  | part {n : Nat} {o t : Text} {m : Masked} : Bracketed o → MaskedAs (n + 1) t m →
      MaskedAs n (o ++ t) ⟨placeholder n ++ m.text, (placeholder n, o) :: m.parts⟩

lemma maskFrom_within (hopen : c ≠ '<') (hclose : c ≠ '>') (n d : Nat) (held r : Text) :
    maskFrom n (d + 1) held (c :: r) = maskFrom n (d + 1) (c :: held) r := by
  cases d <;> simp [maskFrom, hopen, hclose]

lemma maskedAs_maskFrom (t : Text) :
    (∀ n, MaskedAs n t (maskFrom n 0 [] t)) ∧
      ∀ n d held, Pending (d + 1) held.reverse → MaskedAs n (held.reverse ++ t) (maskFrom n (d + 1) held t) := by
  induction t with
  | nil =>
    refine ⟨fun n => .rest fun q hq hne => absurd (prefix_nil.mp hq) hne, fun n d held h => ?_⟩
    rw [append_nil]
    exact .rest h.never
  | cons c r ih =>
    obtain ⟨ihplain, ihheld⟩ := ih
    refine ⟨fun n => ?_, fun n d held h => ?_⟩
    · rw [maskFrom]
      by_cases hc : c = '<'
      · rw [hc]
        exact ihheld n 0 ['<'] pending_one
      · rw [if_neg (by simpa using hc)]
        exact .char hc (ihplain n)
    · have hpush : held.reverse ++ c :: r = (c :: held).reverse ++ r := by simp
      have hcons : (c :: held).reverse = held.reverse ++ [c] := reverse_cons
      by_cases hopen : c = '<'
      · subst hopen
        rw [hpush]
        refine ihheld n (d + 1) ('<' :: held) ?_
        rw [hcons]
        exact h.push '<' (by omega) (by simp; omega)
      by_cases hclose : c = '>'
      · subst hclose
        cases d with
        | zero =>
          rw [hpush]
          refine .part ?_ (ihplain (n + 1))
          rw [hcons]
          exact h.close
        | succ d =>
          rw [hpush]
          refine ihheld n d ('>' :: held) ?_
          rw [hcons]
          exact h.push '>' (by omega) (by simp; omega)
      · rw [hpush, maskFrom_within hopen hclose]
        refine ihheld n d (c :: held) ?_
        rw [hcons]
        exact h.push c (by omega) (by simp [hopen, hclose])

lemma maskedAs_mask (line : Text) : MaskedAs 0 line (mask line) := (maskedAs_maskFrom line).1 0

variable {n : Nat} {line : Text} {m : Masked}

section

variable (h : MaskedAs n line m)

include h

lemma MaskedAs.bracketed : ∀ p ∈ m.parts, Bracketed p.2 := by
  induction h with
  | rest _ => exact nofun
  | char _ _ ih => exact ih
  | part ho _ ih => exact forall_mem_cons.mpr ⟨ho, ih⟩

lemma MaskedAs.keys : m.parts.map (·.1) = (range' n m.parts.length).map placeholder := by
  induction h with
  | rest _ => rfl
  | char _ _ ih => exact ih
  | part _ _ ih =>
    rw [map_cons, ih, length_cons, range'_succ, map_cons]

lemma MaskedAs.part_of_line : ∀ p ∈ m.parts, p.2 <:+: line := by
  induction h with
  | rest _ => exact nofun
  | char _ _ ih => exact fun p hp => (ih p hp).trans (suffix_cons _ _).isInfix
  | @part n o t m _ _ ih =>
    intro p hp
    rcases mem_cons.mp hp with rfl | hp
    · exact (prefix_append o t).isInfix
    · exact (ih p hp).trans (suffix_append o t).isInfix

lemma MaskedAs.sound (hfree : ¬markLetters <:+: line) : Sound m.parts where
  key p hp := by
    have hmem : p.1 ∈ m.parts.map (·.1) := mem_map_of_mem hp
    rw [h.keys] at hmem
    obtain ⟨k, -, hk⟩ := mem_map.mp hmem
    exact ⟨k, hk.symm⟩
  distinct := by
    have hnodup : (m.parts.map (·.1)).Nodup := by
      rw [h.keys]
      exact Nodup.map (fun _ _ => placeholder_inj) nodup_range'
    exact pairwise_map.mp hnodup
  opening p hp := (h.bracketed p hp).head
  closing p hp := (h.bracketed p hp).last
  unmarked p hp hin := hfree (hin.trans (h.part_of_line p hp))

/-- Masking brings no characters in but those of placeholders. -/
lemma MaskedAs.mem_of_mem (hc : isKeyChar c = false) (hmem : c ∈ m.text) : c ∈ line := by
  induction h with
  | rest _ => exact hmem
  | char _ _ ih => exact mem_cons.mpr ((mem_cons.mp hmem).imp_right ih)
  | part _ _ ih =>
    rcases mem_append.mp hmem with hkey | hmem
    · rw [isKeyChar_of_mem_placeholder hkey] at hc
      cases hc
    · exact mem_append_right _ (ih hmem)

lemma MaskedAs.begins {p : Text} (hp : '_' ∉ p) (hbegin : p <+: m.text) : p <+: line := by
  induction h generalizing p with
  | rest _ => exact hbegin
  | char _ _ ih =>
    cases p with
    | nil => exact nil_prefix
    | cons d p =>
      obtain ⟨hd, htail⟩ := cons_prefix_cons.mp hbegin
      exact cons_prefix_cons.mpr ⟨hd, ih (not_mem_of_not_mem_cons hp) htail⟩
  | part _ _ _ =>
    cases p with
    | nil => exact nil_prefix
    | cons d p =>
      rw [(cons_prefix_cons.mp hbegin).1] at hp
      exact absurd mem_cons_self hp

end

lemma stands_self {t : Text} (hfree : ¬markLetters <:+: t) : Stands parts t t := by
  induction t with
  | nil => exact .nil
  | cons c r ih => exact .char (fun hp => hfree hp.isInfix) (ih fun hin => hfree (hin.trans (suffix_cons c r).isInfix))

lemma MaskedAs.stands (h : MaskedAs n line m) (hfree : ¬markLetters <:+: line) : Stands m.parts m.text line := by
  induction h with
  | rest _ => exact stands_self hfree
  | @char n c t m _ h ih =>
    refine .char (fun hmark => ?_) (ih fun hin => hfree (hin.trans (suffix_cons c t).isInfix))
    obtain ⟨hc, htail⟩ := cons_prefix_cons.mp hmark
    exact hfree (cons_prefix_cons.mpr ⟨hc, h.begins (by decide) htail⟩ : markLetters <+: c :: t).isInfix
  | @part n o t m _ h ih =>
    have hrest := ih fun hin => hfree (hin.trans (suffix_append o t).isInfix)
    exact .part mem_cons_self (hrest.mono (subset_cons_self _ _))

/-- After masking, no bracket is closed: what is left begins with a bracket that is never closed, or has none. -/
lemma MaskedAs.unclosed (h : MaskedAs n line m) : ∃ plain rest, m.text = plain ++ rest ∧ '<' ∉ plain ∧ NeverClosed rest := by
  induction h with
  | @rest n t h => exact ⟨[], t, rfl, not_mem_nil, h⟩
  | @char n c t m hc _ ih =>
    obtain ⟨plain, rest, hsplit, hplain, hrest⟩ := ih
    exact ⟨c :: plain, rest, by rw [hsplit]; rfl, not_mem_cons_of_ne_of_not_mem (symm hc) hplain, hrest⟩
  | @part n o t m _ _ ih =>
    obtain ⟨plain, rest, hsplit, hplain, hrest⟩ := ih
    refine ⟨placeholder n ++ plain, rest, by rw [hsplit, append_assoc], fun hmem => ?_, hrest⟩
    rcases mem_append.mp hmem with hmem | hmem
    · exact absurd (isKeyChar_of_mem_placeholder hmem) (by decide)
    · exact hplain hmem

/-- A line without the letters of a mark is restored from its masked form by replacing the placeholders in their order. Each of them
stands for a text in brackets, and no bracket that is left is closed. -/
theorem restore_mask {line : Text} (h : contains line "TPL" = false) :
    (mask line).restore (mask line).text = line ∧ (∀ p ∈ (mask line).parts, Bracketed p.2) ∧
      ∃ plain rest, (mask line).text = plain ++ rest ∧ '<' ∉ plain ∧ NeverClosed rest := by
  have hmask := maskedAs_mask line
  have hfree : ¬markLetters <:+: line := contains_eq_false_iff.mp h
  exact ⟨(hmask.stands hfree).restore (hmask.sound hfree), hmask.bracketed, hmask.unclosed⟩

/-- A line with nested brackets, with brackets between underscores and digits, and with a bracket that is not closed. -/
def nestedLine : Text := "map<int, list<T>> _<a>__<b>0 x < y<z>"

/-- The three closed brackets of `nestedLine` are masked and restored. -/
theorem nested_restored :
    contains nestedLine "TPL" = false ∧ (mask nestedLine).text = "map__TPL0__ ___TPL1______TPL2__0 x < y<z>" ∧
      (mask nestedLine).parts.map (·.2) = ["<int, list<T>>", "<a>", "<b>"] ∧
      (mask nestedLine).restore (mask nestedLine).text = nestedLine ∧ Bracketed "<int, list<T>>" := by
  have hfree : contains nestedLine "TPL" = false := by decide
  obtain ⟨hrestore, hbracketed, -⟩ := restore_mask hfree
  refine ⟨hfree, by decide, by decide, hrestore, ?_⟩
  exact hbracketed ("__TPL0__", "<int, list<T>>") (by decide)

end Source

end FunctionDocs
