import FunctionDocs.Text.Basic
import Mathlib.Data.List.DropRight
import Mathlib.Data.List.Infix
import Mathlib.Tactic.MkIffOfInductiveProp

/-!
# Facts about texts

Parts of a text, trimming, lines and the characters that end them. A text is trimmed when no white space stands at either end;
trimming is characterised by the way it splits a text into white space, a trimmed text and white space again.
-/

open List

namespace FunctionDocs

variable {c : Char}

/-! ## Characters -/

/-- A property of the characters of a text is decided along the text, not over all characters. -/
instance decidableForallText (t : Text) (p : Char → Prop) [DecidablePred p] : Decidable (∀ c ∈ t, p c) := List.decidableBAll p t

instance decidableForallOption (o : Option Char) (p : Char → Prop) [DecidablePred p] : Decidable (∀ c ∈ o, p c) := o.decidableForallMem

/-- The code points of white space, with the controls around it. -/
def blankCodes : List Nat :=
  List.range 33 ++ [133, 160, 5760] ++ List.range' 8192 11 ++ [8232, 8233, 8239, 8287, 12288]

lemma mem_blankCodes (h : isBlank c) : c.toNat ∈ blankCodes := by
  simp only [isBlank, Bool.or_eq_true, Bool.and_eq_true, decide_eq_true_eq, beq_iff_eq] at h
  simp only [blankCodes, mem_append, mem_range, mem_range'_1, mem_cons]
  omega

lemma isWordChar_of_isBlank (h : isBlank c) : isWordChar c = false := by
  have hall : ∀ n ∈ blankCodes, isBlank (.ofNat n) → isWordChar (.ofNat n) = false := by
    decide +kernel
  simpa using hall c.toNat (mem_blankCodes h) (by simpa using h)

lemma isBlank_of_isWordChar (h : isWordChar c) : isBlank c = false := by
  by_contra hb
  rw [Bool.not_eq_false] at hb
  rw [isWordChar_of_isBlank hb] at h
  cases h

lemma isLineEnd_of_not_isBlank (h : isBlank c = false) : isLineEnd c = false := by
  by_contra he
  rw [Bool.not_eq_false] at he
  rw [isBlank_of_isLineEnd he] at h
  cases h

namespace Text

variable {c sep : Char} {l part t u : Text} {head a b w : Text}

/-! ## Parts -/

lemma startsWith_iff : startsWith t head ↔ head <+: t := isPrefixOf_iff_prefix

lemma endsWith_iff {tail : Text} : endsWith t tail ↔ tail <:+ t := by
  rw [endsWith, isPrefixOf_iff_prefix, reverse_prefix]

lemma prefix_append_cases {p : Text} (h : p <+: a ++ b) : p <+: a ∨ ∃ c q, c :: q <+: b ∧ p = a ++ c :: q := by
  rcases prefix_or_prefix_of_prefix h (prefix_append a b) with hpre | ⟨q, rfl⟩
  · exact .inl hpre
  · cases q with
    | nil => exact .inl (by rw [append_nil])
    | cons c q => exact .inr ⟨c, q, (prefix_append_right_inj a).mp h, rfl⟩

lemma startsWith_eq_false_iff : startsWith t head = false ↔ ¬head <+: t := by
  rw [← startsWith_iff, Bool.not_eq_true]

lemma startsWith_of_not_mem {c : Char} {r : Text} (h : c ∉ t) : startsWith t (c :: r) = false :=
  startsWith_eq_false_iff.mpr fun hp => h (hp.subset mem_cons_self)

lemma contains_iff : contains t part ↔ part <:+: t := by
  rw [contains]
  induction t with
  | nil => simp [hasPart]
  | cons c r ih => rw [hasPart, Bool.or_eq_true, ih, isPrefixOf_iff_prefix, infix_cons_iff]

lemma contains_eq_false_iff : contains t part = false ↔ ¬part <:+: t := by
  rw [← contains_iff, Bool.not_eq_true]

lemma span_append {α : Type} {p : α → Bool} {a b : List α} (ha : ∀ x ∈ a, p x) (hb : ∀ x ∈ b.head?, p x = false) :
    (a ++ b).takeWhile p = a ∧ (a ++ b).dropWhile p = b := by
  rw [takeWhile_append_of_pos ha, dropWhile_append_of_pos ha]
  cases b with
  | nil => simp
  | cons c r => simp [hb c rfl]

lemma span_ne (h : c ∉ a) (b : Text) : (a ++ c :: b).takeWhile (· != c) = a ∧ (a ++ c :: b).dropWhile (· != c) = c :: b :=
  span_append (fun _ hd => bne_iff_ne.mpr fun heq => h (heq ▸ hd)) (by simp)

lemma cut_unique {x y : Text} (hx : c ∉ x) (hy : c ∉ y) (h : x ++ c :: a = y ++ c :: b) : x = y ∧ a = b := by
  obtain ⟨htake, hdrop⟩ := span_ne hx a
  obtain ⟨htake', hdrop'⟩ := span_ne hy b
  rw [h] at htake hdrop
  exact ⟨htake.symm.trans htake', (cons.inj (hdrop.symm.trans hdrop')).2⟩

lemma takeWhile_ne (h : c ∉ a) : a.takeWhile (· != c) = a := takeWhile_eq_self_iff.mpr fun _ hd => bne_iff_ne.mpr fun heq => h (heq ▸ hd)

/-! ## Trimming -/

lemma isBlankLine_iff : isBlankLine t ↔ ∀ c ∈ t, isBlank c := all_eq_true

lemma isBlankLine_append : isBlankLine (t ++ u) ↔ isBlankLine t ∧ isBlankLine u := by
  simp only [isBlankLine_iff]
  exact forall_mem_append

lemma isBlankLine_cons : isBlankLine (c :: t) ↔ isBlank c ∧ isBlankLine t := by
  simp [isBlankLine]

lemma isBlankLine_reverse (t : Text) : isBlankLine t.reverse = isBlankLine t := all_reverse

/-- No white space stands at either end. -/
structure Trimmed (t : Text) : Prop where
  head : ∀ c, t.head? = some c → isBlank c = false
  last : ∀ c, t.getLast? = some c → isBlank c = false

lemma trimmed_nil : Trimmed [] := ⟨by simp, by simp⟩

lemma Trimmed.cons {c : Char} {r : Text} (h : Trimmed (c :: r)) : isBlank c = false := h.head c rfl

lemma trimLeft_blank_append (hl : isBlankLine l) (t : Text) : trimLeft (l ++ t) = trimLeft t :=
  dropWhile_append_of_pos (isBlankLine_iff.mp hl)

lemma trimLeft_eq_self (h : ∀ c, t.head? = some c → isBlank c = false) : trimLeft t = t := by
  cases t with
  | nil => rfl
  | cons c r => exact dropWhile_cons_of_neg (by simp [h c rfl])

lemma trimLeft_append (hl : isBlankLine l) (hu : ∀ c, u.head? = some c → isBlank c = false) : trimLeft (l ++ u) = u :=
  (trimLeft_blank_append hl u).trans (trimLeft_eq_self hu)

lemma trimLeft_append_of_not_blank (h : isBlankLine t = false) (u : Text) : trimLeft (t ++ u) = trimLeft t ++ u := by
  refine dropWhile_append.trans (if_neg fun hnil => ?_)
  rw [List.isEmpty_iff, dropWhile_eq_nil_iff, ← isBlankLine_iff, h] at hnil
  cases hnil

lemma trimLeft_append_of_head (h : ∀ c, u.head? = some c → isBlank c = false) (t : Text) : trimLeft (t ++ u) = trimLeft t ++ u := by
  cases ht : isBlankLine t with
  | true => rw [trimLeft_append ht h, ← append_nil t, trimLeft_append ht (by simp), nil_append]
  | false => exact trimLeft_append_of_not_blank ht u

lemma trimRight_eq (t : Text) : trimRight t = (trimLeft t.reverse).reverse := rfl

lemma trimRight_append_blank (hu : isBlankLine u) (t : Text) : trimRight (t ++ u) = trimRight t := by
  rw [trimRight_eq, reverse_append, trimLeft_blank_append (by rwa [isBlankLine_reverse]), trimRight_eq]

lemma trimRight_eq_self (h : ∀ c, t.getLast? = some c → isBlank c = false) : trimRight t = t := by
  rw [trimRight_eq, trimLeft_eq_self (by simpa using h), reverse_reverse]

lemma trimRight_append (hu : isBlankLine u) (ht : ∀ c, t.getLast? = some c → isBlank c = false) : trimRight (t ++ u) = t :=
  (trimRight_append_blank hu t).trans (trimRight_eq_self ht)

lemma trimRight_append_of_not_blank (h : isBlankLine u = false) : trimRight (t ++ u) = t ++ trimRight u := by
  rw [trimRight_eq, reverse_append, trimLeft_append_of_not_blank (by rwa [isBlankLine_reverse]), reverse_append, reverse_reverse,
    trimRight_eq]

lemma trimRight_append_of_last (h : ∀ c, t.getLast? = some c → isBlank c = false) (u : Text) :
    trimRight (t ++ u) = t ++ trimRight u := by
  rw [trimRight_eq, reverse_append, trimLeft_append_of_head (by simpa using h), reverse_append, reverse_reverse, trimRight_eq]

lemma trim_concat {c : Char} (hc : isBlank c = false) (t : Text) : trim (t ++ [c]) = trimLeft t ++ [c] := by
  rw [trim, trimLeft_append_of_head (by simpa using hc), trimRight_eq_self (by simpa using hc)]

lemma trim_blank_append (hl : isBlankLine l) (t : Text) : trim (l ++ t) = trim t := by
  rw [trim, trimLeft_blank_append hl, trim]

lemma trim_eq_nil_iff : trim t = [] ↔ isBlankLine t := by
  have hleft : isBlankLine (trimLeft t) ↔ isBlankLine t := by
    nth_rewrite 2 [← takeWhile_append_dropWhile (l := t)]
    rw [isBlankLine_append]
    exact (and_iff_right (isBlankLine_iff.mpr fun _ => mem_takeWhile_imp)).symm
  rw [← hleft, isBlankLine_iff]
  exact rdropWhile_eq_nil_iff

lemma trim_append_blank (hu : isBlankLine u) : trim (t ++ u) = trim t := by
  cases ht : isBlankLine t with
  | true => rw [trim_eq_nil_iff.mpr (isBlankLine_append.mpr ⟨ht, hu⟩), trim_eq_nil_iff.mpr ht]
  | false => rw [trim, trimLeft_append_of_not_blank ht, trimRight_append_blank hu, trim]

lemma trim_eq_trimRight (h : ∀ c, t.head? = some c → isBlank c = false) : trim t = trimRight t := by
  rw [trim, trimLeft_eq_self h]

lemma Trimmed.trim_eq (h : Trimmed t) : trim t = t := by
  rw [trim_eq_trimRight h.head, trimRight_eq_self h.last]

lemma trim_of_split {r : Text} (hl : isBlankLine l) (hu : Trimmed u) (hr : isBlankLine r) : trim (l ++ u ++ r) = u := by
  rw [trim_append_blank hr, trim_blank_append hl, hu.trim_eq]

lemma trimLeft_split (t : Text) : ∃ l, isBlankLine l ∧ t = l ++ trimLeft t :=
  ⟨t.takeWhile isBlank, isBlankLine_iff.mpr fun _ => mem_takeWhile_imp, takeWhile_append_dropWhile.symm⟩

lemma trimLeft_head {t : Text} {c : Char} (h : (trimLeft t).head? = some c) : isBlank c = false := by
  have := head?_dropWhile_not isBlank t
  rw [trimLeft, dropLeft] at h
  rw [h] at this
  simpa using this

lemma trimRight_split (t : Text) : ∃ r, isBlankLine r ∧ t = trimRight t ++ r := by
  obtain ⟨l, hl, ht⟩ := trimLeft_split t.reverse
  refine ⟨l.reverse, by rwa [isBlankLine_reverse], ?_⟩
  rw [trimRight_eq, ← reverse_append, ← ht, reverse_reverse]

lemma trimRight_prefix (t : Text) : trimRight t <+: t := rdropWhile_prefix _ _

lemma trimRight_subset (t : Text) : trimRight t ⊆ t := ( trimRight_prefix t).subset

lemma trimRight_last (h : (trimRight t).getLast? = some c) : isBlank c = false := by
  rw [trimRight_eq, getLast?_reverse] at h
  exact trimLeft_head h

lemma trimRight_head (h : (trimRight t).head? = some c) : t.head? = some c := by
  obtain ⟨r, hr⟩ := trimRight_prefix t
  rw [← hr, head?_append, h]
  rfl

lemma trimmed_trim (t : Text) : Trimmed (trim t) := ⟨fun _ hc => trimLeft_head (trimRight_head hc), fun _ hc => trimRight_last hc⟩

lemma trimLeft_trimRight (t : Text) : trimLeft (trimRight t) = trim t := by
  obtain ⟨l, hl, ht⟩ := trimLeft_split t
  cases hleft : isBlankLine (trimLeft t) with
  | true =>
    have hblank : isBlankLine t := by rw [ht]; exact isBlankLine_append.mpr ⟨hl, hleft⟩
    rw [← nil_append t, trimRight_append hblank (by simp), nil_append, trim_eq_nil_iff.mpr hblank]
    rfl
  | false =>
    nth_rewrite 1 [ht]
    rw [trimRight_append_of_not_blank hleft, trimLeft_append hl fun c hc => trimLeft_head (trimRight_head hc), trim]

lemma trim_split (t : Text) : ∃ l r, isBlankLine l ∧ isBlankLine r ∧ t = l ++ trim t ++ r := by
  obtain ⟨l, hl, h⟩ := trimLeft_split t
  obtain ⟨r, hr, h'⟩ := trimRight_split (trimLeft t)
  refine ⟨l, r, hl, hr, ?_⟩
  rw [trim, append_assoc, ← h']
  exact h

@[simp] lemma trim_trim (t : Text) : trim (trim t) = trim t := (trimmed_trim t).trim_eq

lemma trim_trimRight (t : Text) : trim (trimRight t) = trim t := by
  obtain ⟨r, hr, ht⟩ := trimRight_split t
  nth_rewrite 2 [ht]
  exact (trim_append_blank hr).symm

lemma infix_trim (t : Text) : trim t <:+: t := by
  obtain ⟨l, r, -, -, h⟩ := trim_split t
  exact ⟨l, r, h.symm⟩

lemma trim_subset (t : Text) : trim t ⊆ t := (infix_trim t).subset

/-! ## Pieces between separators -/

attribute [local simp] splitOnChar

lemma splitOnChar_ne_nil (sep : Char) (t : Text) : splitOnChar sep t ≠ [] := by
  cases t with
  | nil => simp
  | cons c r =>
    rw [splitOnChar]
    split
    · simp
    · split <;> simp

lemma splitOnChar_cons_ne (h : c ≠ sep) (r : Text) :
    ∃ p ps, splitOnChar sep r = p :: ps ∧ splitOnChar sep (c :: r) = (c :: p) :: ps := by
  obtain ⟨p, ps, hp⟩ := exists_cons_of_ne_nil (splitOnChar_ne_nil sep r)
  refine ⟨p, ps, hp, ?_⟩
  rw [splitOnChar, if_neg (by simpa using h), hp]

lemma splitOnChar_append_cons (sep : Char) (a b : Text) :
    splitOnChar sep (a ++ sep :: b) = splitOnChar sep a ++ splitOnChar sep b := by
  induction a with
  | nil => simp
  | cons c a ih =>
    by_cases hc : c = sep
    · subst hc
      simp [ih]
    · obtain ⟨p, ps, hp, hcp⟩ := splitOnChar_cons_ne hc a
      obtain ⟨q, qs, hq, hcq⟩ := splitOnChar_cons_ne hc (a ++ sep :: b)
      rw [ih, hp, cons_append] at hq
      cases hq
      rw [cons_append, hcq, hcp, cons_append]

lemma splitOnChar_of_not_mem (h : sep ∉ t) : splitOnChar sep t = [t] := by
  induction t with
  | nil => rfl
  | cons c r ih =>
    rw [mem_cons, not_or] at h
    rw [splitOnChar, if_neg (by simpa using Ne.symm h.1), ih h.2]

lemma splitOnChar_joinWith {ls : List Text} (hne : ls ≠ []) (h : ∀ l ∈ ls, sep ∉ l) :
    splitOnChar sep (joinWith [sep] ls) = ls := by
  induction ls with
  | nil => exact absurd rfl hne
  | cons l ls ih =>
    have hl : splitOnChar sep l = [l] := splitOnChar_of_not_mem (h l mem_cons_self)
    cases ls with
    | nil => exact hl
    | cons m ls =>
      have hrest := ih (by simp) fun x hx => h x (mem_cons_of_mem _ hx)
      rw [joinWith, append_assoc, singleton_append, splitOnChar_append_cons, hl, hrest]
      rfl

/-! ## Lines -/

/-- No character of the text ends a line. -/
def Flat (t : Text) : Prop := ∀ c ∈ t, isLineEnd c = false
  deriving Decidable

lemma Flat.of_subset (h : Flat t) (hs : u ⊆ t) : Flat u := fun c hc => h c (hs hc)

lemma flat_append : Flat (t ++ u) ↔ Flat t ∧ Flat u := forall_mem_append

lemma Flat.append (ht : Flat t) (hu : Flat u) : Flat (t ++ u) := flat_append.mpr ⟨ht, hu⟩

lemma Flat.not_mem (h : Flat t) : '\n' ∉ t := fun hm => absurd (h _ hm) (by decide)

lemma prefix_of_head_lines (h : l ∈ (lines t).head?) : l <+: t := by
  fun_induction lines t generalizing l with
  | case1 => cases h
  | case2 r ih =>
    cases h
    exact nil_prefix
  | case3 c r _ hc ih =>
    cases h
    exact nil_prefix
  | case4 c r _ hc hr ih =>
    cases h
    exact prefix_append [c] r
  | case5 c r _ hc k ks hr ih =>
    cases h
    rw [hr] at ih
    exact cons_prefix_cons.mpr ⟨rfl, ih rfl⟩

lemma infix_of_mem_lines (h : l ∈ lines t) : l <:+: t := by
  fun_induction lines t generalizing l with
  | case1 => cases h
  | case2 r ih =>
    rcases mem_cons.mp h with rfl | h
    · exact nil_infix
    · exact infix_cons (infix_cons (ih h))
  | case3 c r _ hc ih =>
    rcases mem_cons.mp h with rfl | h
    · exact nil_infix
    · exact infix_cons (ih h)
  | case4 c r _ hc hr ih =>
    rw [mem_singleton.mp h]
    exact (prefix_append [c] r).isInfix
  | case5 c r _ hc k ks hr ih =>
    rcases mem_cons.mp h with rfl | h
    · have hk : k <+: r := prefix_of_head_lines (by rw [hr]; rfl)
      exact (cons_prefix_cons.mpr ⟨rfl, hk⟩).isInfix
    · exact infix_cons (ih (by rw [hr]; exact mem_cons_of_mem _ h))

lemma flat_of_mem_lines (h : l ∈ lines t) : Flat l := by
  fun_induction lines t generalizing l with
  | case1 => cases h
  | case2 r ih | case3 c r _ hc ih =>
    rcases mem_cons.mp h with rfl | h
    · exact nofun
    · exact ih h
  | case4 c r _ hc hr ih =>
    rw [mem_singleton.mp h]
    simpa [Flat] using hc
  | case5 c r _ hc k ks hr ih =>
    rw [hr] at ih
    rcases mem_cons.mp h with rfl | h
    · exact forall_mem_cons.mpr ⟨by simpa using hc, ih mem_cons_self⟩
    · exact ih (mem_cons_of_mem _ h)

lemma mem_lines (h : l ∈ lines t) : l ⊆ t ∧ Flat l := ⟨(infix_of_mem_lines h).subset, flat_of_mem_lines h⟩

lemma lines_eq_splitOnChar (h : ∀ c ∈ t, isLineEnd c → c = '\n')
    (hlast : ∃ c, t.getLast? = some c ∧ c ≠ '\n') : lines t = splitOnChar '\n' t := by
  induction t with
  | nil => simp at hlast
  | cons c r ih =>
    have hr : ∀ c ∈ r, isLineEnd c → c = '\n' := fun x hx => h x (mem_cons_of_mem _ hx)
    have hcr : c ≠ '\r' := fun e => absurd (h c mem_cons_self (by subst e; decide)) (by subst e; decide)
    cases r with
    | nil =>
      have hcn : c ≠ '\n' := by simpa using hlast
      have hc : isLineEnd c = false := by
        by_contra hc
        exact hcn (h c mem_cons_self (by simpa using hc))
      simp [lines, splitOnChar, hc, hcn]
    | cons d r =>
      have ih := ih hr (by simpa using hlast)
      by_cases hc : c = '\n'
      · subst hc
        rw [splitOnChar, if_pos (by decide), lines, if_pos (by decide), ih]
        intro r' hc'
        exact absurd hc' (by decide)
      · have hcl : isLineEnd c = false := by
          by_contra hcl
          exact hc (h c mem_cons_self (by simpa using hcl))
        obtain ⟨p, ps, hp, hcp⟩ := splitOnChar_cons_ne hc (d :: r)
        rw [hcp, lines, ih, hp]
        · simp [hcl]
        · intro r' hc'
          exact absurd hc' hcr

/-- White space of any kind separates words, so a word lies on one line. -/
lemma flat_of_not_isBlank (h : ∀ c ∈ t, isBlank c = false) : Flat t := fun c hc => isLineEnd_of_not_isBlank (h c hc)

lemma mem_wordsFrom {word : Text} (hword : ∀ c ∈ word, isBlank c = false) (h : w ∈ wordsFrom word t) :
    ∀ c ∈ w, isBlank c = false := by
  have hrev : ∀ c ∈ word.reverse, isBlank c = false := by simpa using hword
  fun_induction wordsFrom word t with
  | case1 => cases h
  | case2 => rw [mem_singleton] at h; exact h ▸ hrev
  | case3 word c r hc he ih => exact ih (by simp) h (by simp)
  | case4 word c r hc he ih =>
    rcases mem_cons.mp h with rfl | h
    · exact hrev
    · exact ih (by simp) h (by simp)
  | case5 word c r hc ih =>
    have hcons : ∀ x ∈ c :: word, isBlank x = false := by simpa [hc] using hword
    exact ih hcons h fun x hx => hcons x (mem_reverse.mp hx)

lemma mem_words (h : w ∈ words t) : ∀ c ∈ w, isBlank c = false := mem_wordsFrom (by simp) h

lemma mem_replaceAll {by_ : Text} (h : c ∈ replaceAll t part by_) : c ∈ by_ ∨ c ∈ t := by
  suffices ∀ skip, c ∈ replaceAfter part by_ skip t → c ∈ by_ ∨ c ∈ t from this 0 h
  clear h
  intro skip h
  fun_induction replaceAfter part by_ skip t with
  | case1 => cases h
  | case2 skip d r ih => exact (ih h).imp_right (mem_cons_of_mem _)
  | case3 d r hp ih =>
    rcases mem_append.mp h with h | h
    · exact .inl h
    · exact (ih h).imp_right (mem_cons_of_mem _)
  | case4 d r hp ih =>
    rcases mem_cons.mp h with rfl | h
    · exact .inr mem_cons_self
    · exact (ih h).imp_right (mem_cons_of_mem _)

lemma mem_digitsRev {fuel n : Nat} (h : c ∈ digitsRev fuel n) : ∃ d < 10, c = .ofNat (48 + d) := by
  induction fuel generalizing n with
  | zero => cases h
  | succ fuel ih =>
    have hdigit : ∃ d < 10, Char.ofNat (48 + n % 10) = .ofNat (48 + d) := ⟨n % 10, Nat.mod_lt n (by decide), rfl⟩
    simp only [digitsRev] at h
    split at h
    · rw [mem_singleton.mp h]
      exact hdigit
    · rcases mem_cons.mp h with rfl | h
      · exact hdigit
      · exact ih h

lemma mem_ofNat {n : Nat} (h : c ∈ ofNat n) : ∃ d < 10, c = .ofNat (48 + d) := mem_digitsRev (mem_reverse.mp h)

lemma isWordChar_of_mem_ofNat {n : Nat} (h : c ∈ ofNat n) : isWordChar c := by
  have hdigits : ∀ d < 10, isWordChar (.ofNat (48 + d)) := by decide
  obtain ⟨d, hd, rfl⟩ := mem_ofNat h
  exact hdigits d hd

lemma flat_ofNat (n : Nat) : Flat (ofNat n) :=
  fun _ hc => isLineEnd_of_not_isBlank (isBlank_of_isWordChar (isWordChar_of_mem_ofNat hc))

lemma cutFirst_eq_some (h : cutFirst part t = some (a, b)) : t = a ++ part ++ b := by
  induction t generalizing a b with
  | nil =>
    simp only [cutFirst] at h
    split at h
    · simp_all
    · cases h
  | cons c r ih =>
    simp only [cutFirst] at h
    split at h
    next hp =>
      cases h
      obtain ⟨u, hu⟩ := isPrefixOf_iff_prefix.mp hp
      rw [← hu]
      simp
    · obtain ⟨⟨a', b'⟩, hr, h⟩ := Option.map_eq_some_iff.mp h
      cases h
      rw [ih hr]
      rfl

lemma not_infix_of_cutFirst (h : cutFirst part t = none) : ¬part <:+: t := by
  induction t with
  | nil =>
    rw [infix_nil]
    rintro rfl
    cases h
  | cons c r ih =>
    rw [cutFirst] at h
    split at h
    · cases h
    next hhere =>
      rw [infix_cons_iff, ← isPrefixOf_iff_prefix, not_or]
      exact ⟨hhere, ih (Option.map_eq_none_iff.mp h)⟩

lemma not_infix_before_cut (hpart : part ≠ []) (h : cutFirst part t = some (a, b)) : ¬part <:+: a ++ part.dropLast := by
  have hshort : ¬part <:+: part.dropLast := fun hi => by
    have hlen := hi.length_le
    have hpos := length_pos_iff.mpr hpart
    rw [length_dropLast] at hlen
    omega
  induction t generalizing a with
  | nil =>
    rw [cutFirst] at h
    split at h
    · cases h
      exact hshort
    · cases h
  | cons c r ih =>
    rw [cutFirst] at h
    split at h
    · cases h
      exact hshort
    next hhere =>
      obtain ⟨⟨a', b'⟩, hcut, hab⟩ := Option.map_eq_some_iff.mp h
      cases hab
      rw [cons_append, infix_cons_iff, not_or]
      refine ⟨fun hfirst => hhere ?_, ih hcut⟩
      rw [ isPrefixOf_iff_prefix, cutFirst_eq_some hcut]
      refine hfirst.trans ((prefix_cons_inj c).mpr ?_)
      rw [append_assoc, prefix_append_right_inj]
      exact ( dropLast_prefix part).trans (prefix_append part b)

end Text

end FunctionDocs
