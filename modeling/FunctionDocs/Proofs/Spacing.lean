import FunctionDocs.Proofs.Text

/-!
# Texts that differ in white space

Two texts of one line are loose if they have white space in the same places, though not the same amount of it. Loose texts stay
loose when they are trimmed or put together, and hold the same words. Going through both texts at once tells whether they are loose.
-/

open List

namespace FunctionDocs.Text

variable {c : Char} {r t t' : Text} {b : Char} {x : Text}

def isGap (c : Char) : Bool := isBlank c && c != '\n'

def solids (t : Text) : Text := t.filter (!isBlank ·)

/-- Texts of one line that have white space in the same places, but not necessarily the same amount of it. -/
inductive Loose : Text → Text → Prop where
  | nil : Loose [] []
  | solid {c : Char} {r r' : Text} (hc : isBlank c = false) (h : Loose r r') : Loose (c :: r) (c :: r')
  | gap {b b' : Char} {r r' : Text} (hb : isGap b = true) (hb' : isGap b' = true) (h : Loose r r') : Loose (b :: r) (b' :: r')
  | left {b b₁ : Char} {r t' : Text} (hb : isGap b = true) (hb₁ : isGap b₁ = true) (h : Loose (b₁ :: r) t') : Loose (b :: b₁ :: r) t'
  | right {b' b₁ : Char} {t r' : Text} (hb' : isGap b' = true) (hb₁ : isGap b₁ = true) (h : Loose t (b₁ :: r')) :
      Loose t (b' :: b₁ :: r')

lemma isBlank_of_isGap (h : isGap c) : isBlank c := (Bool.and_eq_true_iff.mp h).1

lemma isGap_iff (h : c ≠ '\n') : isGap c ↔ isBlank c := by
  simp [isGap, h]

lemma ne_of_isBlank {d : Char} (hb : isBlank b) (hd : isBlank d = false) : b ≠ d := by
  rintro rfl
  rw [hb] at hd
  cases hd

lemma Loose.symm (h : Loose t t') : Loose t' t := by
  induction h with
  | nil => exact .nil
  | solid hc _ ih => exact .solid hc ih
  | gap hb hb' _ ih => exact .gap hb' hb ih
  | left hb hb₁ _ ih => exact .right hb hb₁ ih
  | right hb' hb₁ _ ih => exact .left hb' hb₁ ih

lemma Loose.not_mem (h : Loose t t') : '\n' ∉ t := by
  have hgap : ∀ {b : Char}, isGap b → '\n' ≠ b := by
    rintro b hb rfl
    cases hb
  induction h with
  | nil => exact not_mem_nil
  | solid hc _ ih =>
    refine not_mem_cons_of_ne_of_not_mem ?_ ih
    rintro rfl
    cases hc
  | gap hb _ _ ih => exact not_mem_cons_of_ne_of_not_mem (hgap hb) ih
  | left hb _ _ ih => exact not_mem_cons_of_ne_of_not_mem (hgap hb) ih
  | right _ _ _ ih => exact ih

lemma Loose.nil_iff (h : Loose t t') : t = [] ↔ t' = [] := by
  induction h with
  | nil => exact Iff.rfl
  | solid | gap => simp
  | left _ _ _ ih | right _ _ _ ih => simpa using ih

lemma Loose.gap_head (h : Loose (b :: r) t') (hb : isBlank b) : ∃ b' r', t' = b' :: r' ∧ isGap b' := by
  generalize ht : b :: r = t at h
  induction h generalizing b r with
  | nil => cases ht
  | solid hc =>
    cases ht
    rw [hb] at hc
    cases hc
  | gap _ hb' => exact ⟨_, _, rfl, hb'⟩
  | left _ hb₁ _ ih => exact ih (isBlank_of_isGap hb₁) rfl
  | right hb' => exact ⟨_, _, rfl, hb'⟩

lemma Loose.solid_head (h : Loose (c :: r) t') (hc : isBlank c = false) : ∃ r', t' = c :: r' ∧ Loose r r' := by
  generalize ht : c :: r = t at h
  induction h generalizing c r with
  | nil => cases ht
  | solid _ h =>
    cases ht
    exact ⟨_, rfl, h⟩
  | gap hb =>
    cases ht
    rw [isBlank_of_isGap hb] at hc
    cases hc
  | left hb =>
    cases ht
    rw [isBlank_of_isGap hb] at hc
    cases hc
  | right _ hb₁ _ ih =>
    obtain ⟨r', hr', -⟩ := ih hc ht
    cases hr'
    rw [isBlank_of_isGap hb₁] at hc
    cases hc

lemma Loose.solids_eq (h : Loose t t') : solids t = solids t' := by
  have hgap : ∀ {b : Char} (r : Text), isGap b → solids (b :: r) = solids r := by
    intro b r hb
    simp [solids, isBlank_of_isGap hb]
  induction h with
  | nil => rfl
  | solid hc _ ih =>
    rw [solids, filter_cons_of_pos (by simp [hc]), solids, filter_cons_of_pos (by simp [hc])]
    exact congrArg _ ih
  | gap hb hb' _ ih => rw [hgap _ hb, hgap _ hb', ih]
  | left hb _ _ ih => rw [hgap _ hb, ih]
  | right hb' _ _ ih => rw [hgap _ hb', ih]

lemma Loose.mem_iff (h : Loose t t') {c : Char} (hc : isBlank c = false) : c ∈ t ↔ c ∈ t' := by
  have hsolid : ∀ {u : Text}, c ∈ u ↔ c ∈ solids u := by simp [solids, hc]
  calc
    c ∈ t ↔ c ∈ solids t := hsolid
    _ ↔ c ∈ solids t' := by rw [h.solids_eq]
    _ ↔ c ∈ t' := hsolid.symm

lemma solids_eq_self (h : ∀ c ∈ x, isBlank c = false) : solids x = x := filter_eq_self.mpr fun c hc => by simp [h c hc]

lemma solids_append (t u : Text) : solids (t ++ u) = solids t ++ solids u := filter_append t u

lemma solids_flatten (ts : List Text) : solids ts.flatten = (ts.map solids).flatten := filter_flatten

lemma solids_eq_nil_iff : solids t = [] ↔ isBlankLine t := by
  rw [solids, isBlankLine_iff]
  simp

lemma solids_trim (t : Text) : solids (trim t) = solids t := by
  obtain ⟨l, r, hl, hr, ht⟩ := trim_split t
  nth_rewrite 2 [ht]
  rw [solids_append, solids_append, solids_eq_nil_iff.mpr hl, solids_eq_nil_iff.mpr hr, nil_append, append_nil]

lemma Loose.append_solid (hx : ∀ c ∈ x, isBlank c = false) (h : Loose (x ++ r) t') : ∃ r', t' = x ++ r' ∧ Loose r r' := by
  induction x generalizing t' with
  | nil => exact ⟨t', rfl, h⟩
  | cons c x ih =>
    obtain ⟨hc, hx⟩ := forall_mem_cons.mp hx
    obtain ⟨u', rfl, htail⟩ := h.solid_head hc
    obtain ⟨r', rfl, hr⟩ := ih hx htail
    exact ⟨r', rfl, hr⟩

lemma Loose.refl (h : '\n' ∉ t) : Loose t t := by
  induction t with
  | nil => exact .nil
  | cons c r ih =>
    obtain ⟨hc, hr⟩ := ne_and_not_mem_of_not_mem_cons h
    cases hblank : isBlank c with
    | false => exact .solid hblank (ih hr)
    | true =>
      have hgap := (isGap_iff (.symm hc)).mpr hblank
      exact .gap hgap hgap (ih hr)

lemma Loose.append {u u' : Text} (h : Loose t t') (hu : Loose u u') : Loose (t ++ u) (t' ++ u') := by
  induction h with
  | nil => exact hu
  | solid hc _ ih => exact .solid hc ih
  | gap hb hb' _ ih => exact .gap hb hb' ih
  | left hb hb₁ _ ih => exact .left hb hb₁ ih
  | right hb' hb₁ _ ih => exact .right hb' hb₁ ih

lemma Loose.reverse_cons {c' : Char} {held held' r' : Text} (h : Loose (held.reverse ++ c :: r) (held'.reverse ++ c' :: r')) :
    Loose ((c :: held).reverse ++ r) ((c' :: held').reverse ++ r') := by
  rwa [List.reverse_cons, append_assoc, List.reverse_cons, append_assoc]

lemma Loose.trimLeft (h : Loose t t') : Loose (trimLeft t) (trimLeft t') := by
  have hgap : ∀ {b : Char} (r : Text), isGap b → Text.trimLeft (b :: r) = .trimLeft r :=
    fun r hb => dropWhile_cons_of_pos (isBlank_of_isGap hb)
  induction h with
  | nil => exact .nil
  | @solid c r r' hc h _ =>
    have hstay : ∀ r : Text, Text.trimLeft (c :: r) = c :: r := fun r => dropWhile_cons_of_neg (by simp [hc])
    rw [hstay, hstay]
    exact .solid hc h
  | gap hb hb' _ ih => rwa [hgap _ hb, hgap _ hb']
  | left hb _ _ ih => rwa [hgap _ hb]
  | right hb' _ _ ih => rwa [hgap _ hb']

lemma trimRight_cons (c : Char) (r : Text) :
    trimRight (c :: r) = if isBlank c ∧ trimRight r = [] then [] else c :: trimRight r := by
  unfold trimRight dropRight
  rw [reverse_cons, dropWhile_append]
  by_cases hr : r.reverse.dropWhile isBlank = []
  · cases hc : isBlank c <;> simp [hr, hc]
  · simp [hr]

lemma Loose.trimRight (h : Loose t t') : Loose (trimRight t) (trimRight t') := by
  have hgap : ∀ {b : Char} (r : Text), isGap b →
      Text.trimRight (b :: r) = if Text.trimRight r = [] then [] else b :: Text.trimRight r := by
    intro b r hb
    simp only [trimRight_cons, isBlank_of_isGap hb, true_and]
  have hleft : ∀ {b b₁ : Char} {r u : Text}, isGap b → isGap b₁ → Loose (.trimRight (b₁ :: r)) u →
      Loose (.trimRight (b :: b₁ :: r)) u := by
    intro b b₁ r u hb hb₁ hloose
    rw [hgap _ hb]
    split
    next hr =>
      rwa [hr] at hloose
    next hr =>
      rw [hgap _ hb₁] at hloose hr ⊢
      split at hr
      · exact absurd rfl hr
      next hr₁ =>
        rw [if_neg hr₁] at hloose ⊢
        exact .left hb hb₁ hloose
  induction h with
  | nil => exact .nil
  | @solid c r r' hc _ ih =>
    have hstay : ∀ r : Text, Text.trimRight (c :: r) = c :: Text.trimRight r := fun r => by simp [trimRight_cons, hc]
    rw [hstay, hstay]
    exact .solid hc ih
  | @gap b b' r r' hb hb' _ ih =>
    rw [hgap _ hb, hgap _ hb']
    by_cases hr : Text.trimRight r = []
    · rw [if_pos hr, if_pos (ih.nil_iff.mp hr)]
      exact .nil
    · rw [if_neg hr, if_neg (mt ih.nil_iff.mpr hr)]
      exact .gap hb hb' ih
  | left hb hb₁ _ ih => exact hleft hb hb₁ ih
  | right hb' hb₁ _ ih => exact (hleft hb' hb₁ ih.symm).symm

lemma Loose.trim (h : Loose t t') : Loose (trim t) (trim t') := h.trimLeft.trimRight

lemma Loose.getLast_iff (h : Loose t t') {c : Char} (hc : isBlank c = false) : t.getLast? = some c ↔ t'.getLast? = some c := by
  have hgap : ∀ {b : Char}, isGap b → b ≠ c := fun hb => ne_of_isBlank (isBlank_of_isGap hb) hc
  have hcons : ∀ {d d' : Char} {r r' : Text}, Loose r r' → (d = c ↔ d' = c) → (r.getLast? = some c ↔ r'.getLast? = some c) →
      ((d :: r).getLast? = some c ↔ (d' :: r').getLast? = some c) := by
    intro d d' r r' h hd ih
    cases r with
    | nil =>
      rw [h.nil_iff.mp rfl]
      simpa using hd
    | cons e r =>
      obtain ⟨e', r', rfl⟩ := exists_cons_of_ne_nil (mt h.nil_iff.mpr (cons_ne_nil e r))
      rwa [getLast?_cons_cons]
  induction h with
  | nil => exact .rfl
  | solid _ h ih => exact hcons h .rfl ih
  | gap hb hb' h ih => exact hcons h (iff_of_false (hgap hb) (hgap hb')) ih
  | left _ _ _ ih | right _ _ _ ih => rwa [getLast?_cons_cons]

lemma Loose.any_head (h : Loose t t') {p : Char → Bool} (hp : ∀ c, isBlank c → p c = false) : t.head?.any p = t'.head?.any p := by
  cases t with
  | nil => rw [h.nil_iff.mp rfl]
  | cons c r =>
    cases hc : isBlank c with
    | false =>
      obtain ⟨r', rfl, -⟩ := h.solid_head hc
      rfl
    | true =>
      obtain ⟨b', r', rfl, hb'⟩ := h.gap_head hc
      rw [head?_cons, head?_cons, Option.any_some, Option.any_some, hp c hc, hp b' (isBlank_of_isGap hb')]

lemma Loose.head_iff (h : Loose t t') {c : Char} (hc : isBlank c = false) : t.head? = some c ↔ t'.head? = some c := by
  have himp : ∀ {t t' : Text}, Loose t t' → t.head? = some c → t'.head? = some c := by
    intro t t' h hhead
    obtain ⟨r, rfl⟩ := head?_eq_some_iff.mp hhead
    obtain ⟨r', rfl, -⟩ := h.solid_head hc
    rfl
  exact ⟨himp h, himp h.symm⟩

lemma Loose.endsWith_eq (h : Loose t t') {c : Char} (hc : isBlank c = false) : endsWith t [c] = endsWith t' [c] := by
  rw [Bool.eq_iff_iff, endsWith_iff, endsWith_iff, singleton_suffix_iff_getLast?_eq_some, singleton_suffix_iff_getLast?_eq_some]
  exact h.getLast_iff hc

lemma Loose.infix_solid {w : Text} (h : Loose t t') (hw : ∀ c ∈ w, isBlank c = false) (hne : w ≠ []) (ht : w <:+: t) :
    w <:+: t' := by
  have hgap : ∀ {b : Char} {r : Text}, isGap b → w <:+: b :: r → w <:+: r := by
    intro b r hb hr
    rcases infix_cons_iff.mp hr with hpre | hin
    · obtain ⟨c, w', rfl⟩ := exists_cons_of_ne_nil hne
      obtain ⟨rfl, -⟩ := cons_prefix_cons.mp hpre
      have := hw c mem_cons_self
      rw [isBlank_of_isGap hb] at this
      cases this
    · exact hin
  induction h with
  | nil => exact ht
  | solid hc h ih =>
    rcases infix_cons_iff.mp ht with ⟨r, hr⟩ | hin
    · have hall := solid hc h
      rw [← hr] at hall
      obtain ⟨r', hr', -⟩ := hall.append_solid hw
      exact ⟨[], r', hr'.symm⟩
    · exact infix_cons (ih hin)
  | gap hb _ _ ih => exact infix_cons (ih (hgap hb ht))
  | left hb _ _ ih => exact ih (hgap hb ht)
  | right _ _ _ ih => exact infix_cons (ih ht)

/-! ## Telling whether texts are loose -/

/-- Of a run of white space, all but the last may be left out. -/
lemma loose_run (hb : isBlank b) (hr : ¬∀ c ∈ r.head?, isBlank c = false) : Loose (b :: r) t' ↔ isGap b ∧ Loose r t' := by
  obtain ⟨b₁, r, rfl, hb₁⟩ : ∃ b₁ u, r = b₁ :: u ∧ isBlank b₁ := by
    cases r with
    | nil => simp at hr
    | cons b₁ r => exact ⟨b₁, r, rfl, by simpa using hr⟩
  refine ⟨fun h => ?_, fun ⟨hgap, h⟩ => .left hgap ((isGap_iff (ne_of_mem_of_not_mem mem_cons_self h.not_mem)).mpr hb₁) h⟩
  generalize ht : b :: b₁ :: r = t at h
  induction h with
  | nil => cases ht
  | solid hc =>
    cases ht
    rw [hb] at hc
    cases hc
  | gap hgap hb' h =>
    cases ht
    obtain ⟨b₂, r', rfl, hb₂⟩ := h.gap_head hb₁
    exact ⟨hgap, .right hb' hb₂ h⟩
  | left hgap _ h =>
    cases ht
    exact ⟨hgap, h⟩
  | right hb' hb₂ _ ih => exact (ih ht).imp_right (.right hb' hb₂)

lemma loose_gaps (hb : isGap b) {l : Text} (hl : ∀ c ∈ l, isGap c) (hne : l ≠ []) : Loose [b] l := by
  induction l with
  | nil => exact absurd rfl hne
  | cons c l ih =>
    obtain ⟨hc, hl⟩ := forall_mem_cons.mp hl
    cases l with
    | nil => exact .gap hb hc .nil
    | cons d l => exact .right hc (hl d mem_cons_self) (ih hl (cons_ne_nil d l))

lemma loose_stop (hb : isBlank b) (hr : ∀ c ∈ r.head?, isBlank c = false) :
    Loose (b :: r) t' ↔ isGap b ∧ '\n' ∉ t' ∧ t'.head?.any isBlank ∧ Loose r (trimLeft t') := by
  have hstay : trimLeft (b :: r) = r := trimLeft_append (l := [b]) (by simpa [isBlankLine] using hb) hr
  constructor
  · intro h
    obtain ⟨b', r', rfl, hb'⟩ := h.gap_head hb
    refine ⟨(isGap_iff (ne_of_mem_of_not_mem mem_cons_self h.not_mem)).mpr hb, h.symm.not_mem, isBlank_of_isGap hb', ?_⟩
    have hleft := h.trimLeft
    rwa [hstay] at hleft
  · rintro ⟨hgap, hfeed, hhead, h⟩
    obtain ⟨l, hl, ht⟩ := trimLeft_split t'
    have hgaps : ∀ c ∈ l, isGap c := fun c hc =>
      (isGap_iff (ne_of_mem_of_not_mem (ht ▸ mem_append_left _ hc) hfeed)).mpr (isBlankLine_iff.mp hl c hc)
    have hne : l ≠ [] := by
      rintro rfl
      rw [nil_append] at ht
      obtain ⟨c, hc, hblank⟩ := (Option.any_eq_true _ _).mp hhead
      rw [ht] at hc
      rw [trimLeft_head hc] at hblank
      cases hblank
    rw [ht]
    exact (loose_gaps hgap hgaps hne).append h

lemma loose_solid {c' : Char} {r' : Text} (hc : isBlank c = false) : Loose (c :: r) (c' :: r') ↔ c = c' ∧ Loose r r' := by
  refine ⟨fun h => ?_, fun ⟨heq, h⟩ => heq ▸ .solid hc h⟩
  obtain ⟨u, hu, h⟩ := h.solid_head hc
  cases hu
  exact ⟨rfl, h⟩

instance decidableLoose : (t t' : Text) → Decidable (Loose t t')
  | [], t' => decidable_of_iff (t' = []) ⟨fun h => h ▸ .nil, fun h => h.nil_iff.mp rfl⟩
  | c :: r, t' =>
    if hc : isBlank c then
      have := decidableLoose r t'
      have := decidableLoose r (trimLeft t')
      if hr : ∀ d ∈ r.head?, isBlank d = false then decidable_of_iff _ (loose_stop hc hr).symm
      else decidable_of_iff _ (loose_run hc hr).symm
    else
      match t' with
      | [] => .isFalse fun h => by cases h.nil_iff.mpr rfl
      | c' :: r' =>
        have := decidableLoose r r'
        decidable_of_iff _ (loose_solid (Bool.eq_false_iff.mpr hc)).symm

end FunctionDocs.Text
