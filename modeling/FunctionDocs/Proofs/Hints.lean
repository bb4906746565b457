import FunctionDocs.Proofs.Erase
import FunctionDocs.Proofs.Layout

/-!
# Hints

The hints that a parameter's line may end with, and what taking them out does to a text. A hint is known by its length, which
the text from its first blank on decides. No hint begins with a blank and a star, so the margins of a hanging text stay.
-/

namespace FunctionDocs

lemma Text.drop_takeWhile (p : Char → Bool) (t : Text) : t.drop (t.takeWhile p).length = t.dropWhile p := by
  nth_rewrite 2 [← List.takeWhile_append_dropWhile (l := t)]
  exact List.drop_left

namespace DocBlock

open Text Pattern

variable {t : Text} {size : Text → Option Nat} {c : Char}

/-! ## The length of a hint -/

def defaultHintLength (t : Text) : Option Nat :=
  if startsWith t defaultHint && 1 ≤ ((t.drop defaultHint.length).takeWhile (· != '(')).length then
    some (defaultHint.length + ((t.drop defaultHint.length).takeWhile (· != '(')).length)
  else none

def pointerHintLength (t : Text) : Option Nat :=
  if startsWith t pointerHint && 1 ≤ ((t.drop pointerHint.length).takeWhile (· != ')')).length &&
      !((t.drop pointerHint.length).dropWhile (· != ')')).isEmpty then
    some (pointerHint.length + ((t.drop pointerHint.length).takeWhile (· != ')')).length + 1)
  else none

lemma length_takeWhile_le (p : Char → Bool) (t : Text) : (t.takeWhile p).length ≤ t.length := ( List.takeWhile_prefix p).length_le

lemma measured_defaultHint : defaultHintPattern.Measured defaultHintLength := by
  intro s
  have hrun : defaultHintPattern.run some s =
      if startsWith s.rest defaultHint then
        manyFrom (· != '(') some (s.rest.drop defaultHint.length) 1 (s.skip defaultHint.length)
      else none := by
    simp only [defaultHintPattern, run, Place.rest_skip]
    rfl
  rw [matchAt?, hrun, defaultHintLength]
  cases hh : startsWith s.rest defaultHint with
  | false => rfl
  | true =>
    rw [if_pos rfl, manyFrom_eq (Place.rest_skip _ s) (fun j _ h => by cases h), Place.skip_skip]
    have hlen : defaultHint.length + ((s.rest.drop defaultHint.length).takeWhile (· != '(')).length ≤ s.rest.length := by
      have h₁ := length_takeWhile_le (· != '(') (s.rest.drop defaultHint.length)
      have h₂ := (startsWith_iff.mp hh).length_le
      rw [List.length_drop] at h₁
      omega
    split
    next hk =>
      simp [hk, Place.length_since_skip hlen]
    next hk =>
      simp [hk]

lemma measured_pointerHint : pointerHintPattern.Measured pointerHintLength := by
  intro s
  have hrun : pointerHintPattern.run some s =
      if startsWith s.rest pointerHint then
        manyFrom (· != ')') (fun e => if startsWith e.rest ")" then some (e.skip 1) else none)
          (s.rest.drop pointerHint.length) 1 (s.skip pointerHint.length)
      else none := by
    simp only [pointerHintPattern, all, run, Place.rest_skip]
    rfl
  rw [matchAt?, hrun, pointerHintLength]
  cases hh : startsWith s.rest pointerHint with
  | false => rfl
  | true =>
    rw [if_pos rfl]
    generalize hbody : s.rest.drop pointerHint.length = body
    -- What follows refuses every place before the closing parenthesis.
    have hrefuse : ∀ j < (body.takeWhile (· != ')')).length, ¬startsWith ((s.skip pointerHint.length).skip j).rest ")" := by
      intro j hj
      rw [Place.rest_skip, Place.rest_skip, hbody, startsWith_iff]
      rintro ⟨r, hr⟩
      have hlt : j < body.length := Nat.lt_of_lt_of_le hj (length_takeWhile_le _ _)
      have hget : body[j] = ')' := by
        have h0 := congrArg List.head? hr
        rw [List.head?_drop, List.getElem?_eq_getElem hlt] at h0
        exact (Option.some.inj h0).symm
      have hq : (body.takeWhile (· != ')'))[j] = body[j] := ( List.takeWhile_prefix _).getElem hj
      have hmem := List.mem_takeWhile_imp (List.getElem_mem hj)
      rw [hq, hget] at hmem
      exact absurd hmem (by decide)
    rw [manyFrom_eq (by rw [Place.rest_skip, hbody]) (fun j hj _ => if_neg (hrefuse j hj)), Place.skip_skip,
      Place.rest_skip, ← List.drop_drop, hbody, drop_takeWhile]
    have hhead : startsWith (body.dropWhile (· != ')')) ")" = !(body.dropWhile (· != ')')).isEmpty := by
      cases hd : body.dropWhile (· != ')') with
      | nil => rfl
      | cons c r =>
        have := List.head?_dropWhile_not (· != ')') body
        rw [hd] at this
        have hc : c = ')' := by simpa using this
        rw [hc]
        rfl
    rw [hhead]
    by_cases hk : 1 ≤ (body.takeWhile (· != ')')).length
    · by_cases hd : (body.dropWhile (· != ')')).isEmpty
      · simp [hk, hd]
      · have hlen : pointerHint.length + (body.takeWhile (· != ')')).length + 1 ≤ s.rest.length := by
          have h₃ : (body.takeWhile (· != ')')).length + (body.dropWhile (· != ')')).length = body.length := by
            rw [← List.length_append, List.takeWhile_append_dropWhile]
          have h₄ : 0 < (body.dropWhile (· != ')')).length := by
            rw [List.length_pos_iff]
            simpa using hd
          have h₅ : body.length = s.rest.length - pointerHint.length := by rw [← hbody, List.length_drop]
          omega
        simp [hk, hd, Place.skip_skip, Place.length_since_skip hlen]
    · simp [hk]

lemma dropHints_eq (t : Text) : dropHints t = trimRight (eraseSized pointerHintLength 0 (eraseSized defaultHintLength 0 t)) := by
  rw [dropHints, measured_defaultHint.erase_eq, measured_pointerHint.erase_eq]

/-! ## Margins stay -/

lemma eraseSized_split {a b : Text} {skip : Nat}
    (h : eraseSized size skip t = a ++ c :: b) : ∃ a' b', t = a' ++ c :: b' ∧ b = eraseSized size 0 b' := by
  fun_induction eraseSized size skip t generalizing a with
  | case1 => simp at h
  | case2 skip d r ih =>
    obtain ⟨a', b', hr, hb⟩ := ih h
    exact ⟨d :: a', b', by rw [hr]; rfl, hb⟩
  | case3 d r n hn ih =>
    obtain ⟨a', b', hr, hb⟩ := ih h
    exact ⟨d :: a', b', by rw [hr]; rfl, hb⟩
  | case4 d r hn ih =>
    cases a with
    | nil =>
      cases h
      exact ⟨[], r, rfl, rfl⟩
    | cons x a =>
      obtain ⟨-, h⟩ := List.cons.inj h
      obtain ⟨a', b', hr, hb⟩ := ih h
      exact ⟨d :: a', b', by rw [hr]; rfl, hb⟩

/-- Every stretch with a length begins with a blank that no star follows. -/
def AvoidsMargin (size : Text → Option Nat) : Prop :=
  ∀ t n, size t = some n → ∃ d r, t = ' ' :: d :: r ∧ d ≠ '*'

lemma avoidsMargin_defaultHint : AvoidsMargin defaultHintLength := by
  intro t n h
  rw [defaultHintLength] at h
  split at h
  next hc =>
    rw [Bool.and_eq_true, startsWith_iff] at hc
    obtain ⟨r, rfl⟩ := hc.1
    exact ⟨'–', _, rfl, by decide⟩
  · cases h

lemma avoidsMargin_pointerHint : AvoidsMargin pointerHintLength := by
  intro t n h
  rw [pointerHintLength] at h
  split at h
  next hc =>
    rw [Bool.and_eq_true, Bool.and_eq_true, startsWith_iff] at hc
    obtain ⟨r, rfl⟩ := hc.1.1
    exact ⟨'(', _, rfl, by decide⟩
  · cases h

lemma eraseSized_cons {r : Text} (h : size (c :: r) = none) : eraseSized size 0 (c :: r) = c :: eraseSized size 0 r := by
  rw [eraseSized, h]

lemma AvoidsMargin.keeps (h : AvoidsMargin size) (r : Text) :
    eraseSized size 0 (' ' :: '*' :: r) = ' ' :: '*' :: eraseSized size 0 r := by
  have hnone : ∀ t, (∀ d u, t = ' ' :: d :: u → d = '*') → size t = none := by
    intro t ht
    cases hs : size t with
    | none => rfl
    | some n =>
      obtain ⟨d, u, htu, hd⟩ := h t n hs
      exact absurd (ht d u htu) hd
  rw [eraseSized_cons (hnone _ (by rintro d u ⟨⟩; rfl)), eraseSized_cons (hnone _ (by rintro d u ⟨⟩))]

lemma AvoidsMargin.hanging (h : AvoidsMargin size) {t : Text} (ht : Hanging t) : Hanging (eraseSized size 0 t) := by
  intro a b hab
  obtain ⟨a', b', rfl, rfl⟩ := eraseSized_split hab
  obtain ⟨u, rfl⟩ := ht a' b' rfl
  exact ⟨eraseSized size 0 u, (h.keeps u).symm⟩

lemma dropHints_hanging (h : Hanging t) : Hanging (dropHints t) := by
  rw [dropHints_eq]
  exact (avoidsMargin_pointerHint.hanging (avoidsMargin_defaultHint.hanging h)).trimRight

lemma dropHints_margin (h : [' ', '*'] <+: t) : [' ', '*'] <+: dropHints t := by
  obtain ⟨u, rfl⟩ := h
  change [' ', '*'] <+: dropHints (' ' :: '*' :: u)
  rw [dropHints_eq, avoidsMargin_defaultHint.keeps, avoidsMargin_pointerHint.keeps]
  exact ⟨_, (trimRight_append_of_last (t := [' ', '*']) (by decide) _).symm⟩

lemma dropHints_subset (t : Text) : dropHints t ⊆ t :=
  List.Subset.trans (trimRight_subset _) (List.Subset.trans (erase_subset _ _) (erase_subset _ _))

end DocBlock

end FunctionDocs
