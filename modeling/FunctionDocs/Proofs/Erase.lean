import FunctionDocs.Proofs.Pattern
import FunctionDocs.Proofs.Text

/-!
# The texts around matches

Where a pattern is searched for in a text, everything that is kept of the text comes from the text: the named parts of a match,
the text before the leftmost match and the texts between all matches. A text without its matches is computed by one pass, in
which a match is only known by its length.
-/

open List

namespace FunctionDocs.Pattern

variable {m : Match} {n : Nat} {p : Pattern} {s : Place} {t : Text}

/-! ## Gaps -/

lemma searchFrom_before : ∀ {seen : Text} {s : Place}, p.searchFrom seen t s = some m → m.before <+: seen.reverse ++ t := by
  induction t with
  | nil =>
    intro seen s h
    obtain ⟨m', -, rfl⟩ := Option.map_eq_some_iff.mp h
    exact prefix_append _ _
  | cons c r ih =>
    intro seen s h
    simp only [searchFrom] at h
    split at h
    · cases h
      exact prefix_append _ _
    · simpa using ih h

lemma search_before (h : p.search? t = some m) : m.before <+: t := searchFrom_before h

def gapsFrom (p : Pattern) (skip : Nat) (gap t : Text) (s : Place) : List Text :=
  (p.matchesFrom skip gap t s).1.map (·.1) ++ [(p.matchesFrom skip gap t s).2]

lemma split_eq_gapsFrom (p : Pattern) (t : Text) : p.split t = p.gapsFrom 0 [] t ⟨none, 0, t, []⟩ := rfl

lemma erase_eq_flatten (p : Pattern) (t : Text) : p.erase t = (p.split t).flatten := by
  simp [erase, replace, split]

/-- The text without the matches from a place on, where `skip` characters still belong to a match. -/
def eraseFrom (p : Pattern) : Nat → Text → Place → Text
  | _, [], _ => []
  | skip + 1, c :: r, s => p.eraseFrom skip r (s.step c r)
  | 0, c :: r, s =>
    match p.matchAt? s with
    | some m =>
      if m.text.isEmpty then c :: p.eraseFrom 0 r (s.step c r)
      else p.eraseFrom (m.text.length - 1) r (s.step c r)
    | none => c :: p.eraseFrom 0 r (s.step c r)

lemma flatten_gapsFrom (p : Pattern) (t : Text) :
    ∀ (skip : Nat) (gap : Text) (s : Place), (p.gapsFrom skip gap t s).flatten = gap.reverse ++ p.eraseFrom skip t s := by
  induction t with
  | nil => intro skip gap s; simp [gapsFrom, matchesFrom, eraseFrom]
  | cons c r ih =>
    intro skip gap s
    cases skip with
    | succ skip => simpa [gapsFrom, matchesFrom, eraseFrom] using ih skip gap (s.step c r)
    | zero =>
      cases hm : p.matchAt? s with
      | none => simpa [gapsFrom, matchesFrom, eraseFrom, hm] using ih 0 (c :: gap) (s.step c r)
      | some m =>
        by_cases he : m.text.isEmpty
        · simpa [gapsFrom, matchesFrom, eraseFrom, hm, he] using ih 0 (c :: gap) (s.step c r)
        · simpa [gapsFrom, matchesFrom, eraseFrom, hm, he] using ih (m.text.length - 1) [] (s.step c r)

lemma erase_eq_eraseFrom (p : Pattern) (t : Text) : p.erase t = p.eraseFrom 0 t ⟨none, 0, t, []⟩ := by
  rw [erase_eq_flatten, split_eq_gapsFrom, flatten_gapsFrom]
  rfl

lemma eraseFrom_subset (p : Pattern) (t : Text) : ∀ (skip : Nat) (s : Place), p.eraseFrom skip t s ⊆ t := by
  induction t with
  | nil => intro skip s; simp [eraseFrom]
  | cons c r ih =>
    intro skip s
    cases skip with
    | succ skip => exact subset_cons_of_subset c (ih skip _)
    | zero =>
      simp only [eraseFrom]
      split
      · split
        · exact cons_subset_cons c (ih 0 _)
        · exact subset_cons_of_subset c (ih _ _)
      · exact cons_subset_cons c (ih 0 _)

lemma erase_subset (p : Pattern) (t : Text) : p.erase t ⊆ t := by
  rw [erase_eq_eraseFrom]
  exact eraseFrom_subset p t 0 _

lemma mem_split {u : Text} (h : u ∈ p.split t) : u ⊆ t := by
  intro c hc
  have hf : c ∈ (p.split t).flatten := mem_flatten_of_mem h hc
  rw [← erase_eq_flatten] at hf
  exact erase_subset p t hf

/-! ## Matches of known length -/

/-- A text without the stretches of which `size` tells the length, after `skip` more characters. -/
def eraseSized (size : Text → Option Nat) : Nat → Text → Text
  | _, [] => []
  | skip + 1, _ :: r => eraseSized size skip r
  | 0, c :: r =>
    match size (c :: r) with
    | some (n + 1) => eraseSized size n r
    | _ => c :: eraseSized size 0 r

/-- The length of a match depends on the text from its place on only. -/
def Measured (p : Pattern) (size : Text → Option Nat) : Prop :=
  ∀ s : Place, (p.matchAt? s).map (·.text.length) = size s.rest

lemma Measured.eraseFrom_eq {size : Text → Option Nat} (h : p.Measured size) (t : Text) :
    ∀ (skip : Nat) (s : Place), s.rest = t → p.eraseFrom skip t s = eraseSized size skip t := by
  induction t with
  | nil => intro skip s _; rfl
  | cons c r ih =>
    intro skip s hs
    cases skip with
    | succ skip => exact ih skip _ rfl
    | zero =>
      have hsize := h s
      rw [hs] at hsize
      simp only [eraseFrom, eraseSized, ← hsize]
      cases hm : p.matchAt? s with
      | none => exact congrArg (c :: ·) (ih 0 _ rfl)
      | some m =>
        cases hl : m.text with
        | nil => simpa [hl] using ih 0 _ rfl
        | cons d u => simpa [hl] using ih u.length _ rfl

lemma Measured.erase_eq {size : Text → Option Nat} (h : p.Measured size) (t : Text) : p.erase t = eraseSized size 0 t := by
  rw [erase_eq_eraseFrom]
  exact h.eraseFrom_eq t 0 _ rfl

lemma manyFrom_eq {p : Char → Bool} {next : Next} :
    ∀ {t : Text} {least : Nat} {s : Place}, s.rest = t →
      (∀ j < (t.takeWhile p).length, next (s.skip (t.takeWhile p).length) = none → next (s.skip j) = none) →
        manyFrom p next t least s =
          if least ≤ (t.takeWhile p).length then next (s.skip (t.takeWhile p).length) else none := by
  intro t
  induction t with
  | nil =>
    simp [manyFrom, Place.skip]
  | cons c r ih =>
    intro least s hs hnext
    by_cases hc : p c
    · rw [takeWhile_cons_of_pos hc, length_cons] at hnext ⊢
      have ih := @ih (least - 1) (s.step c r) rfl fun j hj hn => by
        rw [← Place.skip_succ_of_rest hs] at hn ⊢
        exact hnext (j + 1) (by omega) hn
      rw [manyFrom, if_pos hc, ih, Place.skip_succ_of_rest hs]
      have hlast := hnext 0 (by omega)
      rw [Place.skip_succ_of_rest hs] at hlast
      by_cases hl : least ≤ (r.takeWhile p).length + 1
      · rw [if_pos hl, if_pos (by omega)]
        cases hn : next ((s.step c r).skip (r.takeWhile p).length) with
        | some e => rfl
        | none =>
          have h0 : next s = none := hlast hn
          simp [h0]
      · rw [if_neg hl, if_neg (by omega)]
        simp [show least ≠ 0 by omega]
    · simp [manyFrom, hc, Place.skip]

end FunctionDocs.Pattern
