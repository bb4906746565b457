import FunctionDocs.Proofs.Code

/-!
# Edits and the code of lines

An edit shrinks the code if it adds none. A row of edits shrinks the code if each does, and keeps it exactly if each keeps it:
what one edit took away no other one brings back. The edits considered here change lines that begin and end outside of block
comments.
-/

namespace FunctionDocs

/-! ## Steps that may fail -/

/-- What a step gives, if it gives anything, has a property. -/
def Then {α : Type} (x : Except Failure α) (P : α → Prop) : Prop :=
  match x with
  | .ok a => P a
  | .error _ => True

instance {α : Type} (x : Except Failure α) (P : α → Prop) [DecidablePred P] : Decidable (Then x P) :=
  match x with
  | .ok a => inferInstanceAs (Decidable (P a))
  | .error _ => inferInstanceAs (Decidable True)

lemma Then.of_ok {α : Type} {x : Except Failure α} {P : α → Prop} {a : α} (hx : x = .ok a) : Then x P ↔ P a := by
  rw [hx]
  rfl

lemma mem_of_mapM_ok {α β : Type} {f : α → Except Failure β} {xs : List α} {ys : List β} (h : xs.mapM f = .ok ys) :
    ∀ y ∈ ys, ∃ x ∈ xs, f x = .ok y := by
  induction xs generalizing ys with
  | nil =>
    cases h
    simp
  | cons x xs ih =>
    rw [List.mapM_cons] at h
    obtain ⟨y, hy, h⟩ := ok_of_bind_ok h
    obtain ⟨zs, hzs, h⟩ := ok_of_bind_ok h
    cases h
    intro z hz
    rcases List.mem_cons.mp hz with rfl | hz
    · exact ⟨x, List.mem_cons_self, hy⟩
    · obtain ⟨w, hw, hfw⟩ := ih hzs z hz
      exact ⟨w, List.mem_cons_of_mem _ hw, hfw⟩

variable {σ α : Type}

/-- A property holds at every step of a run that takes items one after the other. -/
def Each (step : σ → α → Except Failure σ) (P : σ → α → Prop) (s : σ) : List α → Prop
  | [] => True
  | a :: as => P s a ∧ Then (step s a) fun s' => Each step P s' as

instance decidableEach (step : σ → α → Except Failure σ) (P : σ → α → Prop) [∀ s a, Decidable (P s a)] (s : σ) :
    ∀ as, Decidable (Each step P s as)
  | [] => inferInstanceAs (Decidable True)
  | a :: as =>
    have : ∀ s', Decidable (Each step P s' as) := fun s' => decidableEach step P s' as
    inferInstanceAs (Decidable (P s a ∧ Then (step s a) fun s' => Each step P s' as))

namespace Code

open Text

/-! ## One edit -/

/-- The lines end outside of block comments. -/
def Outside (ls : List Text) : Prop := (scanLines .plain ls).2 = .plain
  deriving Decidable

/-- The lines hold no code and end outside of block comments. -/
def Silent (ls : List Text) : Prop := scanLines .plain ls = ([], .plain)

lemma Silent.append {ls ms : List Text} (hls : Silent ls) (hms : Silent ms) : Silent (ls ++ ms) := by
  unfold Silent at *
  rw [scanLines_append, hls, hms]
  rfl

lemma silent_blank {ls : List Text} (h : ∀ l ∈ ls, isBlankLine l) : Silent ls := scanLines_blank (Or.inl rfl) h

/-- The text does not close a block comment. -/
def NoClose (t : Text) : Prop := contains t "*/" = false
  deriving Decidable

lemma NoClose.not_mem {t u : Text} (h : NoClose t) (hu : u <:+: t) : ¬"*/" <:+: u :=
  fun hi => contains_eq_false_iff.mp h (hi.trans hu)

/-- An edit adds no code, and takes none away exactly if a condition holds; no line has a line end in it. -/
structure Shrinks (clean : Prop) (ls ls' : List Text) : Prop where
  code : (scanLines .plain ls').1.Sublist (scanLines .plain ls).1
  kept : (scanLines .plain ls').1 = (scanLines .plain ls).1 ↔ clean
  flat : ∀ l ∈ ls', Flat l

lemma Shrinks.refl {ls : List Text} (h : ∀ l ∈ ls, Flat l) : Shrinks True ls ls := ⟨List.Sublist.refl _, iff_true_intro rfl, h⟩

lemma Shrinks.trans {p q : Prop} {a b c : List Text} (hab : Shrinks p a b) (hbc : Shrinks q b c) : Shrinks (p ∧ q) a c := by
  refine ⟨hbc.code.trans hab.code, ⟨fun hac => ?_, fun ⟨hp, hq⟩ => ?_⟩, hbc.flat⟩
  · have hba : (scanLines .plain b).1 = (scanLines .plain a).1 := hab.code.eq_of_length_le (by rw [← hac]; exact hbc.code.length_le)
    exact ⟨hab.kept.mp hba, hbc.kept.mp (hac.trans hba.symm)⟩
  · exact (hbc.kept.mpr hq).trans (hab.kept.mpr hp)

lemma Shrinks.congr {p q : Prop} {ls ls' : List Text} (h : Shrinks p ls ls') (hpq : p ↔ q) : Shrinks q ls ls' :=
  ⟨h.code, h.kept.trans hpq, h.flat⟩

lemma shrinks_middle {a b b' c : List Text} (ha : Outside a) (hmode : (scanLines .plain b').2 = (scanLines .plain b).2)
    (hcode : (scanLines .plain b').1.Sublist (scanLines .plain b).1) (hflat : ∀ l ∈ a ++ b' ++ c, Flat l) :
    Shrinks ((scanLines .plain b').1 = (scanLines .plain b).1) (a ++ b ++ c) (a ++ b' ++ c) := by
  have hscan : ∀ m : List Text, (scanLines .plain (a ++ m ++ c)).1 =
      (scanLines .plain a).1 ++ (scanLines .plain m).1 ++ (scanLines (scanLines .plain m).2 c).1 := by
    intro m
    rw [scanLines_append, scanLines_append, ha]
  refine ⟨?_, ?_, hflat⟩
  · rw [hscan, hscan, hmode]
    exact ((List.Sublist.refl _).append hcode).append_right _
  · rw [hscan, hscan, hmode, List.append_cancel_right_eq, List.append_cancel_left_eq]

lemma shrinks_silent {a b b' c : List Text} (ha : Outside a) (hb : Silent b) (hb' : Silent b')
    (hflat : ∀ l ∈ a ++ b' ++ c, Flat l) : Shrinks True (a ++ b ++ c) (a ++ b' ++ c) := by
  have hsame : scanLines .plain b' = scanLines .plain b := hb'.trans hb.symm
  exact (shrinks_middle ha (by rw [hsame]) (by rw [hsame]) hflat).congr (iff_true_intro (by rw [hsame]))

/-! ## Runs of edits -/

lemma shrinks_run {step : List Text → α → Except Failure (List Text)} {placed clean : List Text → α → Prop} {as : List α}
    (hstep : ∀ a ∈ as, ∀ ls ls', (∀ l ∈ ls, Flat l) → placed ls a → step ls a = .ok ls' → Shrinks (clean ls a) ls ls')
    {ls ls' : List Text} (hflat : ∀ l ∈ ls, Flat l) (hplaced : Each step placed ls as) (h : as.foldlM step ls = .ok ls') :
    Shrinks (Each step clean ls as) ls ls' := by
  induction as generalizing ls with
  | nil =>
    cases h
    exact .refl hflat
  | cons a as ih =>
    obtain ⟨mid, hmid, hrest⟩ := ok_of_bind_ok h
    have hfirst := hstep a List.mem_cons_self ls mid hflat hplaced.1 hmid
    have hnext := ih (fun b hb => hstep b (List.mem_cons_of_mem _ hb)) hfirst.flat ((Then.of_ok hmid).mp hplaced.2) hrest
    have hafter : (Then (step ls a) fun s' => Each step clean s' as) ↔ Each step clean mid as := Then.of_ok hmid
    exact (hfirst.trans hnext).congr (and_congr_right fun _ => hafter.symm)

end Code

end FunctionDocs
