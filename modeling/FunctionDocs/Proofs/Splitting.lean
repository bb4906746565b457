import FunctionDocs.Proofs.Params

/-!
# Splitting undoes joining

Parameters written one after the other, with a comma and a blank between them, are split into the same parameters again. A
parameter that closes all the brackets it opens leaves the depths as they were, so the comma behind it is the first one at which
the list is split.
-/

namespace FunctionDocs.DocBlock

open Text

/-! ## Depths -/

def Depths.after (d : Depths) (t : Text) : Depths := t.foldl Depths.step d

lemma Depths.after_cons (d : Depths) (c : Char) (t : Text) : d.after (c :: t) = (d.step c).after t := rfl

/-- A text opens as many brackets of a kind as it closes. -/
def Paired (t : Text) : Prop := t.count '<' = t.count '>' ∧ t.count '(' = t.count ')' ∧ t.count '[' = t.count ']'
  deriving Decidable

lemma Depths.step_eq (d : Depths) (c : Char) :
    d.step c = ⟨d.angle + ([c].count '<' - [c].count '>' : Int), d.round + ([c].count '(' - [c].count ')' : Int),
      d.square + ([c].count '[' - [c].count ']' : Int)⟩ := by
  unfold step
  repeat' split
  all_goals simp_all [Int.sub_eq_add_neg]

lemma Depths.after_eq (d : Depths) (t : Text) :
    d.after t = ⟨d.angle + (t.count '<' - t.count '>' : Int), d.round + (t.count '(' - t.count ')' : Int),
      d.square + (t.count '[' - t.count ']' : Int)⟩ := by
  induction t generalizing d with
  | nil => simp [after]
  | cons c t ih =>
    have hcount : ∀ x, (c :: t).count x = [c].count x + t.count x := fun x => (List.count_append : ([c] ++ t).count x = _)
    rw [after_cons, ih, step_eq]
    simp only [hcount, mk.injEq]
    omega

lemma Depths.isFlat_after_iff (t : Text) : (({} : Depths).after t).isFlat ↔ Paired t := by
  rw [after_eq, isFlat, Paired]
  simp only [Bool.and_eq_true, beq_iff_eq]
  omega

lemma Depths.after_paired {t : Text} (h : Paired t) : ({} : Depths).after t = {} := by
  obtain ⟨hangle, hround, hsquare⟩ := h
  rw [after_eq, hangle, hround, hsquare]
  simp

/-! ## Parameters -/

/-- A parameter that can stand in a list: it closes the brackets it opens, and its own commas stand within brackets. -/
structure Whole (p : Text) : Prop where
  trimmed : Trimmed p
  nonempty : p ≠ []
  paired : Paired p
  commas : ∀ i < p.length, p[i]? = some ',' → ¬Paired (p.take i)

instance (p : Text) : Decidable (Whole p) :=
  decidable_of_iff (trim p = p ∧ p ≠ [] ∧ Paired p ∧ ∀ i < p.length, p[i]? = some ',' → ¬Paired (p.take i))
    ⟨fun ⟨h₁, h₂, h₃, h₄⟩ => ⟨h₁ ▸ trimmed_trim p, h₂, h₃, h₄⟩, fun h => ⟨h.trimmed.trim_eq, h.nonempty, h.paired, h.commas⟩⟩

lemma Whole.comma {p a b : Text} (h : Whole p) (hp : p = a ++ ',' :: b) : ¬Paired a := by
  have hcomma := h.commas a.length (by simp [hp]) (by simp [hp])
  rwa [hp, List.take_left] at hcomma

lemma splitParamsFrom_append {d : Depths} {current p : Text} (r : Text)
    (h : ∀ a b, p = a ++ ',' :: b → (d.after a).isFlat = false) :
    splitParamsFrom d current (p ++ r) = splitParamsFrom (d.after p) (p.reverse ++ current) r := by
  induction p generalizing d current with
  | nil => rfl
  | cons c p ih =>
    have hc : (c == ',' && d.isFlat) = false := by
      by_cases hcomma : c = ','
      · have hflat : d.isFlat = false := h [] p (by rw [hcomma]; rfl)
        rw [hflat, Bool.and_false]
      · simp [hcomma]
    have hrest : ∀ a b, p = a ++ ',' :: b → ((d.step c).after a).isFlat = false := by
      intro a b hp
      exact h (c :: a) b (by rw [hp]; rfl)
    rw [List.cons_append, splitParamsFrom, hc, ih hrest, Depths.after_cons, List.reverse_cons, List.append_assoc]
    rfl

lemma Whole.splitParamsFrom {p : Text} (h : Whole p) (blank r : Text) :
    splitParamsFrom {} blank (p ++ r) = splitParamsFrom {} (p.reverse ++ blank) r := by
  have hcommas : ∀ a b, p = a ++ ',' :: b → (({} : Depths).after a).isFlat = false := by
    intro a b hp
    rw [← Bool.not_eq_true, Depths.isFlat_after_iff]
    exact h.comma hp
  rw [splitParamsFrom_append r hcommas, Depths.after_paired h.paired]

lemma Whole.trim {p blank : Text} (h : Whole p) (hblank : isBlankLine blank) : trim (p.reverse ++ blank).reverse = p := by
  rw [List.reverse_append, List.reverse_reverse, trim_blank_append (by rwa [isBlankLine_reverse]), h.trimmed.trim_eq]

/-- A joined list behind white space is split into its parameters: the comma behind the first one ends it, and the blank behind the
comma is the white space in front of the next. -/
lemma splitParamsFrom_joinWith {p : Text} {ps : List Text} (h : ∀ q ∈ p :: ps, Whole q) {blank : Text}
    (hblank : isBlankLine blank) : splitParamsFrom {} blank (joinWith ", " (p :: ps)) = p :: ps := by
  induction ps generalizing p blank with
  | nil =>
    have hp := h p List.mem_cons_self
    have hend := hp.splitParamsFrom blank []
    rw [List.append_nil] at hend
    rw [joinWith, hend, splitParamsFrom, hp.trim hblank]
    simp [hp.nonempty]
  | cons q qs ih =>
    obtain ⟨hp, hqs⟩ := List.forall_mem_cons.mp h
    have hjoin : joinWith ", " (p :: q :: qs) = p ++ ',' :: ' ' :: joinWith ", " (q :: qs) := by
      rw [joinWith, List.append_assoc]
      rfl
    have hblanks : ∀ r, splitParamsFrom {} [] (' ' :: r) = splitParamsFrom {} [' '] r := fun _ => rfl
    rw [hjoin, hp.splitParamsFrom blank, splitParamsFrom, if_pos (by decide), hp.trim hblank, hblanks, ih hqs rfl]

/-- Splitting a joined list gives the list. -/
theorem splitParams_joinWith {ps : List Text} (h : ∀ p ∈ ps, Whole p) : splitParams (joinWith ", " ps) = ps := by
  cases ps with
  | nil => rfl
  | cons p ps => exact splitParamsFrom_joinWith h rfl

/-- Parameters with commas in brackets of all three kinds, and a closing bracket before its opening one. -/
def bracketedParams : List Text :=
  ["std::map<int, std::vector<char>> table", "int (*compare)(int, int)", "int cells[size(2, 3)]", "bool less = a > b, c < d"]

theorem bracketedParams_joinWith :
    (∀ p ∈ bracketedParams, Whole p) ∧ splitParams (joinWith ", " bracketedParams) = bracketedParams := by
  have hwhole : ∀ p ∈ bracketedParams, Whole p := by decide
  exact ⟨hwhole, splitParams_joinWith hwhole⟩

end FunctionDocs.DocBlock
