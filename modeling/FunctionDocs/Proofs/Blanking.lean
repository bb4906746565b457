import FunctionDocs.Proofs.Code

/-!
# Texts without their block comments

Blanking a text puts a blank in place of every character of its block comments and keeps the line ends. The text keeps its length
and its lines.
-/

namespace FunctionDocs.Code

open Text

variable {c : Char}

def blankChar (c : Char) : Char := if isLineEnd c then c else ' '

/-- What stands in place of a character, where a slash waits for the character behind it. -/
def Mode.blank : Mode → Char → Text
  | .plain, c => if c == '/' then [] else [c]
  | .slash, c => if c == '*' then [' ', ' '] else ['/', c]
  | .block, c => [blankChar c]
  | .star, c => [blankChar c]
  | _, c => [c]

def blankFrom (m : Mode) : Text → Text
  | [] => m.flush
  | c :: t => m.blank c ++ blankFrom (m.step c).2 t

def blankComments (t : Text) : Text := blankFrom .plain t

/-- A character in place of another: the same one, or one that ends no line in place of another such. -/
def Stands (c c' : Char) : Prop := c' = c ∨ (isLineEnd c = false ∧ isLineEnd c' = false)

lemma stands_blankChar (c : Char) : Stands c (blankChar c) := by
  unfold blankChar
  split
  · exact .inl rfl
  next hc =>
    exact .inr ⟨Bool.eq_false_iff.mpr hc, rfl⟩

lemma stands_refl (t : Text) : List.Forall₂ Stands t t := List.forall₂_same.mpr fun _ _ => .inl rfl

lemma Mode.step_slash {m : Mode} (h : (m.step c).2 = .slash) : m = .plain ∧ c = '/' := by
  cases m <;> (simp only [step] at h; split_ifs at h <;> simp_all)

/-- One character of the scan: what is replaced by now, with the slash that still waits. -/
lemma Mode.blank_stands (m : Mode) (c : Char) :
    ∃ x, m.flush ++ [c] = x ++ (m.step c).2.flush ∧ List.Forall₂ Stands x (m.blank c) := by
  by_cases hslash : (m.step c).2 = .slash
  · obtain ⟨rfl, rfl⟩ := step_slash hslash
    exact ⟨[], rfl, .nil⟩
  · have hflush : (m.step c).2.flush = [] := by
      cases hm : (m.step c).2 <;> first | rfl | exact absurd hm hslash
    refine ⟨m.flush ++ [c], by rw [hflush, List.append_nil], ?_⟩
    cases m with
    | plain =>
      have hc : (c == '/') = false := by
        rw [beq_eq_false_iff_ne]
        rintro rfl
        exact hslash rfl
      rw [blank, hc]
      exact stands_refl _
    | slash =>
      rw [blank]
      split
      next hstar =>
        rw [beq_iff_eq.mp hstar]
        exact .cons (.inr ⟨rfl, rfl⟩) (.cons (.inr ⟨rfl, rfl⟩) .nil)
      · exact stands_refl _
    | block => exact .cons (stands_blankChar c) .nil
    | star => exact .cons (stands_blankChar c) .nil
    | literal | escape | lineComment => exact stands_refl _

lemma blankFrom_stands (m : Mode) (t : Text) : List.Forall₂ Stands (m.flush ++ t) (blankFrom m t) := by
  induction t generalizing m with
  | nil =>
    rw [List.append_nil]
    exact stands_refl _
  | cons c t ih =>
    obtain ⟨x, hx, hblank⟩ := m.blank_stands c
    have hshape : m.flush ++ c :: t = x ++ ((m.step c).2.flush ++ t) := by
      rw [List.append_cons, hx, List.append_assoc]
    rw [hshape]
    exact List.rel_append hblank (ih _)

lemma length_lines_cons (hc : isLineEnd c = false) (r : Text) : (lines (c :: r)).length = max 1 r.lines.length := by
  have hreturn : ∀ r', c = '\r' → r = '\n' :: r' → False := by
    rintro r' rfl
    cases hc
  rw [lines, if_neg (by rw [hc]; exact Bool.false_ne_true)]
  · cases r.lines with
    | nil => rfl
    | cons l ls => simp
  · exact hreturn

lemma length_lines_of_stands {t t' : Text} (h : List.Forall₂ Stands t t') : t.lines.length = t'.lines.length := by
  -- a character that ends a line stands for itself only
  have hend : ∀ {c c' : Char}, Stands c c' → isLineEnd c ∨ isLineEnd c' → c' = c := by
    rintro c c' (rfl | ⟨hc, hc'⟩) hor
    · rfl
    · rw [hc, hc'] at hor
      cases hor <;> contradiction
  have hkeep : ∀ {c c' : Char}, Stands c c' → isLineEnd c = false → isLineEnd c' = false := by
    rintro c c' (rfl | ⟨-, hc'⟩) hc
    · exact hc
    · exact hc'
  fun_induction lines t generalizing t' with
  | case1 =>
    cases h
    rfl
  | case2 r ih =>
    cases h with
    | cons hreturn h =>
      cases h with
      | cons hfeed h =>
        obtain rfl := hend hreturn (.inl rfl)
        obtain rfl := hend hfeed (.inl rfl)
        rw [lines, List.length_cons, List.length_cons, ih h]
  | case3 c r hpair hc ih =>
    cases h with
    | @cons _ c' _ r' hstands h =>
      obtain rfl := (hend hstands (.inl hc)).symm
      rw [lines, if_pos hc, List.length_cons, List.length_cons, ih h]
      rintro u rfl rfl
      cases h with
      | @cons d _ v _ hd h =>
        obtain rfl := hend hd (.inr rfl)
        exact hpair v rfl rfl
  | case4 c r hpair hc hr ih =>
    cases h with
    | @cons _ c' _ r' hstands h =>
      rw [length_lines_cons (hkeep hstands (Bool.eq_false_iff.mpr hc)), ← ih h, hr]
      rfl
  | case5 c r hpair hc l ls hr ih =>
    cases h with
    | @cons _ c' _ r' hstands h =>
      rw [length_lines_cons (hkeep hstands (Bool.eq_false_iff.mpr hc)), ← ih h, hr]
      simp

lemma length_lines_blankComments (t : Text) : (blankComments t).lines.length = t.lines.length :=
  (length_lines_of_stands (blankFrom_stands .plain t)).symm

end FunctionDocs.Code
