import FunctionDocs.Proofs.Dangling
import FunctionDocs.Proofs.Heads
import FunctionDocs.Proofs.Residue
import FunctionDocs.Proofs.SpacedHeads

/-!
# Control words read as names

A line that begins with a control word is passed over, but a control word further on can still be read as the name of a function: the
text in front of it is then taken for its return type. This happens exactly if the text in front does not belong to the name, that is,
if it ends in no word, no qualifier and no operator, or is a single character.
-/

open List

namespace FunctionDocs.Source

open Text Pattern DocBlock

variable {p : Char → Bool} {c : HeadCut} {m : Match} {b w : Text} {t s u : Text} {below : List Joined} {x : Joined × Bool}
  {xs : List (Joined × Bool)}

/-! ## The text before the parameters -/

def front (line : Text) : Text := trimRight (line.takeWhile (· != '('))

lemma front_eq {a : Text} (r : Text) (ha : '(' ∉ a) (hb : isBlankLine b) (hclosed : Closed a) :
    front (a ++ (b ++ '(' :: r)) = a := by
  have hbefore : '(' ∉ a ++ b := by
    rw [mem_append, not_or]
    exact ⟨ha, fun hc => absurd (isBlankLine_iff.mp hb _ hc) (by decide)⟩
  rw [front, ← append_assoc, (span_ne hbefore r).1]
  exact trimRight_append hb hclosed

/-- The text ends in a qualifier behind something else. -/
def QualifierEnd (v : Text) : Prop := ∃ t q : Text, t ≠ [] ∧ Word q ∧ v = t ++ (q ++ "::".toList)

/-- The text ends in an operator behind something else. -/
def OperatorEnd (v : Text) : Prop :=
  ∃ t b s : Text, t ≠ [] ∧ isBlankLine b = true ∧ (∀ c ∈ s, isOperatorChar c = true) ∧ v = t ++ ("operator".toList ++ (b ++ s))

/-- A text that no name behind it can reach back into. -/
structure Apart (v : Text) : Prop where
  last : ∃ c, v.getLast? = some c ∧ isWordChar c = false ∧ c ≠ '~'
  qualifier : ¬QualifierEnd v
  operator : ¬OperatorEnd v

/-- A text that is taken for the return type of the name behind it. -/
def TakenForType (v : Text) : Prop := v.length = 1 ∨ Apart v

/-- A control word stands before the parameters, behind white space if the line is read as a constructor, or else behind a text that is
taken for its return type. -/
def ControlNamed (line : Text) : Prop :=
  ∃ u w : Text, w ∈ controlWords ∧ front line = u ++ w ∧
    if (constructorHead? line).isSome then isBlankLine u = true else TakenForType (trimLeft u)

/-! ## Words and types -/

lemma word_of_control (h : w ∈ controlWords) : Word w := by
  have hall : ∀ w ∈ controlWords, Word w := by decide
  exact hall w h

lemma isNameChar_of_isBlank {c : Char} (h : isBlank c) : isNameChar c = false := by
  rw [isNameChar, isWordChar_of_isBlank h, Bool.false_or, Bool.or_eq_false_iff, beq_eq_false_iff_ne, beq_eq_false_iff_ne]
  constructor <;> rintro rfl <;> exact absurd h (by decide)

lemma isBlank_of_class (hp : ∀ c, isBlank c → p c = false) {c : Char} (h : p c) : isBlank c = false := by
  cases hblank : isBlank c with
  | false => rfl
  | true =>
    rw [hp c hblank] at h
    cases h

lemma closed_of_class (hp : ∀ c, isBlank c → p c = false) (h : ∀ c ∈ t, p c) : Closed t :=
  fun c hc => isBlank_of_class hp (h c (mem_of_getLast? hc))

lemma HeadCut.Typed.type_chars (h : c.Typed m) : (∃ d x, c.type = d :: x ∧ isWordChar d) ∧ ∀ d ∈ c.type, isTypeChar d := by
  obtain ⟨_, x, htype, ⟨d, hd, rfl⟩, -, hx⟩ := h.type
  rw [htype]
  refine ⟨⟨d, x, rfl, hd⟩, forall_mem_cons.mpr ⟨?_, hx⟩⟩
  simp [isTypeChar, hd]

lemma not_mem_of_class (h : ∀ c ∈ t, p c) {d : Char} (hd : p d = false) : d ∉ t := by
  intro hm
  rw [h d hm] at hd
  cases hd

lemma HeadCut.Typed.not_mem_before (h : c.Typed m) : '(' ∉ c.lead ++ (c.type ++ c.gap) := by
  simp only [mem_append, not_or]
  exact ⟨not_mem_of_class (isBlankLine_iff.mp h.lead) (by decide), not_mem_of_class h.type_chars.2 (by decide),
    not_mem_of_class (isBlankLine_iff.mp h.gap) (by decide)⟩

lemma HeadCut.line_eq (c : HeadCut) :
    c.line = c.lead ++ (c.type ++ c.gap) ++ c.name ++ (c.behind ++ '(' :: (c.params ++ ')' :: c.tail)) := by
  simp [line]

lemma HeadCut.Typed.front_of_closed (h : c.Typed m) (hname : '(' ∉ c.name) (hne : c.name ≠ [])
    (hclosed : Closed c.name) : front c.line = c.lead ++ (c.type ++ c.gap) ++ c.name := by
  rw [c.line_eq]
  refine front_eq _ ?_ h.behind (closed_append hne hclosed)
  rw [mem_append, not_or]
  exact ⟨h.not_mem_before, hname⟩

lemma HeadCut.Typed.trimLeft_before (h : c.Typed m) (t : Text) :
    trimLeft (c.lead ++ (c.type ++ c.gap) ++ t) = c.type ++ (c.gap ++ t) := by
  obtain ⟨d, x, htype, hd⟩ := h.type_chars.1
  rw [append_assoc, append_assoc]
  refine trimLeft_append h.lead fun e he => ?_
  rw [htype] at he
  cases he
  exact isBlank_of_isWordChar hd

lemma HeadCut.Typed.type_ne_nil (h : c.Typed m) : c.type ≠ [] := by
  obtain ⟨d, x, htype, -⟩ := h.type_chars.1
  rw [htype]
  exact cons_ne_nil d x

/-! ## A control word as a name -/

lemma takes_qualified {q : Text} (hq : Word q) (hw : Word w) : functionName.Takes (q ++ "::" ++ w) := by
  have hone : 1 ≤ w.length := length_pos_iff.mpr hw.nonempty
  refine .inl ⟨q ++ "::", w, rfl, ⟨[q ++ "::"], by simp, ?_⟩, hone, fun c hc => by simp [hw.chars c hc]⟩
  exact forall_mem_singleton.mpr ⟨q, "::", rfl, ⟨length_pos_iff.mpr hq.nonempty, hq.chars⟩, rfl⟩

lemma takes_operator (hb : isBlankLine b) (hs : ∀ c ∈ s, isOperatorChar c) (hne : s ≠ []) :
    functionName.Takes ("operator" ++ (b ++ s)) :=
  .inr ⟨"operator", _, rfl, rfl, b, s, rfl, ⟨Nat.zero_le _, isBlankLine_iff.mp hb⟩, length_pos_iff.mpr hne, hs⟩

lemma HeadCut.Typed.last_before (h : c.Typed m) (hone : (c.type ++ c.gap).length ≠ 1)
    (hnot : ¬"operator" <+: c.name) : ∃ e, (c.type ++ c.gap).getLast? = some e ∧ isWordChar e = false ∧ e ≠ '~' := by
  by_cases hg : c.gap = []
  · rw [hg, append_nil] at hone ⊢
    have hlast := getLast?_eq_some_getLast h.type_ne_nil
    refine ⟨_, hlast, ?_, ?_⟩
    · rcases h.seam with hlen | hseam | hne | hop
      · have hpos := length_pos_iff.mpr h.type_ne_nil
        omega
      · exact hseam _ hlast
      · exact absurd hg hne
      · exact absurd hop hnot
    · intro htilde
      have htype := h.type_chars.2 _ (mem_of_getLast? hlast)
      rw [htilde] at htype
      exact absurd htype (by decide)
  · have hlast := getLast?_eq_some_getLast hg
    have hblank := isBlankLine_iff.mp h.gap _ (mem_of_getLast? hlast)
    refine ⟨_, by rw [getLast?_append_of_ne_nil _ hg]; exact hlast, isWordChar_of_isBlank hblank, ?_⟩
    intro htilde
    rw [htilde] at hblank
    exact absurd hblank (by decide)

/-- Before a word that is read as a name stands no qualifier: a shorter return type would have left it to the name. -/
lemma HeadCut.Typed.not_qualifierEnd (h : c.Typed m) (hword : Word c.name) : ¬QualifierEnd (c.type ++ c.gap) := by
  rintro ⟨t, q, ht, hq, heq⟩
  have hg : c.gap = [] := by
    by_contra hg
    have hcolon : (c.type ++ c.gap).getLast? = some ':' := by
      rw [heq, ← append_assoc]
      exact getLast?_append_of_ne_nil _ (by decide)
    rw [getLast?_append_of_ne_nil _ hg] at hcolon
    exact absurd (isBlankLine_iff.mp h.gap ':' (mem_of_getLast? hcolon)) (by decide)
  rw [hg, append_nil] at heq
  refine h.least t (q ++ "::") heq ht (by simp) ?_
  rw [hg]
  exact takes_qualified hq hword

/-- Before a word that is read as a name stands no operator, for the same reason. -/
lemma HeadCut.Typed.not_operatorEnd (h : c.Typed m) (hword : Word c.name) : ¬OperatorEnd (c.type ++ c.gap) := by
  rintro ⟨t, b, s, ht, hb, hs, heq⟩
  have hs' : ∀ d ∈ s ++ c.name, isOperatorChar d := by
    refine forall_mem_append.mpr ⟨hs, fun d hd => ?_⟩
    simp [isOperatorChar, hword.chars d hd]
  have hletter : 'o' ∉ c.gap := not_mem_of_class (isBlankLine_iff.mp h.gap) (by decide)
  rcases append_eq_append_iff.mp heq with ⟨z, htz, hz⟩ | ⟨z, htz, hz⟩
  · exact hletter (by rw [hz]; simp)
  · have hne : z ≠ [] := by
      rintro rfl
      exact hletter (by rw [← nil_append c.gap, ← hz]; simp)
    refine h.least t z htz ht hne ?_
    rw [← append_assoc, ← hz]
    simpa using takes_operator hb hs' (by simp [hword.nonempty])

lemma HeadCut.Typed.takenForType (h : c.Typed m) (hname : c.name ∈ controlWords) : TakenForType (c.type ++ c.gap) := by
  have hword := word_of_control hname
  have hnot : ¬"operator" <+: c.name := by
    have hall : ∀ w ∈ controlWords, ¬"operator" <+: w := by decide
    exact hall _ hname
  by_cases hone : (c.type ++ c.gap).length = 1
  · exact .inl hone
  · exact .inr ⟨h.last_before hone hnot, h.not_qualifierEnd hword, h.not_operatorEnd hword⟩

lemma qualifier_of_plainName {p : Text} (h : plainName.Takes (p ++ w)) (hw : Word w) {e : Char} (hlast : p.getLast? = some e)
    (hword : isWordChar e = false) (htilde : e ≠ '~') : ∃ t q, Word q ∧ p = t ++ (q ++ "::") := by
  obtain ⟨_, z, heq, ⟨ys, rfl, hys⟩, -, hz⟩ := h
  have hnot : ∀ x y : Text, p = x ++ y → y ≠ [] → (∀ c ∈ y, (isWordChar c || c == '~')) → False := by
    intro x y hp hne hy
    rw [hp, getLast?_append_of_ne_nil _ hne] at hlast
    have hclass := hy e (mem_of_getLast? hlast)
    simp [hword, htilde] at hclass
  have hends : ∀ x : Text, ys.flatten = p ++ x → (∀ c ∈ x, isWordChar c) → x = [] := by
    intro x hx hclass
    by_contra hne
    rcases eq_nil_or_concat' ys with rfl | ⟨init, y, rfl⟩
    · rw [flatten_nil] at hx
      exact hne (append_eq_nil_iff.mp hx.symm).2
    · obtain ⟨q, r, rfl, -, rfl⟩ := hys y (by simp)
      have hcolon : (p ++ x).getLast? = some ':' := by
        rw [← hx, flatten_append, flatten_singleton, ← append_assoc]
        exact getLast?_append_of_ne_nil _ (by decide)
      rw [getLast?_append_of_ne_nil _ hne] at hcolon
      exact absurd (hclass ':' (mem_of_getLast? hcolon)) (by decide)
  -- The qualifiers end where the text ends: it cannot end in the last word, nor they in the word behind it.
  have hflatten : ys.flatten = p := by
    rcases append_eq_append_iff.mp heq with ⟨x, hx, hwx⟩ | ⟨x, hx, hzx⟩
    · have hnil := hends x hx fun c hc => hw.chars c (by rw [hwx]; exact mem_append_left _ hc)
      rw [hx, hnil, append_nil]
    · by_cases hne : x = []
      · rw [hx, hne, append_nil]
      · exact (hnot _ x hx hne fun c hc => hz c (by rw [hzx]; exact mem_append_left _ hc)).elim
  rcases eq_nil_or_concat' ys with rfl | ⟨init, y, rfl⟩
  · rw [← hflatten] at hlast
    cases hlast
  · obtain ⟨q, r, rfl, ⟨hlen, hq⟩, rfl⟩ := hys y (by simp)
    refine ⟨init.flatten, q, ⟨length_pos_iff.mp hlen, hq⟩, ?_⟩
    rw [← hflatten, flatten_append, flatten_singleton]

lemma letters_of_control (h : w ∈ controlWords) : 'r' ∉ w.dropLast ∧ w.length ≤ 6 ∧ ¬w <:+ "operator" := by
  have hall : ∀ w ∈ controlWords, 'r' ∉ w.dropLast ∧ w.length ≤ 6 ∧ ¬w <:+ "operator" := by decide
  exact hall w h

lemma not_takenForType_nil : ¬TakenForType [] := by
  rintro (hlen | happart)
  · cases hlen
  · obtain ⟨c, hc, -⟩ := happart.last
    cases hc

/-- Where the end of a word is cut off as a name, nothing but white space stands in front of the word: its return type is one character. -/
lemma HeadCut.Typed.blank_before_cut (h : c.Typed m) (hnot : ¬"operator" <+: c.name) {p : Text}
    (hbefore : c.lead ++ (c.type ++ c.gap) = u ++ p) (hp : Word p) : isBlankLine u := by
  have hchar : isWordChar (p.getLast hp.nonempty) := hp.chars _ (getLast_mem hp.nonempty)
  have hend : (c.lead ++ (c.type ++ c.gap)).getLast? = some (p.getLast hp.nonempty) := by
    rw [hbefore, getLast?_append_of_ne_nil _ hp.nonempty]
    exact getLast?_eq_some_getLast hp.nonempty
  have hgap : c.gap = [] := by
    by_contra hne
    rw [← append_assoc, getLast?_append_of_ne_nil _ hne] at hend
    have hblank := isBlankLine_iff.mp h.gap _ (mem_of_getLast? hend)
    rw [isBlank_of_isWordChar hchar] at hblank
    cases hblank
  rw [hgap, append_nil] at hend hbefore
  rw [getLast?_append_of_ne_nil _ h.type_ne_nil] at hend
  have hone : c.type.length ≤ 1 := by
    rcases h.seam with hlen | hseam | hne | hop
    · exact hlen
    · have hno := hseam _ hend
      rw [hchar] at hno
      cases hno
    · exact absurd hgap hne
    · exact absurd hop hnot
  have hshort : u <+: c.lead := by
    have hlen := congrArg length hbefore
    have hpos := length_pos_iff.mpr hp.nonempty
    rw [length_append, length_append] at hlen
    exact prefix_of_prefix_length_le (by rw [hbefore]; exact prefix_append u p) (prefix_append c.lead c.type) (by omega)
  exact isBlankLine_iff.mpr fun d hd => isBlankLine_iff.mp h.lead d (hshort.subset hd)

lemma HeadCut.Typed.plain_eq (h : c.Typed m) (hplain : plainName.Takes c.name) {w : Text}
    (hw : w ∈ controlWords) (hfront : c.lead ++ (c.type ++ c.gap) ++ c.name = u ++ w) (hu : TakenForType (trimLeft u)) :
    c.name = w := by
  have hword := word_of_control hw
  rcases append_eq_append_iff.mp hfront with ⟨p, hup, hname⟩ | ⟨p, hbefore, hwp⟩
  · by_cases hp : p = []
    · rw [hname, hp, nil_append]
    -- Otherwise the text in front ends in a qualifier.
    exfalso
    rw [hup, h.trimLeft_before] at hu
    rcases hu with hlen | happart
    · have htype := length_pos_iff.mpr h.type_ne_nil
      have hpos := length_pos_iff.mpr hp
      simp only [length_append] at hlen
      omega
    · obtain ⟨e, he, hnoword, htilde⟩ := happart.last
      rw [← append_assoc, getLast?_append_of_ne_nil _ hp] at he
      rw [hname] at hplain
      obtain ⟨t, q, hq, rfl⟩ := qualifier_of_plainName hplain hword he hnoword htilde
      refine happart.qualifier ⟨c.type ++ (c.gap ++ t), q, by simp [h.type_ne_nil], hq, ?_⟩
      simp
  · by_cases hp : p = []
    · rw [hwp, hp, nil_append]
    -- Otherwise the control word is cut, and nothing is left in front of it.
    exfalso
    have hnot : ¬"operator" <+: c.name := by
      intro hop
      have hlen := congrArg length hwp
      have hop := hop.length_le
      have hshort := (letters_of_control hw).2.1
      have height : "operator".toList.length = 8 := rfl
      rw [length_append] at hlen
      omega
    have hblank := h.blank_before_cut hnot hbefore ⟨hp, fun d hd => hword.chars d (by rw [hwp]; exact mem_append_left _ hd)⟩
    have hnil : trimLeft u = [] := by simpa using @trimLeft_append u [] hblank (by simp)
    rw [hnil] at hu
    exact not_takenForType_nil hu

lemma HeadCut.Typed.front_operator (h : c.Typed m) {b : Text}
    (hname : c.name = "operator".toList ++ (b ++ s)) (hb : isBlankLine b) (hs : ∀ d ∈ s, isOperatorChar d) (hne : s ≠ []) :
    front c.line = c.lead ++ (c.type ++ c.gap) ++ "operator".toList ∨
      ∃ s', s' ≠ [] ∧ (∀ d ∈ s', isOperatorChar d) ∧
        front c.line = c.lead ++ (c.type ++ c.gap) ++ ("operator".toList ++ (b ++ s')) := by
  have hoperator : '(' ∉ "operator".toList := by decide
  have hblank : '(' ∉ b := not_mem_of_class (isBlankLine_iff.mp hb) (by decide)
  have hclosed : ∀ {t : Text}, (∀ d ∈ t, isOperatorChar d) → Closed t := closed_of_class fun _ => isOperatorChar_of_isBlank
  have hpart : ∀ {t : Text}, '(' ∉ t → '(' ∉ c.lead ++ (c.type ++ c.gap) ++ ("operator".toList ++ (b ++ t)) := by
    intro t ht
    have hbefore := h.not_mem_before
    simp only [mem_append, not_or] at hbefore ⊢
    exact ⟨hbefore, hoperator, hblank, ht⟩
  by_cases hparen : '(' ∈ s
  · obtain ⟨s₁, s₂, rfl, hs₁⟩ := eq_append_cons_of_mem hparen
    obtain ⟨hclass, -⟩ := forall_mem_append.mp hs
    have hline : c.line = c.lead ++ (c.type ++ c.gap) ++ ("operator".toList ++ (b ++ s₁)) ++
        ([] ++ '(' :: (s₂ ++ (c.behind ++ '(' :: (c.params ++ ')' :: c.tail)))) := by
      rw [c.line_eq, hname]
      simp
    by_cases hnil : s₁ = []
    · left
      have hline : c.line = c.lead ++ (c.type ++ c.gap) ++ "operator".toList ++
          (b ++ '(' :: (s₂ ++ (c.behind ++ '(' :: (c.params ++ ')' :: c.tail)))) := by
        rw [hline, hnil]
        simp
      rw [hline]
      refine front_eq _ ?_ hb (closed_append (by decide) ?_)
      · rw [mem_append, not_or]
        exact ⟨h.not_mem_before, hoperator⟩
      · decide
    · right
      refine ⟨s₁, hnil, hclass, ?_⟩
      rw [hline]
      refine front_eq _ (hpart hs₁) rfl (closed_append (by simp) ?_)
      exact closed_append (by simp [hnil]) (closed_append hnil (hclosed hclass))
  · right
    refine ⟨s, hne, hs, ?_⟩
    rw [c.line_eq, hname]
    refine front_eq _ (hpart hparen) h.behind (closed_append (by simp) ?_)
    exact closed_append (by simp [hne]) (closed_append hne (hclosed hs))

lemma HeadCut.Typed.not_takenForType_operator (h : c.Typed m) {b : Text} (hb : isBlankLine b)
    (ht : ∀ d ∈ t, isOperatorChar d) :
    ¬TakenForType (trimLeft (c.lead ++ (c.type ++ c.gap) ++ ("operator" ++ (b ++ t)))) := by
  rw [h.trimLeft_before]
  rintro (hlen | happart)
  · have height : "operator".toList.length = 8 := rfl
    simp only [length_append] at hlen
    omega
  · exact happart.operator ⟨c.type ++ c.gap, b, t, by simp [h.type_ne_nil], hb, ht, by simp⟩

/-- A word that a text ends in, which ends in `operator` and white space, ends in the last letter of `operator`. -/
lemma mem_of_operator_cut {v p : Text} (hb : isBlankLine b) (hp : Word p) (h : v ++ ("operator" ++ b) = u ++ p) : 'r' ∈ p := by
  have hlast := getLast?_eq_some_getLast hp.nonempty
  have hchar : isWordChar (p.getLast hp.nonempty) := hp.chars _ (getLast_mem hp.nonempty)
  have hend : ("operator" ++ b).getLast? = some (p.getLast hp.nonempty) := by
    rw [← hlast, ← getLast?_append_of_ne_nil u hp.nonempty, ← h]
    exact (getLast?_append_of_ne_nil _ (by simp)).symm
  have hbnil : b = [] := by
    by_contra hbne
    rw [getLast?_append_of_ne_nil _ hbne] at hend
    have hblank := isBlankLine_iff.mp hb _ (mem_of_getLast? hend)
    rw [isBlank_of_isWordChar hchar] at hblank
    cases hblank
  rw [hbnil] at hend
  have hr : 'r' = p.getLast hp.nonempty := Option.some.inj hend
  rw [hr]
  exact getLast_mem hp.nonempty

lemma HeadCut.Typed.operator_ne (h : c.Typed m) {b : Text}
    (hname : c.name = "operator".toList ++ (b ++ s)) (hb : isBlankLine b) (hs : ∀ d ∈ s, isOperatorChar d) (hne : s ≠ [])
    {w : Text} (hw : w ∈ controlWords) (hfront : front c.line = u ++ w) : ¬TakenForType (trimLeft u) := by
  have hword := word_of_control hw
  obtain ⟨hletter, hshort, hsuffix⟩ := letters_of_control hw
  rcases h.front_operator hname hb hs hne with hop | ⟨s', hne', hs', hop⟩
  · rw [hop] at hfront
    have hlen : w.length ≤ "operator".toList.length := by
      have height : "operator".toList.length = 8 := rfl
      omega
    have hend : w <:+ c.lead ++ (c.type ++ c.gap) ++ "operator" := by
      rw [hfront]
      exact suffix_append u w
    exact absurd (suffix_of_suffix_length_le hend (suffix_append _ _) hlen) hsuffix
  · have hsplit : c.lead ++ (c.type ++ c.gap) ++ ("operator".toList ++ b) ++ s' = u ++ w := by
      rw [← hfront, hop]
      simp only [append_assoc]
    rcases append_eq_append_iff.mp hsplit with ⟨p, hup, hsp⟩ | ⟨p, hbefore, hwp⟩
    · rw [hup, append_assoc]
      exact h.not_takenForType_operator hb fun d hd => hs' d (by rw [hsp]; exact mem_append_left _ hd)
    · by_cases hp : p = []
      · rw [hp, append_nil] at hbefore
        rw [← hbefore, ← append_nil ("operator".toList ++ b), append_assoc "operator".toList]
        exact h.not_takenForType_operator hb nofun
      · -- The control word would go on from the last letter of `operator`.
        have hcut : Word p := ⟨hp, fun d hd => hword.chars d (by rw [hwp]; exact mem_append_left _ hd)⟩
        refine absurd ?_ hletter
        rw [hwp, dropLast_append_of_ne_nil hne']
        exact mem_append_left _ (mem_of_operator_cut hb hcut hbefore)

lemma HeadCut.Typed.control_iff (h : c.Typed m) :
    c.name ∈ controlWords ↔ ∃ u w : Text, w ∈ controlWords ∧ front c.line = u ++ w ∧ TakenForType (trimLeft u) := by
  constructor
  · intro hname
    have hword := word_of_control hname
    refine ⟨c.lead ++ (c.type ++ c.gap), c.name, hname, ?_, ?_⟩
    · exact h.front_of_closed (not_mem_of_class hword.chars (by decide)) hword.nonempty (closed_of_class (fun _ => isWordChar_of_isBlank) hword.chars)
    · have htrim := h.trimLeft_before []
      rw [append_nil, append_nil] at htrim
      rw [htrim]
      exact h.takenForType hname
  · rintro ⟨u, w, hw, hfront, hu⟩
    rcases h.name with hplain | ⟨_, _, hname, rfl, b, s, rfl, hb, hlen, hs⟩
    · have hchars := isNameChar_of_takes_plainName hplain
      have hne : c.name ≠ [] := by
        obtain ⟨y, z, hyz, -, hlen, -⟩ := hplain
        rw [hyz]
        exact append_ne_nil_of_right_ne_nil y (length_pos_iff.mp hlen)
      have hclosed := closed_of_class (fun _ => isNameChar_of_isBlank) hchars
      rw [h.front_of_closed (not_mem_of_class hchars (by decide)) hne hclosed] at hfront
      rw [h.plain_eq hplain hw hfront hu]
      exact hw
    · exact absurd hu (h.operator_ne hname (isBlankLine_iff.mpr hb.2) hs (length_pos_iff.mp hlen) hw hfront)

lemma HeadCut.Untyped.control_iff (h : c.Untyped m) :
    c.name ∈ controlWords ↔ ∃ u w : Text, w ∈ controlWords ∧ front c.line = u ++ w ∧ isBlankLine u := by
  have hchars := isNameChar_of_takes_constructorName h.name
  have hne : c.name ≠ [] := by
    obtain ⟨y, _, hyz, -, z, w, rfl, -, hlen, -⟩ := h.name
    rw [hyz]
    exact append_ne_nil_of_right_ne_nil y (append_ne_nil_of_right_ne_nil z (length_pos_iff.mp hlen))
  have hfront : front c.line = c.lead ++ c.name := by
    have hline : c.line = c.lead ++ c.name ++ (c.behind ++ '(' :: (c.params ++ ')' :: c.tail)) := by
      rw [c.line_eq, h.type, h.gap]
      simp
    rw [hline]
    refine front_eq _ ?_ h.behind (closed_append hne (closed_of_class (fun _ => isNameChar_of_isBlank) hchars))
    rw [mem_append, not_or]
    exact ⟨not_mem_of_class (isBlankLine_iff.mp h.lead) (by decide), not_mem_of_class hchars (by decide)⟩
  rw [hfront]
  constructor
  · intro hcontrol
    exact ⟨c.lead, c.name, hcontrol, rfl, h.lead⟩
  · rintro ⟨u, w, hw, heq, hu⟩
    have hword := word_of_control hw
    have hleft : trimLeft (c.lead ++ c.name) = c.name :=
      trimLeft_append h.lead fun d hd => isBlank_of_class (fun _ => isNameChar_of_isBlank) (hchars d (mem_of_head? hd))
    have hright : trimLeft (u ++ w) = w := trimLeft_append hu fun d hd => isBlank_of_isWordChar (hword.chars d (mem_of_head? hd))
    rw [heq, hright] at hleft
    rw [← hleft]
    exact hw

lemma readHead_control {line : Text} {h : Head} (hread : readHead line below = .ok (some h)) :
    h.name ∈ controlWords ↔ ControlNamed line := by
  unfold ControlNamed
  rcases readHead_cases hread with hhead | ⟨hnone, hhead⟩
  · obtain ⟨m, hm, rfl⟩ := Option.map_eq_some_iff.mp hhead
    obtain ⟨c, hline, hc⟩ := constructorHead_untyped hm
    simp only [hhead]
    rw [hline, hc.namePart]
    exact hc.control_iff
  · obtain ⟨m, hm, rfl⟩ := Option.map_eq_some_iff.mp hhead
    obtain ⟨c, hline, hc⟩ := functionHead_typed hm
    simp only [hnone]
    rw [hline, hc.namePart]
    exact hc.control_iff

/-! ## All functions of a text -/

lemma headAt_control {name params : Text}
    (h : headAt x below = .ok (some (name, params))) : name ∈ controlWords ↔ ControlNamed (headLine x.1) := by
  unfold headAt headOn at h
  split at h
  · cases h
  · dsimp only at h
    split at h
    · cases h
    · cases hread : readHead (headText (readTemplate (mask x.1.text) none).2) below with
      | error e =>
        rw [hread] at h
        cases h
      | ok head =>
        rw [hread] at h
        cases head with
        | none => cases h
        | some head =>
          cases h
          exact readHead_control hread

/-- No line with a head has a control word as its name. -/
def NoControlNames (xs : List (Joined × Bool)) : Prop :=
  ∀ above x below, xs = above ++ x :: below → ∀ name params, headAt x (below.map (·.1)) = .ok (some (name, params)) →
    ¬ControlNamed (headLine x.1)

lemma noControlNames_cons :
    NoControlNames (x :: xs) ↔
      (∀ name params, headAt x (xs.map (·.1)) = .ok (some (name, params)) → ¬ControlNamed (headLine x.1)) ∧ NoControlNames xs := by
  constructor
  · intro h
    exact ⟨h [] x xs rfl, fun above y below hxs => h (x :: above) y below (by rw [hxs]; rfl)⟩
  · rintro ⟨hx, hxs⟩ above y below heq
    cases above with
    | nil =>
      cases heq
      exact hx
    | cons z above =>
      cases heq
      exact hxs above y below rfl

lemma startsOn_control {ss : List Start} (h : startsOn [] xs = .ok ss) :
    (∀ s ∈ ss, s.name ∉ controlWords) ↔ NoControlNames xs := by
  induction xs generalizing ss with
  | nil =>
    cases h
    refine iff_of_true nofun fun above x below heq => ?_
    simp at heq
  | cons x xs ih =>
    obtain ⟨head, rest, hhead, hrest, rfl⟩ := startsOn_cons.mp h
    rw [append_nil] at hhead
    rw [noControlNames_cons, ← ih hrest, hhead, forall_mem_append]
    refine and_congr_left fun _ => ?_
    cases head with
    | none => exact iff_of_true nofun nofun
    | some head =>
      obtain ⟨name, params⟩ := head
      have hcontrol := headAt_control hhead
      constructor
      · intro hnames n p heq
        cases heq
        rw [← hcontrol]
        exact hnames ⟨x.1.first, name, params⟩ mem_cons_self
      · intro hnot s hs
        obtain rfl := mem_singleton.mp hs
        exact fun hname => hnot name params rfl (hcontrol.mp hname)

/-- No function found in a text has a control word as its name exactly if no line that is read as a head has one behind a text that is
taken for a return type. -/
theorem functionsOf_control_iff {content file : Text} {fs : List Function} (h : functionsOf content file = .ok fs) :
    (∀ f ∈ fs, f.name ∉ controlWords) ↔ NoControlNames (marked content.lines) := by
  rw [functionsOf_eq] at h
  rw [← startsOn_control (functionsIn_ok h).1, List.forall_mem_map]
  rfl

def statementText : Text := "int f(int x) \x7b\n  for (int i = 0; i < x; i++) \x7b\n    if (i > 2) \x7b\n    \x7d\n  \x7d\n  return x;\n\x7d\n"

/-- The function of `statementText`. -/
def statementFunction : Function := ⟨"f", "int", "int x", false, [], false, [], 0, 1, false, none⟩

/-- Only the function itself is found in `statementText`, and no line of it has a control word as its name. -/
theorem statement_noControlNames :
    functionsOf statementText [] = .ok [statementFunction] ∧ NoControlNames (marked statementText.lines) := by
  have hfound : functionsOf statementText [] = .ok [statementFunction] := by decide
  have hnames : ∀ f ∈ [statementFunction], f.name ∉ controlWords := by decide
  exact ⟨hfound, (functionsOf_control_iff hfound).mp hnames⟩

def labelText : Text := "void f(int x) \x7b\n  switch (x) \x7b\n    default: if (x) \x7b\n    \x7d\n  \x7d\n\x7d\n"

/-- The functions that are found in `labelText`. -/
def labelFunctions : List Function :=
  [⟨"f", "void", "int x", false, [], false, [], 0, 1, false, none⟩, ⟨"if", "default:", "x", false, [], false, [], 2, 1, false, none⟩]

/-- A control statement behind a label is found as a function: the label is taken for its return type. -/
theorem label_control_name :
    functionsOf labelText [] = .ok labelFunctions ∧ ∃ f ∈ labelFunctions, f.name ∈ controlWords := by
  decide

end FunctionDocs.Source
