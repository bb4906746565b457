import FunctionDocs.Proofs.Paragraphs

/-!
# What cleaning leaves of a parameter's hints

The hints behind a description are put on each time a comment is composed and taken off before. Behind a description that holds
no hint itself, taking them off leaves the description and a rest that depends on the parameter only. The rest is empty
exactly when the parameter has no default value, or one without opening parenthesis that no hint at a function pointer
follows.
-/

open List

namespace FunctionDocs.DocBlock

open Text Pattern

variable {b p t u w : Text}

/-! ## Where a hint can begin -/

def defaultMark : Text := "– default value if not overloaded:"

def pointerMark : Text := "(internal function parameter:"

/-- A text that holds the words of no hint. -/
@[mk_iff]
structure Unmarked (t : Text) : Prop where
  default : ¬defaultMark <:+: t
  pointer : ¬pointerMark <:+: t

instance (t : Text) : Decidable (Unmarked t) := decidable_of_iff _ (unmarked_iff ..).symm

lemma Unmarked.of_part (h : Unmarked t) (hu : u <:+: t) : Unmarked u :=
  ⟨fun hm => h.default (hm.trans hu), fun hm => h.pointer (hm.trans hu)⟩

/-- What a hint, what is left of one, or a run of blanks begins with. -/
def joints : List Text := ["(", " –", " (", "  "]

/-- A text that may follow a description. -/
def Joint (w : Text) : Prop := w = [] ∨ ∃ s ∈ joints, s <+: w

/-- The last character, if there is one, is no white space. -/
def Closed (t : Text) : Prop := ∀ c, t.getLast? = some c → isBlank c = false
  deriving Decidable

lemma Closed.of_suffix (h : Closed t) (hu : u <:+ t) : Closed u := by
  obtain ⟨v, rfl⟩ := hu
  intro c hc
  apply h c
  rw [getLast?_append, hc]
  rfl

lemma Closed.trimRight_eq (h : Closed t) : trimRight t = t := trimRight_eq_self h

/-- The seams of a hint: a part of it that ends before its words are complete is a single blank, or is followed by nothing that
a joint text begins with. -/
def SeamsApart (lit mark : Text) : Prop :=
  ∀ k < lit.length, 0 < k → mark <:+: lit.take k ∨ lit.take k = [' '] ∨
    ∀ s ∈ joints, s.length ≤ (lit.drop k).length ∧ ¬s <+: lit.drop k

lemma seamsApart_default : SeamsApart defaultHint defaultMark := by
  unfold SeamsApart
  decide

lemma seamsApart_pointer : SeamsApart pointerHint pointerMark := by
  unfold SeamsApart
  decide

lemma not_begun {lit mark : Text} (hseams : SeamsApart lit mark) (hmark : mark <:+: lit) (hb : ¬mark <:+: b)
    (hclosed : Closed b) (hu : u <:+ b) (hne : u ≠ []) (hw : Joint w) : ¬lit <+: u ++ w := by
  intro h
  rcases prefix_append_cases h with hlit | ⟨c, q, hdrop, rfl⟩
  · exact hb (hmark.trans (hlit.isInfix.trans hu.isInfix))
  · have hseam := hseams u.length (by simp) (length_pos_iff.mpr hne)
    rw [take_left, drop_left] at hseam
    rcases hseam with hm | rfl | hapart
    · exact hb (hm.trans hu.isInfix)
    · exact absurd (hclosed.of_suffix hu ' ' rfl) (by decide)
    · rcases hw with rfl | ⟨s, hs, hw⟩
      · cases prefix_nil.mp hdrop
      · obtain ⟨hlen, hnot⟩ := hapart s hs
        exact hnot (prefix_of_prefix_length_le hw hdrop hlen)

/-! ## Passes that keep a text -/

lemma eraseSized_append {size : Text → Option Nat} {b w : Text}
    (h : ∀ u, u <:+ b → u ≠ [] → size (u ++ w) = none) : eraseSized size 0 (b ++ w) = b ++ eraseSized size 0 w := by
  induction b with
  | nil => rfl
  | cons c b ih =>
    have hnone : size (c :: (b ++ w)) = none := h (c :: b) (suffix_refl _) (by simp)
    rw [cons_append, eraseSized_cons hnone, ih fun u hu => h u (hu.trans (suffix_cons c b))]
    rfl

lemma eraseSized_skip (size : Text → Option Nat) (u w : Text) : eraseSized size u.length (u ++ w) = eraseSized size 0 w := by
  induction u with
  | nil => rfl
  | cons c u ih => exact ih

lemma eraseSized_taken {size : Text → Option Nat} {u w : Text} (hne : u ≠ []) (h : size (u ++ w) = some u.length) :
    eraseSized size 0 (u ++ w) = eraseSized size 0 w := by
  cases u with
  | nil => exact absurd rfl hne
  | cons c u =>
    rw [cons_append] at h ⊢
    rw [eraseSized, h]
    exact eraseSized_skip size u w

lemma defaultHintLength_eq_none {t : Text} (h : ¬defaultHint <+: t) : defaultHintLength t = none := by
  rw [defaultHintLength, if_neg]
  rw [Bool.and_eq_true, startsWith_iff]
  exact fun hc => h hc.1

lemma pointerHintLength_eq_none {t : Text} (h : ¬pointerHint <+: t) : pointerHintLength t = none := by
  rw [pointerHintLength, if_neg]
  rw [Bool.and_eq_true, Bool.and_eq_true, startsWith_iff]
  exact fun hc => h hc.1.1

/-- A closed text that both passes keep before every joint text. -/
structure Kept (b : Text) : Prop where
  closed : Closed b
  default : ∀ w, Joint w → eraseSized defaultHintLength 0 (b ++ w) = b ++ eraseSized defaultHintLength 0 w
  pointer : ∀ w, Joint w → eraseSized pointerHintLength 0 (b ++ w) = b ++ eraseSized pointerHintLength 0 w

lemma default_kept (hb : ¬defaultMark <:+: b) (hclosed : Closed b) (hw : Joint w) :
    eraseSized defaultHintLength 0 (b ++ w) = b ++ eraseSized defaultHintLength 0 w :=
  eraseSized_append fun _ hu hne =>
    defaultHintLength_eq_none (not_begun seamsApart_default (by decide) hb hclosed hu hne hw)

lemma pointer_kept (hb : ¬pointerMark <:+: b) (hclosed : Closed b) (hw : Joint w) :
    eraseSized pointerHintLength 0 (b ++ w) = b ++ eraseSized pointerHintLength 0 w :=
  eraseSized_append fun _ hu hne =>
    pointerHintLength_eq_none (not_begun seamsApart_pointer (by decide) hb hclosed hu hne hw)

lemma Unmarked.kept (h : Unmarked b) (hclosed : Closed b) : Kept b :=
  ⟨hclosed, fun _ hw => default_kept h.default hclosed hw, fun _ hw => pointer_kept h.pointer hclosed hw⟩

lemma joint_nil : Joint [] := Or.inl rfl

lemma Joint.append {v : Text} (h : Joint v) (hne : v ≠ []) (w : Text) : Joint (v ++ w) := by
  obtain ⟨s, hs, h⟩ := h.resolve_left hne
  exact .inr ⟨s, hs, h.trans (prefix_append _ _)⟩

lemma Kept.dropHints_eq (h : Kept b) : dropHints b = b := by
  have hd := h.default [] joint_nil
  have hp := h.pointer [] joint_nil
  rw [append_nil, eraseSized, append_nil] at hd hp
  rw [DocBlock.dropHints_eq, hd, hp, h.closed.trimRight_eq]

lemma Kept.append {r : Text} (hb : Kept b) (hr : Kept r) (hj : Joint r) : Kept (b ++ r) := by
  by_cases hne : r = []
  · rw [hne, append_nil]
    exact hb
  · refine ⟨fun c hc => hr.closed c ?_, fun w hw => ?_, fun w hw => ?_⟩
    · rw [getLast?_append_of_ne_nil _ hne] at hc
      exact hc
    · rw [append_assoc, hb.default _ (hj.append hne w), hr.default w hw, append_assoc]
    · rw [append_assoc, hb.pointer _ (hj.append hne w), hr.pointer w hw, append_assoc]

lemma Kept.dropHints_append {w' r : Text} (hb : Kept b) (hw : Joint w)
    (hdefault : eraseSized defaultHintLength 0 w = w') (hw' : Joint w') (hpointer : eraseSized pointerHintLength 0 w' = r)
    (hr : Kept r) (hj : Joint r) : dropHints (b ++ w) = b ++ r := by
  rw [DocBlock.dropHints_eq, hb.default w hw, hdefault, hb.pointer w' hw', hpointer, (hb.append hr hj).closed.trimRight_eq]

/-! ## The hints of a parameter -/

lemma default_taken {v w : Text} (hne : v ≠ []) (hfree : '(' ∉ v) (hw : w = [] ∨ ['('] <+: w) :
    eraseSized defaultHintLength 0 (defaultHint ++ v ++ w) = eraseSized defaultHintLength 0 w := by
  have htake : (v ++ w).takeWhile (· != '(') = v := by
    rcases hw with rfl | ⟨r, rfl⟩
    · rw [append_nil, takeWhile_ne hfree]
    · exact (span_ne hfree r).1
  refine @eraseSized_taken _ (defaultHint ++ v) w (fun h => hne (append_eq_nil_iff.mp h).2) ?_
  have hdrop : (defaultHint ++ v ++ w).drop defaultHint.length = v ++ w := by
    rw [append_assoc, drop_left]
  have hstart : startsWith (defaultHint ++ v ++ w) defaultHint := by
    rw [startsWith_iff, append_assoc]
    exact prefix_append _ _
  rw [defaultHintLength, hdrop, htake, hstart, Bool.true_and, if_pos, length_append]
  exact decide_eq_true (length_pos_iff.mpr hne)

lemma default_refused (r : Text) : defaultHintLength (defaultHint ++ '(' :: r) = none := by
  rw [defaultHintLength, drop_left]
  simp

lemma pointer_taken {inner w : Text} (hne : inner ≠ []) (hfree : ')' ∉ inner) :
    eraseSized pointerHintLength 0 (pointerHint ++ inner ++ [')'] ++ w) = eraseSized pointerHintLength 0 w := by
  obtain ⟨htake, hrest⟩ := span_ne hfree w
  refine @eraseSized_taken _ (pointerHint ++ inner ++ [')']) w (by simp) ?_
  have hdrop : (pointerHint ++ inner ++ [')'] ++ w).drop pointerHint.length = inner ++ ')' :: w := by
    rw [append_assoc, append_assoc, drop_left]
    rfl
  have hstart : startsWith (pointerHint ++ inner ++ [')'] ++ w) pointerHint := by
    rw [startsWith_iff, append_assoc, append_assoc]
    exact prefix_append _ _
  rw [pointerHintLength, hdrop, htake, hrest, hstart, Bool.true_and, if_pos, length_append, length_append]
  · rfl
  · rw [Bool.and_eq_true]
    exact ⟨decide_eq_true (length_pos_iff.mpr hne), rfl⟩

lemma closed_nil : Closed [] := by simp [Closed]

lemma closed_append (hne : u ≠ []) (hu : Closed u) : Closed (t ++ u) := by
  intro c hc
  rw [getLast?_append_of_ne_nil _ hne] at hc
  exact hu c hc

lemma closed_paren : Closed [')'] := by decide

lemma kept_nil : Kept [] := ⟨closed_nil, fun _ _ => rfl, fun _ _ => rfl⟩

lemma Kept.cons {c : Char} {t : Text} (hc : c ≠ ' ') (hne : t ≠ []) (h : Kept t) : Kept (c :: t) := by
  have hstart : ∀ {lit : Text} (w : Text), [' '] <+: lit → ¬lit <+: c :: (t ++ w) := by
    rintro lit w ⟨l, rfl⟩ ⟨y, hy⟩
    exact hc (List.cons.inj hy).1.symm
  refine ⟨closed_append (t := [c]) hne h.closed, fun w hw => ?_, fun w hw => ?_⟩
  · rw [cons_append, eraseSized_cons (defaultHintLength_eq_none (hstart w ⟨_, rfl⟩)), h.default w hw]
    rfl
  · rw [cons_append, eraseSized_cons (pointerHintLength_eq_none (hstart w ⟨_, rfl⟩)), h.pointer w hw]
    rfl

lemma kept_pointerRest {inner : Text} (h : Unmarked inner) : Kept ((pointerHint ++ inner ++ [')']).drop 1) := by
  have hrest : (pointerHint ++ inner ++ [')']).drop 1 = '(' :: (pointerHint.drop 2 ++ inner ++ [')']) := rfl
  rw [hrest]
  refine Kept.cons (by decide) (by simp) (Unmarked.kept ⟨fun hm => ?_, fun hm => ?_⟩ (closed_append (by simp) closed_paren))
  · rw [append_assoc] at hm
    have hm := infix_of_head_not_mem (by decide) hm
    rcases (infix_append_cons_iff (by decide)).mp hm with hm | hm
    · exact h.default hm
    · exact absurd hm (by decide)
  · rw [append_assoc] at hm
    have hm := infix_of_head_not_mem (by decide) hm
    rcases (infix_append_cons_iff (by decide)).mp hm with hm | hm
    · exact h.pointer hm
    · exact absurd hm (by decide)

lemma kept_openedDefault {v : Text} (h : Unmarked ('(' :: v)) (hv : Closed ('(' :: v)) : Kept (defaultHint ++ '(' :: v) := by
  have hclosed : Closed (defaultHint ++ '(' :: v) := closed_append (by simp) hv
  refine ⟨hclosed, fun w hw => ?_, fun w hw => pointer_kept ?_ hclosed hw⟩
  · have hrest : Kept ('–' :: (defaultHint.drop 2 ++ '(' :: v)) := by
      refine Kept.cons (by decide) (by simp) (Unmarked.kept ⟨fun hm => ?_, fun hm => ?_⟩ (closed_append (by simp) hv))
      · exact h.default (infix_of_head_not_mem (by decide) hm)
      · exact h.pointer (infix_of_head_not_mem (by decide) hm)
    have hsplit : ∀ w : Text, defaultHint ++ '(' :: v ++ w = ' ' :: ('–' :: (defaultHint.drop 2 ++ '(' :: v) ++ w) := fun _ => rfl
    have hnone := default_refused (v ++ w)
    rw [← cons_append, ← append_assoc, hsplit] at hnone
    rw [hsplit, eraseSized_cons hnone, hrest.default w hw]
    rfl
  · intro hm
    exact h.pointer (infix_of_head_not_mem (by decide) hm)

/-- The hints of the parameter can be taken off again: it has no default value, or one without opening parenthesis that no hint
at a function pointer follows. -/
def Removable (p : Text) : Prop := defaultValue p = [] ∨ ('(' ∉ defaultValue p ∧ pointerInner p = [])
  deriving Decidable

lemma trimmed_defaultValue (p : Text) : Trimmed (defaultValue p) := by
  rw [defaultValue]
  cases h : (splitDefault p).2 with
  | none => exact trimmed_nil
  | some d => exact trimmed_default h

lemma not_mem_pointerInner (p : Text) : ')' ∉ pointerInner p := by
  rw [pointerInner]
  cases h : functionPointer? (splitDefault p).1 with
  | none => simp
  | some n => exact (functionPointer_shape h).2

lemma joint_pointerPart (p : Text) : Joint (pointerPart p) := by
  rw [pointerPart]
  split
  · exact joint_nil
  · exact .inr ⟨" (", by decide, _, rfl⟩

lemma default_pointerPart (h : Unmarked p) : eraseSized defaultHintLength 0 (pointerPart p) = pointerPart p := by
  rw [pointerPart]
  split
  · rfl
  · have hmark : ¬defaultMark <:+: pointerHint ++ pointerInner p ++ [')'] := by
      intro hm
      rw [append_assoc] at hm
      rcases (infix_append_cons_iff (by decide)).mp (infix_of_head_not_mem (by decide) hm) with hm | hm
      · exact h.default (hm.trans (infix_pointerInner p))
      · exact absurd hm (by decide)
    simpa [eraseSized] using default_kept hmark (closed_append (by simp) closed_paren) joint_nil

lemma pointer_pointerPart (p : Text) : eraseSized pointerHintLength 0 (pointerPart p) = [] := by
  rw [pointerPart]
  split
  · rfl
  next hne =>
    simpa [eraseSized] using @pointer_taken (pointerInner p) [] (by simpa using hne) (not_mem_pointerInner p)

def hints (p : Text) : Text := defaultPart p ++ pointerPart p

lemma dropHints_hints (h : Unmarked p) :
    ∃ r, Kept r ∧ Joint r ∧ (r = [] ↔ Removable p) ∧ ∀ b, Kept b → dropHints (b ++ hints p) = b ++ r := by
  unfold hints
  have hvalue : Unmarked (defaultValue p) := h.of_part (infix_defaultValue p)
  have hclosed : Closed (defaultValue p) := (trimmed_defaultValue p).last
  by_cases hv : defaultValue p = []
  · -- There is no default value, so only the second pass has work to do.
    have hpart : defaultPart p = [] := by rw [defaultPart, hv]; rfl
    refine ⟨[], kept_nil, joint_nil, iff_of_true rfl (Or.inl hv), fun b hb => ?_⟩
    rw [hpart, nil_append]
    exact hb.dropHints_append (joint_pointerPart p) (default_pointerPart h) (joint_pointerPart p) (pointer_pointerPart p)
      kept_nil joint_nil
  · have hpart : defaultPart p = defaultHint ++ defaultValue p := by
      rw [defaultPart, if_neg (by simpa using hv)]
    have hjoint : ∀ w, Joint (defaultHint ++ defaultValue p ++ w) := fun w => .inr ⟨" –", by decide, _, rfl⟩
    rw [hpart]
    by_cases hparen : '(' ∈ defaultValue p
    · have hnot : ¬Removable p := fun hr => hr.elim hv fun hr => hr.1 hparen
      obtain ⟨v₁, v₂, hsplit, hv₁⟩ := eq_append_cons_of_mem hparen
      have hrest : Unmarked ('(' :: v₂) := hvalue.of_part (hsplit ▸ (suffix_append _ _).isInfix)
      have hrestClosed : Closed ('(' :: v₂) := hclosed.of_suffix (hsplit ▸ suffix_append _ _)
      by_cases hv₁nil : v₁ = []
      · -- A parenthesis opens the value: the hint is no hint to the first pass.
        rw [hv₁nil, nil_append] at hsplit
        rw [hsplit] at hjoint ⊢
        have hkept := kept_openedDefault hrest hrestClosed
        have hj : Joint (defaultHint ++ '(' :: v₂) := by simpa using hjoint []
        refine ⟨_, hkept, hj, iff_of_false (by simp) hnot, fun b hb => ?_⟩
        refine hb.dropHints_append (hjoint _) ?_ (hjoint (pointerPart p)) ?_ hkept hj
        · rw [hkept.default _ (joint_pointerPart p), default_pointerPart h]
        · rw [hkept.pointer _ (joint_pointerPart p), pointer_pointerPart, append_nil]
      · -- The first pass stops at the parenthesis.
        have hkept : Kept ('(' :: v₂) := hrest.kept hrestClosed
        have hj : Joint ('(' :: v₂) := .inr ⟨"(", by decide, _, rfl⟩
        refine ⟨_, hkept, hj, iff_of_false (by simp) hnot, fun b hb => ?_⟩
        refine hb.dropHints_append (hjoint _) ?_ (hj.append (by simp) (pointerPart p)) ?_ hkept hj
        · have htaken := @default_taken v₁ ('(' :: v₂ ++ pointerPart p) hv₁nil hv₁ (Or.inr ⟨_, rfl⟩)
          rw [hsplit]
          simp only [append_assoc] at htaken ⊢
          rw [htaken, hkept.default _ (joint_pointerPart p), default_pointerPart h]
        · rw [hkept.pointer _ (joint_pointerPart p), pointer_pointerPart, append_nil]
    · by_cases hinner : pointerInner p = []
      · have hpointer : pointerPart p = [] := by rw [pointerPart, hinner]; rfl
        refine ⟨[], kept_nil, joint_nil, iff_of_true rfl (Or.inr ⟨hparen, hinner⟩), fun b hb => ?_⟩
        rw [hpointer]
        exact hb.dropHints_append (hjoint []) (default_taken hv hparen (Or.inl rfl)) joint_nil rfl kept_nil joint_nil
      · -- The first pass takes the blank before the second hint with it, which the second pass misses.
        have hpointer : pointerPart p = pointerHint ++ pointerInner p ++ [')'] := by
          rw [pointerPart, if_neg (by simpa using hinner)]
          rfl
        have hkept := kept_pointerRest (h.of_part (infix_pointerInner p))
        have hopen : Joint ((pointerHint ++ pointerInner p ++ [')']).drop 1) := .inr ⟨"(", by decide, _, rfl⟩
        have hnot : ¬Removable p := fun hr => hr.elim hv fun hr => hinner hr.2
        have hne : (pointerHint ++ pointerInner p ++ [')']).drop 1 ≠ [] :=
          cons_ne_nil '(' (pointerHint.drop 2 ++ pointerInner p ++ [')'])
        refine ⟨_, hkept, hopen, iff_of_false hne hnot, fun b hb => ?_⟩
        rw [hpointer]
        refine hb.dropHints_append (hjoint _) ?_ hopen ?_ hkept hopen
        · have htaken := @default_taken (defaultValue p ++ [' ']) ((pointerHint ++ pointerInner p ++ [')']).drop 1)
            (by simp) (by simpa using hparen) (Or.inr ⟨_, rfl⟩)
          have hseam : defaultHint ++ (defaultValue p ++ [' ']) ++ (pointerHint ++ pointerInner p ++ [')']).drop 1 =
              defaultHint ++ defaultValue p ++ (pointerHint ++ pointerInner p ++ [')']) := by
            simp only [append_assoc]
            rfl
          rw [hseam] at htaken
          rw [htaken]
          simpa [eraseSized] using hkept.default [] joint_nil
        · simpa [eraseSized] using hkept.pointer [] joint_nil

lemma eraseSized_blanks {size : Text → Option Nat} (hsize : ∀ t, size (' ' :: ' ' :: t) = none ∧ size [' '] = none)
    {w : Text} (hw : w = [] ∨ [' '] <+: w) (k : Nat) :
    eraseSized size 0 (List.replicate k ' ' ++ w) = List.replicate k ' ' ++ eraseSized size 0 w := by
  induction k with
  | zero => rfl
  | succ k ih =>
    have hnone : size (' ' :: (List.replicate k ' ' ++ w)) = none := by
      cases k with
      | zero =>
        rcases hw with rfl | ⟨w, rfl⟩
        · exact (hsize []).2
        · exact (hsize w).1
      | succ k => exact (hsize _).1
    rw [replicate_succ, cons_append, eraseSized_cons hnone, ih]
    rfl

lemma default_blanks (t : Text) : defaultHintLength (' ' :: ' ' :: t) = none ∧ defaultHintLength [' '] = none := ⟨rfl, rfl⟩

lemma pointer_blanks (t : Text) : pointerHintLength (' ' :: ' ' :: t) = none ∧ pointerHintLength [' '] = none := ⟨rfl, rfl⟩

lemma dropHints_alone (h : Unmarked p) (hr : Removable p) (hb : Kept b) (k : Nat) :
    dropHints (b ++ (List.replicate (k + 2) ' ' ++ hints p)) = b := by
  have hjoint : ∀ w, Joint (List.replicate (k + 2) ' ' ++ w) := fun w =>
    .inr ⟨"  ", by decide, List.replicate k ' ' ++ w, by simp [replicate_succ]⟩
  have hpass : dropHints (b ++ (List.replicate (k + 2) ' ' ++ hints p)) = trimRight (b ++ List.replicate (k + 2) ' ') := by
    have hstart : ∀ q, pointerPart q = [] ∨ [' '] <+: pointerPart q := by
      intro q
      rw [pointerPart]
      split
      · exact .inl rfl
      · exact .inr ⟨_, rfl⟩
    have hblanks := hb.pointer (List.replicate (k + 2) ' ') (by simpa using hjoint [])
    have hend := eraseSized_blanks pointer_blanks (Or.inl rfl) (k + 2)
    simp only [eraseSized, append_nil] at hend
    rw [DocBlock.dropHints_eq, hb.default _ (hjoint _)]
    rcases hr with hv | ⟨hparen, hinner⟩
    · have hhints : hints p = pointerPart p := by rw [hints, defaultPart, hv]; rfl
      rw [hhints, eraseSized_blanks default_blanks (hstart p), default_pointerPart h, hb.pointer _ (hjoint _),
        eraseSized_blanks pointer_blanks (hstart p), pointer_pointerPart, append_nil]
    · by_cases hv : defaultValue p = []
      · have hhints : hints p = [] := by rw [hints, defaultPart, pointerPart, hv, hinner]; rfl
        rw [hhints, eraseSized_blanks default_blanks (Or.inl rfl), eraseSized, append_nil, hblanks, hend]
      · have hhints : hints p = defaultHint ++ defaultValue p ++ [] := by
          rw [hints, defaultPart, pointerPart, hinner, if_neg (by simpa using hv)]
          rfl
        have hblank : [' '] <+: defaultHint ++ defaultValue p ++ [] := ⟨_, rfl⟩
        rw [hhints, eraseSized_blanks default_blanks (Or.inr hblank), default_taken hv hparen (Or.inl rfl), eraseSized,
          append_nil, hblanks, hend]
  rw [hpass]
  refine trimRight_append ?_ hb.closed
  simp [isBlankLine, isBlank]

lemma Unmarked.dropHints_eq (h : Unmarked t) : dropHints t = trimRight t := by
  have hnone : ∀ {lit mark : Text}, mark <:+: lit → ¬mark <:+: t → ∀ u, u <:+ t → ¬lit <+: u ++ [] := by
    intro lit mark hmark ht u hu hp
    rw [append_nil] at hp
    exact ht (hmark.trans (hp.isInfix.trans hu.isInfix))
  have hdefault := @eraseSized_append defaultHintLength t [] fun u hu _ =>
    defaultHintLength_eq_none (hnone (by decide) h.default u hu)
  have hpointer := @eraseSized_append pointerHintLength t [] fun u hu _ =>
    pointerHintLength_eq_none (hnone (by decide) h.pointer u hu)
  rw [append_nil, eraseSized, append_nil] at hdefault hpointer
  rw [DocBlock.dropHints_eq, hdefault, hpointer]

end FunctionDocs.DocBlock
