import FunctionDocs.Proofs.Dangling
import FunctionDocs.Proofs.Standing

/-!
# Placeholders in the functions that are found

The return type, the parameters and the template parameters of a function are cut out of a masked line with no placeholder cut, and are
restored; so they hold no placeholder. The name is reported as it stands in the masked line. So the functions of a text are free of
placeholders exactly when restoring the names that are read would change none of them.
-/

namespace FunctionDocs.Source

open Text Pattern

/-- A function in which no placeholder is left. -/
@[mk_iff]
structure Function.Unmasked (f : Function) : Prop where
  name : contains f.name "__TPL" = false
  returnType : contains f.returnType "__TPL" = false
  params : contains f.params "__TPL" = false
  templateParams : ∀ p ∈ f.templateParams, contains p "__TPL" = false

/-- A joined line that does not hold the letters of a mark, and on which no comment is left when its head is looked for: one is left only
if a comment or a template head was taken out between a slash and a star. -/
@[mk_iff]
structure Clean (j : Joined) : Prop where
  letters : contains j.text "TPL" = false
  comments : dropInline (readTemplate (mask j.text) none).2 = (readTemplate (mask j.text) none).2

instance (f : Function) : Decidable f.Unmasked := decidable_of_iff _ (Function.unmasked_iff ..).symm

instance (j : Joined) : Decidable (Clean j) := decidable_of_iff _ (clean_iff ..).symm

/-! ## Lines -/

variable {j : Joined} {s : Sheet} {before : List Function} {template : PendingTemplate}

lemma Clean.free (h : Clean j) : ¬markLetters <:+: j.text := contains_eq_false_iff.mp h.letters

lemma Clean.sound (h : Clean j) : Sound (mask j.text).parts := (maskedAs_mask j.text).sound h.free

lemma Clean.standing (h : Clean j) : Standing (mask j.text).parts (mask j.text).text := ⟨_, (maskedAs_mask j.text).stands h.free⟩

lemma Clean.standing_headLine (h : Clean j) : Standing (mask j.text).parts (headLine j) := by
  have hline : Standing (mask j.text).parts (readTemplate (mask j.text) none).2 := by
    simp only [readTemplate]
    split
    · split
      · exact h.standing.erase h.sound
      · exact h.standing
    · exact h.standing
  rw [headLine, headText, h.comments]
  exact (hline.beforeSlashes h.sound).trimRight h.sound

lemma Clean.readTemplate (h : Clean j) {pending : PendingTemplate}
    (hpending : ∀ p ∈ pending.join, contains p "__TPL" = false) :
    ∀ p ∈ (readTemplate (mask j.text) pending).1.join, contains p "__TPL" = false := by
  intro p hp
  rw [Source.readTemplate] at hp
  split at hp
  case isFalse => exact hpending p hp
  split at hp
  case h_2 => cases hp
  rename_i found hfound
  cases hp
  obtain ⟨w, digits, r, hne, hw, hdigits, hpart, hline⟩ := templateHead_params hfound
  have hwhole := h.standing.trim h.sound
  rw [hline] at hwhole
  have hkey := (hwhole.cut h.sound (safeCut_blank_left hw hne)).2
  obtain ⟨⟨q, hq, hqx⟩, -⟩ := hkey.placeholder h.sound hdigits
  rw [hpart, ← hqx]
  exact ((standing_key hq).trim h.sound).restore_unmarked h.sound

/-! ## Heads -/

variable {m : Masked} {c : HeadCut} {head : Head}

lemma isWordChar_of_isKeyChar {d : Char} (h : isKeyChar d) : isWordChar d := by
  have hletters : ∀ e ∈ '_' :: markLetters, isWordChar e := by decide
  rw [isKeyChar, Bool.or_eq_true] at h
  rcases h with h | hdigit
  · refine hletters d ?_
    simpa using h
  · rw [isWordChar, hdigit]
    simp

lemma restore_short (hparts : Sound m.parts) {t : Text} (ht : t.length ≤ 1) : contains (m.restore t) "__TPL" = false := by
  have hlong : ∀ {q : Text}, mark <+: q → ¬q <:+: t := by
    intro q hq hin
    have h₁ := hq.length_le
    have h₂ := hin.length_le
    have h₃ : mark.length = 5 := rfl
    omega
  have hself : m.restore t = t := by
    refine (restore_eq_self_iff hparts).mpr fun p hp => hlong ?_
    obtain ⟨n, hn⟩ := hparts.key p hp
    rw [hn]
    exact ⟨ofNat n ++ ['_', '_'], rfl⟩
  rw [hself, contains_eq_false_iff]
  exact hlong (List.prefix_refl mark)

lemma HeadCut.Reads.returnType_unmasked (hparts : Sound m.parts) (hline : Standing m.parts c.line) (h : c.Reads head) :
    contains (m.restore head.returnType) "__TPL" = false := by
  rw [h.returnType]
  have hrest : Standing m.parts (c.type ++ (c.gap ++ (c.name ++ c.behind ++ '(' :: c.params ++ ')' :: c.tail))) := by
    refine .after_blank hparts h.lead ?_
    simpa [line] using hline
  have hcut : ∀ {b : Text}, Standing m.parts (c.type ++ b) → SafeCut c.type b → contains (m.restore (trim c.type)) "__TPL" = false :=
    fun hb hseam => ((hb.cut hparts hseam).1.trim hparts).restore_unmarked hparts
  by_cases hgap : c.gap = []
  case neg => exact hcut hrest (safeCut_blank_right h.gap hgap)
  rcases h.seam with hshort | hlast | hgap' | ⟨r, hr⟩
  · exact restore_short hparts ((infix_trim c.type).length_le.trans hshort)
  · refine hcut hrest (.inl fun d hd => ?_)
    rw [← Bool.not_eq_true]
    exact fun hkey => absurd (isWordChar_of_isKeyChar hkey) (by rw [hlast d hd]; decide)
  · exact absurd hgap hgap'
  · refine hcut hrest (.inr fun d hd => ?_)
    rw [hgap, ← hr] at hd
    cases hd
    decide

lemma HeadCut.Reads.params_unmasked (hparts : Sound m.parts) (hline : Standing m.parts c.line) (h : c.Reads head) :
    contains (m.restore head.params) "__TPL" = false := by
  rw [h.params]
  have hparen : Standing m.parts ((c.lead ++ c.type ++ c.gap ++ c.name ++ c.behind ++ ['(']) ++ (c.params ++ ')' :: c.tail)) := by
    simpa [line] using hline
  have hbehind := (hparen.cut hparts (.inl fun d hd => by
    rw [List.getLast?_concat] at hd
    cases hd
    decide)).2
  have hparams := (hbehind.cut hparts (.inr fun d hd => by
    cases hd
    decide)).1
  exact (hparams.trim hparts).restore_unmarked hparts

lemma HeadCut.Reads.name_unmasked_iff (hparts : Sound m.parts) (hline : Standing m.parts c.line) (h : c.Reads head) :
    contains head.name "__TPL" = false ↔ m.restore head.name = head.name := by
  rw [h.name]
  have hsplit : Standing m.parts ((c.lead ++ c.type ++ c.gap) ++ c.name ++ (c.behind ++ '(' :: (c.params ++ ')' :: c.tail))) := by
    simpa [line] using hline
  refine (hsplit.restore_eq_self_iff hparts fun d hd => ?_).symm
  cases hb : c.behind with
  | nil =>
    rw [hb] at hd
    cases hd
    decide
  | cons b r =>
    rw [hb] at hd
    cases hd
    exact isKeyChar_of_isBlank (isBlankLine_iff.mp h.behind d (by rw [hb]; exact List.mem_cons_self))

/-! ## Functions -/

/-- On marked lines, the names of the heads that are read are not changed by restoring. -/
def KeepsNames (xs : List (Joined × Bool)) : Prop :=
  ∀ above x below, xs = above ++ x :: below → ∀ name params, headAt x (below.map (·.1)) = .ok (some (name, params)) →
    (mask x.1.text).restore name = name

lemma keepsNames_cons {x : Joined × Bool} {xs : List (Joined × Bool)} :
    KeepsNames (x :: xs) ↔
      (∀ name params, headAt x (xs.map (·.1)) = .ok (some (name, params)) → (mask x.1.text).restore name = name) ∧ KeepsNames xs := by
  constructor
  · refine fun h => ⟨h [] x xs rfl, fun above y below hxs => h (x :: above) y below (by rw [hxs]; rfl)⟩
  · rintro ⟨hx, hxs⟩ above y below heq
    cases above with
    | nil =>
      cases heq
      exact hx
    | cons z above =>
      cases heq
      exact hxs above y below rfl

lemma Clean.function_unmasked_iff (h : Clean j) {below : List Joined} {f : Function} (hread : readHead (headLine j) below = .ok (some head))
    (htemplate : ∀ p ∈ template.join, contains p "__TPL" = false) (hf : s.function before (mask j.text) template j head = .ok f) :
    f.Unmasked ↔ (mask j.text).restore head.name = head.name := by
  obtain ⟨c, hline, hreads⟩ := readHead_cut hread
  have hstanding := h.standing_headLine
  rw [hline] at hstanding
  obtain ⟨comment, -, rfl⟩ := Sheet.function_ok hf
  rw [← hreads.name_unmasked_iff h.sound hstanding]
  exact ⟨Function.Unmasked.name, fun hname =>
    ⟨hname, hreads.returnType_unmasked h.sound hstanding, hreads.params_unmasked h.sound hstanding, htemplate⟩⟩

lemma functionsFrom_unmasked_iff {hidden : List Block} {js : List Joined} {i : Nat}
    {fs : List Function} (hclean : ∀ x ∈ markFrom hidden i js, x.2 = false → Clean x.1)
    (htemplate : ∀ p ∈ template.join, contains p "__TPL" = false) (h : s.functionsFrom hidden i template before js = .ok fs) :
    ∃ new, fs = before ++ new ∧ ((∀ f ∈ new, f.Unmasked) ↔ KeepsNames (markFrom hidden i js)) := by
  induction js generalizing i template before with
  | nil =>
    cases h
    refine ⟨[], (List.append_nil _).symm, fun _ above x below heq => ?_, fun _ => nofun⟩
    simp [markFrom] at heq
  | cons j js ih =>
    rw [markFrom] at hclean ⊢
    obtain ⟨hj, hrest⟩ := List.forall_mem_cons.mp hclean
    rw [keepsNames_cons, map_markFrom]
    rcases functionsFrom_cons h with ⟨hhead, h⟩ | ⟨head, f, hin, hread, hhead, hf, h⟩
    · obtain ⟨new, hnew, hiff⟩ := ih hrest (by
        split
        · exact htemplate
        next hin =>
          exact (hj (Bool.not_eq_true _ |>.mp hin)).readTemplate htemplate) h
      refine ⟨new, hnew, hiff.trans ⟨fun hkeeps => ⟨fun name params hsome => ?_, hkeeps⟩, And.right⟩⟩
      rw [hhead] at hsome
      cases hsome
    · obtain ⟨new, hnew, hiff⟩ := ih hrest (by simp) h
      refine ⟨f :: new, by rw [hnew, List.append_assoc]; rfl, ?_⟩
      have hfirst := (hj hin).function_unmasked_iff hread ((hj hin).readTemplate htemplate) hf
      rw [List.forall_mem_cons, hfirst, hiff, hin, hhead]
      refine and_congr_left fun _ => ⟨fun hname name params hsome => ?_, fun hall => hall head.name _ rfl⟩
      cases hsome
      exact hname

/-- The functions of a text with clean lines hold no placeholder exactly if restoring would change no name that is read. -/
theorem functionsOf_unmasked_iff {content file : Text} {fs : List Function}
    (hclean : ∀ x ∈ marked content.lines, x.2 = false → Clean x.1) (h : functionsOf content file = .ok fs) :
    (∀ f ∈ fs, f.Unmasked) ↔ KeepsNames (marked content.lines) := by
  obtain ⟨new, hnew, hiff⟩ := functionsFrom_unmasked_iff hclean (by simp) h
  rw [hnew]
  exact hiff

def bracketedText : Text := "template <class K>\nmap<K, list<int>> Table::rows(const set<K> &keys) \x7b\n\x7d\n"

/-- The function of `bracketedText`. -/
def bracketedFunction : Function :=
  ⟨"Table::rows", "map<K, list<int>>", "const set<K> &keys", false, [], false, [], 1, 1, true, some "<class K>".toList⟩

/-- All brackets of `bracketedText` are back in its function. -/
theorem bracketed_unmasked :
    (∀ x ∈ marked bracketedText.lines, x.2 = false → Clean x.1) ∧ functionsOf bracketedText [] = .ok [bracketedFunction] ∧
      bracketedFunction.Unmasked ∧ KeepsNames (marked bracketedText.lines) := by
  have hclean : ∀ x ∈ marked bracketedText.lines, x.2 = false → Clean x.1 := by decide
  have hfound : functionsOf bracketedText [] = .ok [bracketedFunction] := by decide
  have hfree : ∀ f ∈ [bracketedFunction], f.Unmasked := by decide
  exact ⟨hclean, hfound, hfree bracketedFunction List.mem_cons_self, (functionsOf_unmasked_iff hclean hfound).mp hfree⟩

def qualifiedText : Text := "void Foo<int>::bar() \x7b\n\x7d\n"

/-- The function of `qualifiedText`. -/
def qualifiedFunction : Function := ⟨"Foo__TPL0__::bar", "void", [], false, [], false, [], 0, 1, false, none⟩

/-- The placeholder for the template arguments of a class is left in the name of a member function. -/
theorem qualified_not_unmasked :
    contains qualifiedText "TPL" = false ∧ (∀ x ∈ marked qualifiedText.lines, x.2 = false → Clean x.1) ∧
      functionsOf qualifiedText [] = .ok [qualifiedFunction] ∧ contains qualifiedFunction.name "__TPL" = true := by
  decide

end FunctionDocs.Source
