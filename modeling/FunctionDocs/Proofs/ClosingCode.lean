import FunctionDocs.Proofs.Braces
import FunctionDocs.Proofs.Twice

/-!
# Closing comments anywhere

A closing comment takes the place of what stands from the first `//` of the line on, or is put at the end of the line. The line is taken
as it stands, in code, in a literal or in a comment, and what becomes of the code depends on where the scan stands there. In code
the comment does no harm, unless the text of a line comment ends it too early; in a literal it always becomes part of the code; in
a block comment it ends this comment, so that the lines below are read as code.
-/

open List

namespace FunctionDocs

namespace Code

open Text

variable {m : Mode} {b line : Text}

/-! ## White space and the scan -/

/-- A literal that is open was opened by a quote. -/
def Mode.Quoted : Mode → Prop
  | .literal q => q = '"' ∨ q = '\''
  | .escape q => q = '"' ∨ q = '\''
  | _ => True

lemma quoted_step (h : m.Quoted) (c : Char) : (m.step c).2.Quoted := by
  cases m <;> simp only [Mode.step] <;> grind [Mode.Quoted]

lemma quoted_scan (h : m.Quoted) (t : Text) : (scan m t).2.Quoted := by
  induction t generalizing m with
  | nil => exact h
  | cons c t ih => exact ih (quoted_step h c)

lemma Mode.AtLine.quoted (h : m.AtLine) : m.Quoted := by
  rcases h with rfl | rfl <;> trivial

lemma step_blank (hm : m.Quoted) {c : Char} (hc : isBlank c) (hne : c ≠ '\n') : m.step c = m.step ' ' := by
  have hmarks : c ≠ '/' ∧ c ≠ '*' ∧ c ≠ '"' ∧ c ≠ '\'' ∧ c ≠ '\\' := by
    refine ⟨?_, ?_, ?_, ?_, ?_⟩ <;> (rintro rfl; exact absurd hc (by decide))
  have hsolid : solid c = [] ∧ solid ' ' = [] := ⟨if_pos hc, rfl⟩
  cases m <;> simp only [Mode.step] <;> grind [Mode.Quoted]

lemma step_blank_again (hm : m.Quoted) : (m.step ' ').2.step ' ' = ([], (m.step ' ').2) := by
  cases m with
  | literal q => rcases hm with rfl | rfl <;> rfl
  | escape q => rcases hm with rfl | rfl <;> rfl
  | _ => rfl

lemma scan_blanks_before (hm : m.Quoted) (hb : isBlankLine b) (hline : '\n' ∉ b) (t : Text) :
    scan m (b ++ ' ' :: t) = scan m (' ' :: t) := by
  induction b generalizing m with
  | nil => rfl
  | cons c b ih =>
    simp only [isBlankLine, all_cons, Bool.and_eq_true] at hb
    rw [mem_cons, not_or] at hline
    have hnext : scan (m.step ' ').2 (' ' :: t) = scan (m.step ' ').2 t := by
      rw [scan, step_blank_again hm]
      rfl
    rw [cons_append, scan, step_blank hm hb.1 (symm hline.1), ih (quoted_step hm ' ') hb.2 hline.2, hnext]
    rfl

lemma step_blank_end (hm : m.Quoted) : (m.step ' ').1 ++ (m.step ' ').2.flush = m.flush ∧ (m.step ' ').2.nextLine = m.nextLine := by
  cases m with
  | literal q => rcases hm with rfl | rfl <;> exact ⟨rfl, rfl⟩
  | escape q => rcases hm with rfl | rfl <;> exact ⟨rfl, rfl⟩
  | _ => exact ⟨rfl, rfl⟩

lemma scan_blanks_end (hm : m.Quoted) (hb : isBlankLine b) (hline : '\n' ∉ b) :
    (scan m b).1 ++ (scan m b).2.flush = m.flush ∧ (scan m b).2.nextLine = m.nextLine := by
  induction b generalizing m with
  | nil => exact ⟨rfl, rfl⟩
  | cons c b ih =>
    simp only [isBlankLine, all_cons, Bool.and_eq_true] at hb
    rw [mem_cons, not_or] at hline
    obtain ⟨hflush, hnext⟩ := ih (quoted_step hm ' ') hb.2 hline.2
    obtain ⟨hflush', hnext'⟩ := step_blank_end hm
    rw [scan, step_blank hm hb.1 (symm hline.1)]
    exact ⟨by rw [append_assoc, hflush, hflush'], hnext.trans hnext'⟩

/-! ## Lines that are put together -/

lemma scanLines_append_cons (m : Mode) (t u : Text) (below : List Text) :
    (scanLines m ((t ++ u) :: below)).1 = (scan m t).1 ++ (scanLines (scan m t).2 (u :: below)).1 := by
  rw [scanLines_cons, scanLines_cons, scan_append]
  simp only [append_assoc]

lemma scanLines_middle (above : List Text) (line : Text) (below : List Text) :
    (scanLines .plain (above ++ line :: below)).1 =
      (scanLines .plain above).1 ++ (scanLines (scanLines .plain above).2 (line :: below)).1 := by
  rw [scanLines_append]

lemma scanLines_trimRight (hm : m.Quoted) (hline : '\n' ∉ line) (below : List Text) :
    (scanLines m (line :: below)).1 = (scanLines m (trimRight line :: below)).1 := by
  obtain ⟨b, hb, hsplit⟩ := trimRight_split line
  have hnone : '\n' ∉ b := fun h => hline (by rw [hsplit]; exact mem_append_right _ h)
  obtain ⟨hflush, hnext⟩ := scan_blanks_end (quoted_scan hm (trimRight line)) hb hnone
  nth_rewrite 1 [hsplit]
  rw [scanLines_append_cons, scanLines_cons, scanLines_cons, hflush, hnext, append_assoc]

lemma scanLines_spaced (hm : m.Quoted) {t : Text} (ht : '\n' ∉ t) (u : Text) (below : List Text) :
    (scanLines m ((trimRight t ++ ' ' :: u) :: below)).1 = (scanLines m ((t ++ ' ' :: u) :: below)).1 := by
  obtain ⟨b, hb, hsplit⟩ := trimRight_split t
  have hnone : '\n' ∉ b := fun h => ht (by rw [hsplit]; exact mem_append_right _ h)
  nth_rewrite 2 [hsplit]
  rw [append_assoc, scanLines_append_cons, scanLines_append_cons, scanLines_cons, scanLines_cons,
    scan_blanks_before (quoted_scan hm (trimRight t)) hb hnone]

lemma codeOf_unlines_lines (ls : List Text) : codeOf (unlines ls) = (scanLines .plain ls).1 := by
  rw [← codeOf_unlines, codeOf_feed]

lemma codeOf_set_iff {ls : List Text} {k : Nat} {new : Text} (h : ls[k]? = some line) :
    codeOf (unlines (ls.set k new)) = codeOf (unlines ls) ↔
      (scanLines (scanLines .plain (ls.take k)).2 (new :: ls.drop (k + 1))).1 =
        (scanLines (scanLines .plain (ls.take k)).2 (line :: ls.drop (k + 1))).1 := by
  obtain ⟨hlt, rfl⟩ := List.getElem?_eq_some_iff.mp h
  have hold := scanLines_middle (ls.take k) ls[k] (ls.drop (k + 1))
  rw [← drop_eq_getElem_cons, take_append_drop] at hold
  rw [codeOf_unlines_lines, codeOf_unlines_lines, set_eq_take_append_cons_drop, if_pos hlt, scanLines_middle, hold,
    append_cancel_left_eq, ← drop_eq_getElem_cons]

lemma nextLine_closed (hm : m.Quoted) (t : Text) : (scan m (t ++ " */")).2.nextLine = .plain := by
  have hend : ∀ {k : Mode}, k.Quoted → (scan k " */").2.nextLine = .plain := by
    intro k hk
    cases k with
    | literal q => rcases hk with rfl | rfl <;> rfl
    | escape q => rcases hk with rfl | rfl <;> rfl
    | _ => rfl
  rw [scan_append]
  exact hend (quoted_scan hm t)

lemma slashes_of_scan (hm : m.AtLine) (t : Text) :
    ((scan m t).2 = .slash → ['/'] <:+ t) ∧ ((scan m t).2 = .lineComment → ['/', '/'] <:+: t) := by
  have hslash : ∀ {k : Mode} {c : Char}, (k.step c).2 = .slash → c = '/' := by
    intro k c hk
    cases k <;> simp only [Mode.step] at hk <;> grind
  have hcomment : ∀ {k : Mode} {c : Char}, (k.step c).2 = .lineComment → k = .slash ∧ c = '/' ∨ k = .lineComment := by
    intro k c hk
    cases k <;> simp only [Mode.step] at hk <;> grind
  induction t using List.reverseRecOn with
  | nil => rcases hm with rfl | rfl <;> exact ⟨by decide, by decide⟩
  | append_singleton t c ih =>
    rw [scan_append]
    refine ⟨fun hend => ?_, fun hend => ?_⟩
    · rw [hslash hend]
      exact suffix_append t ['/']
    · rcases hcomment hend with ⟨hopen, rfl⟩ | hopen
      · obtain ⟨u, rfl⟩ := ih.1 hopen
        exact ⟨u, [], by simp⟩
      · exact (ih.2 hopen).trans (prefix_append t [c]).isInfix

end Code

namespace Header

open Text Code

variable {m : Mode} {text name line : Text} {ls : List Text} {start : Nat}

/-! ## The code of the new line -/

lemma scan_literal (hm : m.Quoted) (hliteral : (∃ q, m = .literal q) ∨ ∃ q, m = .escape q) (t : Text) :
    (∃ r, (scan m (" /* " ++ t)).1 = '/' :: '*' :: r) ∧ ∃ r, (scan m ("//" ++ t)).1 = '/' :: '/' :: r := by
  rcases hliteral with ⟨q, rfl⟩ | ⟨q, rfl⟩ <;> rcases hm with rfl | rfl <;> exact ⟨⟨_, rfl⟩, ⟨_, rfl⟩⟩

/-- Lines hold the same code in a block comment and outside of it. -/
def SameInBlock (below : List Text) : Prop := (scanLines .plain below).1 = (scanLines .block below).1
  deriving Decidable

/-- The mark that closes a block comment may be put at the end of a line where the scan stands, above some lines: in a line comment
always, in a block comment if the lines below hold the same code inside and outside of it, in code and in a literal never. -/
def CloseKeeps (m : Mode) (below : List Text) : Prop :=
  match m with
  | .lineComment => True
  | .block | .star => SameInBlock below
  | .plain | .slash | .literal _ | .escape _ => False

/-- A comment may be put at the end of a line where the scan stands, above some lines: in code always, in a block comment if the lines
below hold the same code inside and outside of it, in a literal never. -/
def AppendKeeps (m : Mode) (below : List Text) : Prop :=
  match m with
  | .plain | .slash | .lineComment => True
  | .block | .star => SameInBlock below
  | .literal _ | .escape _ => False

/-- The slashes before a text may become a block comment around it where the scan stands, above some lines: in code if this comment holds
no code, in a block comment if a closing mark may be put behind the text, in a literal never. Behind a star the slashes close the
block comment and the text is read behind a slash, now it is read as part of the comment. -/
def RestyleKeeps (m : Mode) (text : Text) (below : List Text) : Prop :=
  match m with
  | .plain => codeOf (" /* " ++ trim text ++ " */") = []
  | .block => CloseKeeps (scan .block text).2 below
  | .star => (scanLines .block ((text ++ " */") :: below)).1 = (scanLines .slash (text :: below)).1
  | .slash | .lineComment | .literal _ | .escape _ => False

instance (m : Mode) (below : List Text) : Decidable (CloseKeeps m below) := by
  cases m <;> dsimp only [CloseKeeps] <;> infer_instance

instance (m : Mode) (below : List Text) : Decidable (AppendKeeps m below) := by
  cases m <;> dsimp only [AppendKeeps] <;> infer_instance

instance (m : Mode) (text : Text) (below : List Text) : Decidable (RestyleKeeps m text below) := by
  cases m <;> dsimp only [RestyleKeeps] <;> infer_instance

lemma closeKeeps_iff (hm : m.Quoted) (below : List Text) :
    (scanLines m (" */" :: below)).1 = (scanLines m ([] :: below)).1 ↔ CloseKeeps m below := by
  have hmore : ∀ u v : Text, u ++ '*' :: '/' :: v ≠ u ++ v := fun u v hsame => by
    have hlen := congrArg length hsame
    simp only [length_append, length_cons] at hlen
    omega
  cases m with
  | plain => exact iff_of_false (hmore [] _) id
  | slash => exact iff_of_false (hmore ['/'] _) id
  | lineComment => exact iff_of_true rfl trivial
  | literal q => rcases hm with rfl | rfl <;> exact iff_of_false (hmore [] _) id
  | escape q => rcases hm with rfl | rfl <;> exact iff_of_false (hmore [] _) id
  | block => exact .rfl
  | star => exact Iff.rfl

lemma scanLines_reopened (hm : m = .block ∨ m = .star) (hline : '\n' ∉ text) (below : List Text) :
    (scanLines m ((" /* " ++ trim text ++ " */") :: below)).1 = (scanLines .block ((text ++ " */") :: below)).1 := by
  obtain ⟨l, hl, hsplit⟩ := trimLeft_split text
  have hopen : ∀ t : Text, (scanLines m ((" /* " ++ t) :: below)).1 = (scanLines .block (t :: below)).1 := by
    rcases hm with rfl | rfl <;> exact fun _ => rfl
  have hrest : '\n' ∉ trimLeft text := fun h => hline (by rw [hsplit]; exact mem_append_right _ h)
  have hspaced := @scanLines_spaced .block trivial _ hrest "*/" below
  nth_rewrite 2 [hsplit]
  rw [append_assoc, hopen, append_assoc, scanLines_append_cons .block l, scan_blank (.inr rfl) hl]
  exact hspaced

lemma restyleKeeps_iff (hm : m.Quoted) (hslash : m ≠ .slash) (hcomment : m ≠ .lineComment)
    (hline : '\n' ∉ text) (below : List Text) :
    (scanLines m ((" /* " ++ trim text ++ " */") :: below)).1 = (scanLines m (("//" ++ text) :: below)).1 ↔
      RestyleKeeps m text below := by
  have hliteral : (∃ q, m = .literal q) ∨ (∃ q, m = .escape q) →
      (scanLines m ((" /* " ++ trim text ++ " */") :: below)).1 ≠ (scanLines m (("//" ++ text) :: below)).1 := by
    intro hliteral hsame
    obtain ⟨r, hr⟩ := (scan_literal hm hliteral (trim text ++ " */")).1
    obtain ⟨r', hr'⟩ := (scan_literal hm hliteral text).2
    rw [scanLines_cons, scanLines_cons, append_assoc " /* ".toList, hr, hr'] at hsame
    simp at hsame
  cases m with
  | plain =>
    have hold : scan .plain ("//" ++ text) = ([], .lineComment) := scan_lineComment hline
    have hnext := @nextLine_closed .plain trivial (" /* " ++ trim text)
    rw [scanLines_cons, scanLines_cons, hold, hnext]
    exact append_left_eq_self
  | slash => exact absurd rfl hslash
  | lineComment => exact absurd rfl hcomment
  | literal q => exact iff_of_false (hliteral (.inl ⟨q, rfl⟩)) id
  | escape q => exact iff_of_false (hliteral (.inr ⟨q, rfl⟩)) id
  | block =>
    have hold : (scanLines .block (("//" ++ text) :: below)).1 =
        (scan .block text).1 ++ (scanLines (scan .block text).2 ([] :: below)).1 := by
      have hend := scanLines_append_cons .block text [] below
      rw [append_nil] at hend
      exact hend
    rw [scanLines_reopened (.inl rfl) hline, hold, scanLines_append_cons, append_cancel_left_eq]
    exact closeKeeps_iff (@quoted_scan .block trivial text) below
  | star =>
    rw [RestyleKeeps, scanLines_reopened (.inr rfl) hline]
    exact Iff.rfl

lemma appendKeeps_iff (hm : m.Quoted) (hcomment : m ≠ .lineComment) (hname : NoClose name) (below : List Text) :
    (scanLines m ((" /* " ++ name ++ "() */") :: below)).1 = (scanLines m ([] :: below)).1 ↔ AppendKeeps m below := by
  have hscan := scan_nameComment hname
  have hliteral : (∃ q, m = .literal q) ∨ (∃ q, m = .escape q) →
      (scanLines m ((" /* " ++ name ++ "() */") :: below)).1 ≠ (scanLines m ([] :: below)).1 := by
    intro hliteral hsame
    have hshape : (" /* " ++ name ++ "() */" : Text) = " /* " ++ name ++ "()" ++ " */" := by simp
    have hnext := nextLine_closed hm (" /* " ++ name ++ "()")
    have hold : m.flush = [] ∧ m.nextLine = .plain := by
      rcases hliteral with ⟨q, rfl⟩ | ⟨q, rfl⟩ <;> exact ⟨rfl, rfl⟩
    obtain ⟨r, hr⟩ := (scan_literal hm hliteral (name ++ "() */")).1
    rw [← hshape] at hnext
    rw [scanLines_cons, scanLines_cons, hnext, scan, hold.1, hold.2, append_assoc " /* ".toList, hr] at hsame
    have hlen := congrArg length hsame
    simp at hlen
    omega
  cases m with
  | plain =>
    rw [scanLines_cons, hscan]
    exact iff_of_true rfl trivial
  | slash =>
    have hslash : scan .slash (" /* " ++ name ++ "() */") =
        ('/' :: (scan .plain (" /* " ++ name ++ "() */")).1, (scan .plain (" /* " ++ name ++ "() */")).2) := rfl
    rw [scanLines_cons, hslash, hscan]
    exact iff_of_true rfl trivial
  | literal q => exact iff_of_false (hliteral (.inl ⟨q, rfl⟩)) id
  | escape q => exact iff_of_false (hliteral (.inr ⟨q, rfl⟩)) id
  | lineComment => exact absurd rfl hcomment
  | block =>
    have hblock : scan .block (" /* " ++ name ++ "() */") = scan .plain (" /* " ++ name ++ "() */") := rfl
    rw [scanLines_cons, hblock, hscan]
    exact .rfl
  | star =>
    have hstar : scan .star (" /* " ++ name ++ "() */") = scan .plain (" /* " ++ name ++ "() */") := rfl
    rw [scanLines_cons, hstar, hscan]
    exact Iff.rfl

/-- The closing comment of a line keeps the code, if the scan stands in mode `m` before the line. -/
def ClosingKeeps (m : Mode) (bare : Text) (below : List Text) : Prop :=
  match cutFirst "//" bare with
  | some (code, text) => RestyleKeeps (scan m code).2 text below
  | none => closedComment.occursIn bare = true ∨ AppendKeeps (scan m bare).2 below

instance (m : Mode) (bare : Text) (below : List Text) : Decidable (ClosingKeeps m bare below) :=
  match h : cutFirst "//" bare with
  | some cut => decidable_of_iff (RestyleKeeps (scan m cut.1).2 cut.2 below) (by rw [ClosingKeeps, h])
  | none => decidable_of_iff (closedComment.occursIn bare = true ∨ AppendKeeps (scan m bare).2 below) (by rw [ClosingKeeps, h])

lemma closingKeeps_iff (hm : m.AtLine) (hname : NoClose name) (hline : '\n' ∉ line) (below : List Text) :
    (scanLines m (postLine name (trimRight line) :: below)).1 = (scanLines m (line :: below)).1 ↔
      ClosingKeeps m (trimRight line) below := by
  have hbare : '\n' ∉ trimRight line := fun h => hline (trimRight_subset line h)
  rw [scanLines_trimRight hm.quoted hline, postLine_eq hbare, ClosingKeeps]
  generalize trimRight line = bare at hbare
  cases hcut : cutFirst "//" bare with
  | some cut =>
    obtain ⟨code, text⟩ := cut
    obtain rfl := cutFirst_eq_some hcut
    have hcode : '\n' ∉ code := fun h => hbare (by simp [h])
    have htext : '\n' ∉ text := fun h => hbare (by simp [h])
    have hold : (scanLines m ((code ++ "//" ++ text) :: below)).1 =
        (scan m code).1 ++ (scanLines (scan m code).2 (("//" ++ text) :: below)).1 := by
      rw [append_assoc, scanLines_append_cons]
    have hnew : (scanLines m ((trimRight code ++ " /* " ++ trim text ++ " */") :: below)).1 =
        (scan m code).1 ++ (scanLines (scan m code).2 ((" /* " ++ trim text ++ " */") :: below)).1 := by
      have hshape : trimRight code ++ " /* " ++ trim text ++ " */" = trimRight code ++ ' ' :: ("/* " ++ trim text ++ " */") := by simp
      rw [hshape, scanLines_spaced hm.quoted hcode, scanLines_append_cons]
      rfl
    -- These slashes are the first of the line, so the scan is neither behind a slash nor in a line comment.
    have hfirst : ¬"//" <:+: code ++ ['/'] := not_infix_before_cut (by decide) hcut
    have hslash : (scan m code).2 ≠ .slash := fun h => by
      obtain ⟨u, rfl⟩ := (slashes_of_scan hm code).1 h
      exact hfirst ⟨u, [], by simp⟩
    have hcomment : (scan m code).2 ≠ .lineComment := fun h =>
      hfirst (((slashes_of_scan hm code).2 h).trans (prefix_append code _).isInfix)
    rw [hold, hnew, append_cancel_left_eq]
    exact restyleKeeps_iff (quoted_scan hm.quoted code) hslash hcomment htext below
  | none =>
    by_cases hclosed : closedComment.occursIn bare
    · rw [if_pos hclosed]
      exact iff_of_true rfl (.inl hclosed)
    · have hcomment : (scan m bare).2 ≠ .lineComment := fun h =>
        not_infix_of_cutFirst hcut ((slashes_of_scan hm bare).2 h)
      have hold := scanLines_append_cons m bare [] below
      rw [append_nil] at hold
      rw [if_neg hclosed, or_iff_right hclosed, hold, append_assoc bare, append_assoc bare, scanLines_append_cons,
        append_cancel_left_eq]
      exact appendKeeps_iff (quoted_scan hm.quoted bare) hcomment hname below

/-! ## The lines with a closing comment -/

/-- The function that starts on a line ends on line `k`, and up to there as many block comments are closed as are opened. -/
structure EndsAt (ls : List Text) (start k : Nat) (line : Text) : Prop where
  last : Source.endLine ls start = .ok (some (k : Int))
  here : ls[k]? = some line
  outside : insideBlock ls k = false

lemma EndsAt.unique {k k' : Nat} {line' : Text} (h : EndsAt ls start k line)
    (h' : EndsAt ls start k' line') : k' = k ∧ line' = line := by
  have hlast := Option.some.inj (Except.ok.inj (h'.last.symm.trans h.last))
  obtain rfl : k' = k := by omega
  exact ⟨rfl, Option.some.inj (h'.here.symm.trans h.here)⟩

lemma addPost_cases (name : Text) (hstart : start ≤ ls.length) :
    (addPost ls name start = .ok ls ∧ ∀ k line, ¬EndsAt ls start k line) ∨
    ∃ k line, EndsAt ls start k line ∧ addPost ls name start =
      .ok (ls.set k (if postLine name (trimRight line) = trimRight line then line else postLine name (trimRight line))) := by
  rcases Source.endLine_cases hstart with hnone | ⟨k, -, hlt, hlast⟩
  · refine .inl ⟨by rw [addPost, hnone]; rfl, fun k line h => ?_⟩
    rw [h.last] at hnone
    cases hnone
  · have hitem : itemAt? ls (k : Int) = some ls[k] := by
      rw [itemAt?, if_pos (by omega), Int.toNat_natCast, getElem?_eq_getElem hlt]
    have hresult : addPost ls name start = if insideBlock ls k = true then .ok ls
        else .ok (if postLine name (trimRight ls[k]) = trimRight ls[k] then ls
          else putAt ls k (postLine name (trimRight ls[k]))) := by
      simp only [addPost, hlast, hitem, bind, Except.bind, pure, Except.pure]
    cases hinside : insideBlock ls k with
    | true =>
      refine .inl ⟨by rw [hresult, if_pos hinside], fun k' line h => ?_⟩
      have heq := Option.some.inj (Except.ok.inj (h.last.symm.trans hlast))
      obtain rfl : k' = k := by omega
      rw [h.outside] at hinside
      cases hinside
    | false =>
      refine .inr ⟨k, ls[k], ⟨hlast, getElem?_eq_getElem hlt, hinside⟩, ?_⟩
      rw [hresult, if_neg (by simp [hinside])]
      split
      · rw [set_getElem_self]
      · rfl

/-- A closing comment changes one line at most. It keeps the code exactly if, on the line where the function ends, it is put in code with
a text that stays a comment, or in a block comment that the lines below do not need. -/
theorem addPost_code_iff {ls : List Text} {name : Text} {start : Nat} (hname : NoClose name) (hstart : start < ls.length) :
    ∃ ls', addPost ls name start = .ok ls' ∧ ls'.length = ls.length ∧ (∃ k : Nat, ∀ i, i ≠ k → ls'[i]? = ls[i]?) ∧
      ((∀ l ∈ ls, '\n' ∉ l) → (codeOf (unlines ls') = codeOf (unlines ls) ↔
        ∀ k line, EndsAt ls start k line →
          ClosingKeeps (scanLines .plain (ls.take k)).2 (trimRight line) (ls.drop (k + 1)))) := by
  rcases addPost_cases name (Nat.le_of_lt hstart) with ⟨hresult, hnone⟩ | ⟨k, line, hends, hresult⟩
  · exact ⟨ls, hresult, rfl, ⟨0, fun _ _ => rfl⟩, fun _ => iff_of_true rfl fun k line h => absurd h (hnone k line)⟩
  · refine ⟨_, hresult, List.length_set, ⟨k, fun i hi => List.getElem?_set_ne (Ne.symm hi)⟩, fun hlines => ?_⟩
    have hatLine : (scanLines .plain (ls.take k)).2.AtLine := atLine_scanLines (.inl rfl) _
    have hline : '\n' ∉ line := hlines _ (List.mem_of_getElem? hends.here)
    have hplace : (∀ k' line', EndsAt ls start k' line' →
          ClosingKeeps (scanLines .plain (ls.take k')).2 (trimRight line') (ls.drop (k' + 1))) ↔
        ClosingKeeps (scanLines .plain (ls.take k)).2 (trimRight line) (ls.drop (k + 1)) := by
      refine ⟨fun h => h k _ hends, fun h k' line' hends' => ?_⟩
      obtain ⟨rfl, rfl⟩ := hends.unique hends'
      exact h
    rw [codeOf_set_iff hends.here, hplace, ← closingKeeps_iff hatLine hname hline]
    split
    · rename_i hsame
      rw [hsame, ← scanLines_trimRight hatLine.quoted hline]
    · exact Iff.rfl

def slashedEnd : List Text := ["int f() \x7b", "  s = \"// \x7d\";", "\x7d  // see http://x.y"]

/-- The line comment of `slashedEnd` becomes a block comment and the code stays. -/
theorem slashedEnd_code :
    addPost slashedEnd "f" 0 = .ok ["int f() \x7b", "  s = \"// \x7d\";", "\x7d /* see http://x.y */"] ∧
      codeOf (unlines ["int f() \x7b", "  s = \"// \x7d\";", "\x7d /* see http://x.y */"]) = codeOf (unlines slashedEnd) := by
  have hresult : addPost slashedEnd "f" 0 = .ok ["int f() \x7b", "  s = \"// \x7d\";", "\x7d /* see http://x.y */"] := by decide
  have hlast : EndsAt slashedEnd 0 2 "\x7d  // see http://x.y" := ⟨by decide, rfl, by decide⟩
  obtain ⟨ls', hls', -, -, hcode⟩ := @addPost_code_iff slashedEnd "f" 0 (by decide) (by decide)
  obtain rfl := Except.ok.inj (hresult.symm.trans hls')
  refine ⟨hresult, (hcode (by decide)).mpr fun k line hends => ?_⟩
  obtain ⟨rfl, rfl⟩ := hlast.unique hends
  decide

def linkedEnd : List Text := ["void f() \x7b g(\"http://x\"); \x7d"]

/-- The slashes in the literal of `linkedEnd` are taken for a comment: the literal is cut, and what stood behind it becomes code. -/
theorem linkedEnd_loses_code :
    addPost linkedEnd "f" 0 = .ok ["void f() \x7b g(\"http: /* x\"); \x7d */"] ∧
      codeOf (unlines ["void f() \x7b g(\"http: /* x\"); \x7d */"]) ≠ codeOf (unlines linkedEnd) := by
  decide

end Header

end FunctionDocs
