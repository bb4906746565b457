import FunctionDocs.Proofs.Blanking
import FunctionDocs.Proofs.Edits
import FunctionDocs.Proofs.Segments

/-!
# Lines of a block and lines of a comment

A block goes from a line that starts with `/*` to the first line from there that ends with `*/`. The comment that is opened there may
end before the line does. If code stands behind its end, the block goes on: the lines below belong to the block as well, whether
they have to do with a comment or not. Every line of every block has part in a comment exactly if this harm is undone each time,
by a comment that is opened on the next line.
-/

open List

namespace FunctionDocs

namespace Code

open Text

variable {m : Mode} {l t : Text} {c : Char}

/-! ## The comments on a line -/

/-- The characters of block comments that a character completes, where a slash waits for the character behind it. -/
def Mode.comment : Mode → Char → Text
  | .slash, c => if c == '*' then ['/', c] else []
  | .block, c => [c]
  | .star, c => [c]
  | _, _ => []

def commentIn (m : Mode) : Text → Text
  | [] => []
  | c :: t => m.comment c ++ commentIn (m.step c).2 t

lemma commentIn_append (m : Mode) (t u : Text) : commentIn m (t ++ u) = commentIn m t ++ commentIn (scan m t).2 u := by
  induction t generalizing m with
  | nil => rfl
  | cons c t ih => rw [cons_append, commentIn, commentIn, scan, ih, append_assoc]

/-- A block comment is opened somewhere in a text that begins in code. -/
def OpensComment (t : Text) : Prop := ∃ p r, t = p ++ '/' :: '*' :: r ∧ (scan .plain p).2 = .plain

lemma OpensComment.commentIn_ne_nil (h : OpensComment t) : commentIn .plain t ≠ [] := by
  obtain ⟨p, r, rfl, hp⟩ := h
  rw [commentIn_append, hp]
  exact append_ne_nil_of_right_ne_nil _ (cons_ne_nil _ _)

lemma Mode.nextLine_step (h : (m.step c).2.nextLine = .block) : m.nextLine = .block ∨ m = .slash ∧ c = '*' := by
  cases m <;> simp only [step] at h <;> grind [nextLine]

lemma Mode.comment_ne_nil (h : m.comment c ≠ []) : m.nextLine = .block ∨ m = .slash ∧ c = '*' := by
  cases m <;> simp only [comment] at h <;> grind [nextLine]

lemma commentIn_of_block (h : (scan .plain t).2.nextLine = .block) : commentIn .plain t ≠ [] := by
  induction t using reverseRecOn with
  | nil => cases h
  | append_singleton t c ih =>
    rw [scan_append] at h
    rw [commentIn_append]
    rcases Mode.nextLine_step h with h | ⟨hslash, rfl⟩
    · exact append_ne_nil_of_left_ne_nil (ih h) _
    · rw [hslash]
      exact append_ne_nil_of_right_ne_nil _ (cons_ne_nil _ _)

lemma commentIn_plain_iff : commentIn .plain t ≠ [] ↔ OpensComment t := by
  refine ⟨fun h => ?_, OpensComment.commentIn_ne_nil⟩
  induction t using List.reverseRecOn with
  | nil => exact absurd rfl h
  | append_singleton t c ih =>
    by_cases hbefore : commentIn .plain t = []
    · -- the last character belongs to a comment, so it is the star that opens one
      rw [commentIn_append, hbefore] at h
      have hlast : (scan .plain t).2.comment c ≠ [] := by simpa [commentIn] using h
      obtain ⟨hslash, rfl⟩ := (Mode.comment_ne_nil hlast).resolve_left fun hblock => commentIn_of_block hblock hbefore
      rcases eq_nil_or_concat' t with rfl | ⟨p, d, rfl⟩
      · cases hslash
      · rw [scan_append] at hslash
        obtain ⟨hplain, rfl⟩ := Mode.step_slash hslash
        exact ⟨p, [], by simp, hplain⟩
    · obtain ⟨p, r, rfl, hp⟩ := ih hbefore
      exact ⟨p, r ++ [c], by simp, hp⟩

lemma commentIn_iff (hm : m.AtLine) {l : Text} : commentIn m l ≠ [] ↔ m = .block ∧ l ≠ [] ∨ m = .plain ∧ OpensComment l := by
  rcases hm with rfl | rfl
  · simp [commentIn_plain_iff]
  · cases l with
    | nil => simp [commentIn]
    | cons c l => simp [commentIn, Mode.comment]

lemma commentIn_feed_iff (hm : m.AtLine) {l : Text} :
    commentIn m (l ++ ['\n']) ≠ [] ↔ m = .block ∨ m = .plain ∧ OpensComment l := by
  rw [commentIn_iff hm]
  rcases hm with rfl | rfl
  · have hfeed : commentIn .plain (l ++ ['\n']) ≠ [] ↔ commentIn .plain l ≠ [] := by
      rw [commentIn_append]
      refine ⟨fun h hnil => ?_, fun h => append_ne_nil_of_left_ne_nil h _⟩
      rw [hnil] at h
      have hlast : (scan .plain l).2.comment '\n' ≠ [] := by simpa [commentIn] using h
      exact commentIn_of_block ((Mode.comment_ne_nil hlast).resolve_right fun hslash => absurd hslash.2 (by decide)) hnil
    rw [← commentIn_plain_iff, ← commentIn_plain_iff, hfeed]
    simp
  · simp

lemma exists_close (h : (scan .block t).2.nextLine = .plain) :
    ∃ p r, t = p ++ '*' :: '/' :: r ∧ (scan .block p).2.nextLine = .block ∧ (scan .plain r).2.nextLine = .plain := by
  cases hcut : cutFirst "*/" t with
  | none =>
    have hblock := (scan_block (not_infix_of_cutFirst hcut)).2.1
    rw [hblock] at h
    cases h
  | some cut =>
    obtain ⟨p, r⟩ := cut
    have hfirst : ¬"*/".toList <:+: p := fun hin =>
      not_infix_before_cut (by decide) hcut (hin.trans (prefix_append p _).isInfix)
    have hinside := (scan_block hfirst).2.1
    have hsplit : t = p ++ '*' :: '/' :: r := by simpa using cutFirst_eq_some hcut
    have hbehind : (scan (scan .block p).2 ('*' :: '/' :: r)).2 = (scan .plain r).2 := by
      cases hm : (scan .block p).2 with
      | block => rfl
      | star => rfl
      | _ => rw [hm] at hinside; cases hinside
    rw [hsplit, scan_append, hbehind] at h
    exact ⟨p, r, hsplit, hinside, h⟩

/-- A comment ends on a line and the line goes on: something other than white space stands behind it, and no comment is open at the end of
the line. -/
def LeavesComment (m : Mode) (l : Text) : Prop :=
  ∃ p r, l = p ++ '*' :: '/' :: r ∧ (scan m p).2.nextLine = .block ∧ isBlankLine r = false ∧ (scan .plain r).2.nextLine = .plain

lemma LeavesComment.nextLine (h : LeavesComment m l) : (scan m l).2.nextLine = .plain := by
  obtain ⟨p, r, rfl, hinside, -, hend⟩ := h
  rw [scan_append]
  cases hm : (scan m p).2 with
  | block => exact hend
  | star => exact hend
  | _ => rw [hm] at hinside; cases hinside

lemma leavesComment_of_end (htouches : m = .block ∨ m = .plain ∧ OpensComment l)
    (hend : (scan m l).2.nextLine = .plain) (hclose : endsWith (trim l) "*/" = false) : LeavesComment m l := by
  have hleaves : ∀ {p r : Text}, l = p ++ '*' :: '/' :: r → (scan m p).2.nextLine = .block → (scan .plain r).2.nextLine = .plain →
      LeavesComment m l := by
    intro p r hsplit hinside hbehind
    refine ⟨p, r, hsplit, hinside, ?_, hbehind⟩
    rw [Bool.eq_false_iff]
    intro hblank
    have hends : endsWith (trim (p ++ "*/" ++ r)) "*/" := Source.endsWith_trim ⟨by decide, by decide⟩ (by decide) p hblank
    rw [show p ++ "*/" ++ r = l by simp [hsplit], hclose] at hends
    cases hends
  rcases htouches with rfl | ⟨rfl, p₀, r₀, rfl, hp₀⟩
  · obtain ⟨p, r, hsplit, hinside, hbehind⟩ := exists_close hend
    exact hleaves hsplit hinside hbehind
  · -- the comment that is opened behind the first part ends in the second
    have hopen : ∀ t, scan .plain (p₀ ++ '/' :: '*' :: t) = ((scan .plain p₀).1 ++ (scan .block t).1, (scan .block t).2) := by
      intro t
      rw [scan_append, hp₀]
      rfl
    rw [hopen] at hend
    obtain ⟨p, r, rfl, hinside, hbehind⟩ := exists_close hend
    exact hleaves (p := p₀ ++ '/' :: '*' :: p) (by simp) (by rw [hopen]; exact hinside) hbehind

def modeAt (ls : List Text) (k : Nat) : Mode := (scanLines .plain (ls.take k)).2

lemma atLine_modeAt (ls : List Text) (k : Nat) : (modeAt ls k).AtLine := atLine_scanLines (.inl rfl) _

lemma modeAt_succ {ls : List Text} {k : Nat} (h : ls[k]? = some l) : modeAt ls (k + 1) = (scan (modeAt ls k) l).2.nextLine := by
  obtain ⟨hlt, rfl⟩ := List.getElem?_eq_some_iff.mp h
  rw [modeAt, take_succ_eq_append_getElem hlt, scanLines_append, scanLines_cons]
  rfl

end Code

namespace Source

open Text Code

variable {ls : List Text} {l : Text}

/-! ## The lines of a block -/

/-- Every line of every block, with `tail` behind it, has a character of a comment. -/
def Covered (tail : Text) (ls : List Text) : Prop :=
  ∀ b ∈ blocks ls, ∀ k : Nat, b.first ≤ k → k ≤ b.last → ∃ l, ls[k]? = some l ∧ commentIn (modeAt ls k) (l ++ tail) ≠ []

/-- Wherever a line of a block leaves a comment, another one is opened on the next line. -/
def Resumed (ls : List Text) : Prop :=
  ∀ b ∈ blocks ls, ∀ (k : Nat) (l next : Text), b.first ≤ k → k < b.last → ls[k]? = some l → ls[k + 1]? = some next →
    LeavesComment (modeAt ls k) l → OpensComment next

lemma commentIn_of_startsWith {m : Mode} (hm : m.AtLine) (h : startsWith (trim l) "/*") :
    m = .block ∨ m = .plain ∧ OpensComment l := by
  rcases hm with rfl | rfl
  · obtain ⟨a, r, ha, -, hsplit⟩ := trim_split l
    obtain ⟨u, hu⟩ := startsWith_iff.mp h
    refine .inr ⟨rfl, a, u ++ r, ?_, by rw [scan_blank (.inl rfl) ha]⟩
    rw [hsplit, ← hu]
    simp
  · exact .inl rfl

lemma touches_next {k : Nat} {next : Text} (hl : ls[k]? = some l) (hclose : endsWith (trim l) "*/" = false)
    (htouches : modeAt ls k = .block ∨ modeAt ls k = .plain ∧ OpensComment l)
    (hresumed : LeavesComment (modeAt ls k) l → OpensComment next) :
    modeAt ls (k + 1) = .block ∨ modeAt ls (k + 1) = .plain ∧ OpensComment next := by
  rcases atLine_modeAt ls (k + 1) with hplain | hblock
  · refine .inr ⟨hplain, hresumed (leavesComment_of_end htouches ?_ hclose)⟩
    rw [← modeAt_succ hl, hplain]
  · exact .inl hblock

lemma covered_feed_iff (ls : List Text) : Covered ['\n'] ls ↔ Resumed ls := by
  constructor
  · intro hcovered b hb k l next hfirst hlast hl hnext hleaves
    obtain ⟨l', hl', htouches⟩ := hcovered b hb (k + 1) (by omega) (by omega)
    obtain rfl : next = l' := Option.some.inj (hnext.symm.trans hl')
    have hplain : modeAt ls (k + 1) = .plain := by rw [modeAt_succ hl, hleaves.nextLine]
    rcases (commentIn_feed_iff (atLine_modeAt ls (k + 1))).mp htouches with hblock | ⟨-, hopens⟩
    · rw [hplain] at hblock
      cases hblock
    · exact hopens
  · intro hresumed b hb k hfirst hlast
    obtain ⟨first, last, rfl, hle, ⟨l₀, hl₀, hopen⟩, ⟨l₁, hl₁, -⟩, hclose⟩ := lines_of_block hb
    have hlt := (List.getElem?_eq_some_iff.mp hl₁).1
    replace hresumed := hresumed _ hb
    dsimp only at hfirst hlast hresumed
    have hrun : ∀ d, first + d ≤ last → ∃ l, ls[first + d]? = some l ∧
        (modeAt ls (first + d) = .block ∨ modeAt ls (first + d) = .plain ∧ OpensComment l) := by
      intro d
      induction d with
      | zero => exact fun _ => ⟨l₀, hl₀, commentIn_of_startsWith (atLine_modeAt ls first) hopen⟩
      | succ d ih =>
        intro hd
        obtain ⟨l, hl, htouches⟩ := ih (by omega)
        have hnext : ls[first + d + 1]? = some ls[first + d + 1] := getElem?_eq_getElem (by omega)
        exact ⟨_, hnext, touches_next hl (hclose _ l (by omega) (by omega) hl) htouches
          (hresumed (first + d) l _ (by omega) (by omega) hl hnext)⟩
    obtain ⟨l, hl, htouches⟩ := hrun (k - first) (by omega)
    rw [show first + (k - first) = k by omega] at hl htouches
    exact ⟨l, hl, (commentIn_feed_iff (atLine_modeAt ls k)).mpr htouches⟩

/-- Every line of every block has part in a comment, if line ends count, exactly if comments are resumed: wherever a comment is closed on
one of these lines and the line goes on without a comment, one is opened on the next line. If line ends do not count, then also
none of these lines is empty. -/
theorem blocks_covered_iff (ls : List Text) :
    (Covered ['\n'] ls ↔ Resumed ls) ∧
      (Covered [] ls ↔ Resumed ls ∧ ∀ b ∈ blocks ls, ∀ k : Nat, b.first ≤ k → k ≤ b.last → ls[k]? ≠ some []) := by
  refine ⟨covered_feed_iff ls, ?_⟩
  rw [← covered_feed_iff]
  have hfilled : ∀ (k : Nat) (l : Text),
      commentIn (modeAt ls k) (l ++ []) ≠ [] ↔ commentIn (modeAt ls k) (l ++ ['\n']) ≠ [] ∧ l ≠ [] := by
    intro k l
    rw [List.append_nil, commentIn_feed_iff (atLine_modeAt ls k), commentIn_iff (atLine_modeAt ls k)]
    have hopens : OpensComment l → l ≠ [] := by
      rintro ⟨p, r, rfl, -⟩
      simp
    tauto
  constructor
  · intro hcovered
    refine ⟨fun b hb k hfirst hlast => ?_, fun b hb k hfirst hlast hempty => ?_⟩
    · obtain ⟨l, hl, hpart⟩ := hcovered b hb k hfirst hlast
      exact ⟨l, hl, ((hfilled k l).mp hpart).1⟩
    · obtain ⟨l, hl, hpart⟩ := hcovered b hb k hfirst hlast
      exact ((hfilled k l).mp hpart).2 (Option.some.inj (hl.symm.trans hempty))
  · rintro ⟨hcovered, hnone⟩ b hb k hfirst hlast
    obtain ⟨l, hl, hpart⟩ := hcovered b hb k hfirst hlast
    exact ⟨l, hl, (hfilled k l).mpr ⟨hpart, fun hempty => hnone b hb k hfirst hlast (hempty ▸ hl)⟩⟩

def ledLines : List Text := ["/* a */ int x;", "int f() \x7b", "\x7d", "/* b */"]

/-- The block of `ledLines` goes on to the second comment and takes the function with it. -/
theorem led_not_covered :
    blocks ledLines = [⟨0, 3, unlines ledLines⟩] ∧ commentIn (modeAt ledLines 1) "int f() \x7b".toList = [] ∧
      commentIn (modeAt ledLines 2) "\x7d".toList = [] ∧ ¬Covered ['\n'] ledLines ∧ ¬Covered [] ledLines := by
  have hblocks : blocks ledLines = [⟨0, 3, unlines ledLines⟩] := by decide
  have hpart : ∀ tail, commentIn (modeAt ledLines 1) ("int f() \x7b".toList ++ tail) = [] → ¬Covered tail ledLines := by
    intro tail hnil hcovered
    obtain ⟨l, hl, hne⟩ := hcovered ⟨0, 3, unlines ledLines⟩ (by rw [hblocks]; exact List.mem_cons_self) 1 (by decide) (by decide)
    cases hl
    exact hne hnil
  exact ⟨hblocks, by decide, by decide, hpart _ (by decide), hpart _ (by decide)⟩

end Source

end FunctionDocs
