import FunctionDocs.Proofs.HeaderRoundTrip

/-!
# Runs of line comments that become a header

The last lines above a function that are not blank may be line comments. The longest run of them becomes a header: each line of the
run gives one line of the header that carries its text, blank lines around the run give way to two empty lines above the header, and
every other line stays. A header made in this way is no run of line comments, so nothing is left to do a second time.
-/

open List

namespace FunctionDocs.Header

open Text Code Source

variable {l : Text} {ls : List Text} {start : Nat}

/-! ## The run above a function -/

/-- Lines end in a run of line comments, which is as long as it can be; blank lines may follow it. -/
structure EndsInRun (above before run : List Text) : Prop where
  split : ∃ gap, above = before ++ run ++ gap ∧ ∀ l ∈ gap, isBlankLine l = true
  nonempty : run ≠ []
  slashes : ∀ l ∈ run, isSlashLine l = true
  longest : ∀ l ∈ before.getLast?, isSlashLine l = false

lemma isBlankLine_of_isSlashLine (h : isSlashLine l) : isBlankLine l = false := by
  rw [Bool.eq_false_iff]
  intro hblank
  rw [isSlashLine, trim_eq_nil_iff.mpr hblank] at h
  cases h

lemma EndsInRun.eq {before run : List Text} (h : EndsInRun (ls.take start) before run) :
    before = slashBefore ls start ∧ run = slashRun ls start := by
  obtain ⟨⟨gap, hsplit, hgap⟩, hne, hslashes, hlongest⟩ := h
  have hup : (ls.take (start : Int).toNat).reverse.dropWhile isBlankLine = run.reverse ++ before.reverse := by
    rw [Int.toNat_natCast, hsplit, reverse_append, reverse_append, dropWhile_append_of_pos fun l hl => hgap l (mem_reverse.mp hl)]
    obtain ⟨l, rest, hrest⟩ := exists_cons_of_ne_nil (mt reverse_eq_nil_iff.mp hne)
    have hl : l ∈ run := mem_reverse.mp (by rw [hrest]; exact mem_cons_self)
    rw [hrest, cons_append, dropWhile_cons_of_neg (ne_true_of_eq_false (isBlankLine_of_isSlashLine (hslashes l hl)))]
  have hrun : ∀ l ∈ run.reverse, isSlashLine l := fun l hl => hslashes l (mem_reverse.mp hl)
  have hstop : ∀ l ∈ before.reverse.head?, isSlashLine l = false := by
    rw [head?_reverse]
    exact hlongest
  obtain ⟨htake, hdrop⟩ := span_append hrun hstop
  rw [slashBefore, slashRun, hup, htake, hdrop, reverse_reverse, reverse_reverse]
  exact ⟨rfl, rfl⟩

lemma endsInRun_slashRun (h : slashRun ls start ≠ []) : EndsInRun (ls.take start) (slashBefore ls start) (slashRun ls start) := by
  obtain ⟨gap, hgap, hsplit⟩ := slashRun_split ls start
  refine ⟨⟨gap, ?_, hgap⟩, h, fun l hl => mem_takeWhile_imp (mem_reverse.mp hl), fun l hl => ?_⟩
  · rw [append_assoc]
    exact hsplit
  · rw [slashBefore, getLast?_reverse] at hl
    have hstop := head?_dropWhile_not isSlashLine ((ls.take (start : Int).toNat).reverse.dropWhile isBlankLine)
    rw [hl] at hstop
    simpa using hstop

/-! ## The header made of a run -/

/-- A line of a header carries the text of a line comment: what stands behind the two slashes, without the white space around it. -/
def Carried (l row : Text) : Prop :=
  ∃ left gap text right, l = left ++ "//" ++ gap ++ text ++ right ∧ isBlankLine left = true ∧ isBlankLine gap = true ∧
    isBlankLine right = true ∧ Trimmed text ∧ row = if text = [] then " *".toList else " * " ++ text

lemma carried_starLine (h : isSlashLine l) : Carried l (starLine (slashText l)) := by
  obtain ⟨left, right, hleft, hright, hl⟩ := trim_split l
  obtain ⟨rest, hrest⟩ := startsWith_iff.mp h
  obtain ⟨gap, tail, hgap, htail, htext⟩ := trim_split rest
  have hslash : slashText l = trim rest := by
    rw [slashText, ← hrest]
    rfl
  refine ⟨left, gap, slashText l, tail ++ right, ?_, hleft, hgap, ?_, ?_, ?_⟩
  · rw [hslash]
    nth_rewrite 1 [hl]
    rw [← hrest]
    nth_rewrite 1 [htext]
    simp only [append_assoc]
  · rw [isBlankLine, List.all_append, Bool.and_eq_true]
    exact ⟨htail, hright⟩
  · exact trimmed_trim _
  · rw [starLine]
    simp only [List.isEmpty_iff]

def withBlock (ls : List Text) (start : Nat) : List Text :=
  withGap (slashBefore ls start) ++ framed ((slashRun ls start).map fun l => starLine (slashText l)) ++ ls.drop start

lemma slashToBlock_of_le (hle : start ≤ ls.length) :
    slashToBlock ls start = .ok (if slashRun ls start = [] then ls else withBlock ls start) := by
  by_cases hrun : slashRun ls start = []
  · rw [slashToBlock]
    split
    · rfl
    · rw [if_neg (by omega)]
      rw [if_pos]
      rw [List.isEmpty_iff]
      exact hrun
  · rw [if_neg hrun, slashToBlock_eq hle, withBlock]
    rw [slashAbove]
    cases habove : (ls.take (start : Int).toNat).reverse.dropWhile isBlankLine with
    | nil => rw [slashRun, habove] at hrun; exact absurd rfl hrun
    | cons l above =>
      by_contra hl
      rw [slashRun, habove, takeWhile_cons_of_neg (p := isSlashLine) hl] at hrun
      exact hrun rfl

lemma slashRun_of_last {xs below : List Text} (hblank : isBlankLine l = false) (hslash : isSlashLine l = false) :
    slashRun (xs ++ [l] ++ below) ((xs ++ [l]).length : Nat) = [] := by
  rw [slashRun, Int.toNat_natCast, take_left, reverse_append, reverse_singleton, singleton_append,
    dropWhile_cons_of_neg (ne_true_of_eq_false hblank), takeWhile_cons_of_neg (ne_true_of_eq_false hslash)]
  rfl

/-- A run of line comments above a function becomes a header that carries their texts, and all other lines stay as they are but for
the blank lines around the run; without such a run nothing changes. Doing it again changes nothing. -/
theorem slashToBlock_keeps {ls : List Text} {start : Nat} (hle : start ≤ ls.length) :
    ∃ ls' : List Text, slashToBlock ls start = .ok ls' ∧
      (∀ before run, EndsInRun (ls.take start) before run →
        ∃ rows, List.Forall₂ Carried run rows ∧
          ls' = dropBlankTail before ++ [[], []] ++ (openingLine :: rows ++ closingLines) ++ ls.drop start) ∧
      ((¬∃ before run, EndsInRun (ls.take start) before run) → ls' = ls) ∧
      slashToBlock ls' (start + ls'.length - ls.length) = .ok ls' := by
  by_cases hrun : slashRun ls start = []
  · have hsame : slashToBlock ls start = .ok ls := by rw [slashToBlock_of_le hle, if_pos hrun]
    refine ⟨ls, hsame, fun before run h => ?_, fun _ => rfl, ?_⟩
    · exact absurd (h.eq.2.trans hrun) h.nonempty
    · rw [Int.add_sub_cancel]
      exact hsame
  · have hends := endsInRun_slashRun hrun
    refine ⟨withBlock ls start, by rw [slashToBlock_of_le hle, if_neg hrun], fun before run h => ?_, fun hnone => ?_, ?_⟩
    · obtain ⟨rfl, rfl⟩ := h.eq
      refine ⟨_, ?_, rfl⟩
      rw [List.forall₂_map_right_iff, List.forall₂_same]
      exact fun l hl => carried_starLine (h.slashes l hl)
    · exact absurd ⟨_, _, hends⟩ hnone
    · -- the line above the function is now the one that closes the header
      obtain ⟨xs, hxs⟩ : ∃ xs, withBlock ls start = xs ++ ["*/".toList] ++ ls.drop start :=
        ⟨_, by rw [withBlock, framed_eq, ← List.append_assoc]⟩
      rw [hxs, start_behind hle, slashToBlock_of_le (by simp), if_pos]
      exact slashRun_of_last (by decide) (by decide)

/-- Line comments with a blank line below them, of which one is empty, and another one further up that does not belong to the run. -/
def slashedLines : List Text := ["// apart", "int x;", "", "//   Adds  a ", "\t//", "//b", " ", "int f() \x7b"]

/-- `slashedLines` with a header in place of the three line comments above the function. -/
def slashedBlock : List Text :=
  (["// apart", "int x;", "", ""] : List Text) ++ framed [" * Adds  a", " *", " * b"] ++ (["int f() \x7b"] : List Text)

/-- The three line comments above the function of `slashedLines` become a header, and a second time nothing changes. -/
theorem slashed_keeps :
    EndsInRun (slashedLines.take 7) ["// apart", "int x;", ""] ["//   Adds  a ", "\t//", "//b"] ∧
      slashToBlock slashedLines 7 = .ok slashedBlock ∧ slashToBlock slashedBlock 10 = .ok slashedBlock := by
  have hends : EndsInRun (slashedLines.take 7) ["// apart", "int x;", ""] ["//   Adds  a ", "\t//", "//b"] :=
    ⟨⟨[" "], by decide, by decide⟩, by decide, by decide, by decide⟩
  have hresult : slashToBlock slashedLines 7 = .ok slashedBlock := by decide
  obtain ⟨ls', hls', -, -, hagain⟩ := @slashToBlock_keeps slashedLines 7 (by decide)
  cases Except.ok.inj (hls'.symm.trans hresult)
  exact ⟨hends, hresult, hagain⟩

end FunctionDocs.Header
