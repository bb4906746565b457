import FunctionDocs.Proofs.Inline
import FunctionDocs.Proofs.Outline

/-!
# Block comments over several lines

A block comment that takes whole lines is hidden, if its first line is joined with no other and its end is joined with no code. So it
defines no function, whatever it says.
-/

open List

namespace FunctionDocs.Source

open Text

/-- The lines of a block comment: one that opens it, lines within it and one that closes it. They are more than one line after
joining, the first of which is a line of its own. -/
@[mk_iff]
structure CommentBlock (first : Text) (mid : List Text) (last : Text) : Prop where
  opening : startsWith (trim first) "/*" = true
  unclosed : contains first "*/" = false
  brace : '}' ∉ first
  within : ∀ l ∈ mid, endsWith (trim l) "*/" = false
  closing : endsWith (trim last) "*/" = true
  several : 2 ≤ (joinLines (first :: mid ++ [last])).length

instance (first : Text) (mid : List Text) (last : Text) : Decidable (CommentBlock first mid last) :=
  decidable_of_iff _ (commentBlock_iff ..).symm

/-! ## Blocks -/

section CommentBlock

variable {first last : Text} {mid : List Text}

lemma CommentBlock.first_open (h : CommentBlock first mid last) : endsWith (trim first) "*/" = false := by
  rw [← Bool.not_eq_true]
  intro hend
  exact contains_eq_false_iff.mp h.unclosed ((endsWith_iff.mp hend).isInfix.trans (infix_trim first))

lemma CommentBlock.blockOpen_eq (h : CommentBlock first mid last) : blockOpen false (first :: mid ++ [last]) = false := by
  have hopen : blockOpen false [first] := by rw [blockOpen, h.opening, h.first_open]; rfl
  have hclose : blockOpen true [last] = false := by rw [blockOpen, h.closing]; rfl
  have hshape : first :: mid ++ [last] = [first] ++ mid ++ [last] := rfl
  rw [hshape, blockOpen_append, blockOpen_append, hopen, blockOpen_within h.within, hclose]

lemma CommentBlock.blocks_eq (h : CommentBlock first mid last) :
    blocks (first :: mid ++ [last]) = [⟨0, (mid.length + 1 : Nat), unlines (first :: mid ++ [last])⟩] := by
  have hopen : blockWith 0 first none = some (0, [first]) := by rw [blockWith, h.opening]; rfl
  rw [cons_append, blocks, blocksFrom_cons, hopen]
  simp only [h.first_open]
  rw [blocksFrom_within h.within, blocksFrom_cons, blockWith]
  simp only [h.closing, blocksFrom]
  simp
  omega

end CommentBlock

/-! ## Lines that stand alone -/

lemma beginLine_alone {l : Text} (h : standsAlone (trim l)) (i : Nat) : beginLine i l = .inl ⟨l, i, i⟩ := by
  rw [beginLine, h]
  rfl

/-! ## Hidden lines -/

lemma mem_markFrom {bs : List Block} {i : Nat} {js : List Joined} {x : Joined × Bool} (h : x ∈ markFrom bs i js) :
    ∃ k, i ≤ k ∧ k < i + js.length ∧ x.2 = inBlocks k bs := by
  induction js generalizing i with
  | nil => cases h
  | cons j js ih =>
    rcases mem_cons.mp h with rfl | h
    · exact ⟨i, le_refl i, by simp, rfl⟩
    · obtain ⟨k, hlow, hhigh, hx⟩ := ih h
      exact ⟨k, by omega, by rw [length_cons]; omega, hx⟩

lemma startsOn_hidden {xs : List (Joined × Bool)} (h : ∀ x ∈ xs, x.2) (below : List Joined) : startsOn below xs = .ok [] := by
  induction xs with
  | nil => rfl
  | cons x xs ih =>
    obtain ⟨hx, hxs⟩ := forall_mem_cons.mp h
    exact startsOn_cons.mpr ⟨none, [], by rw [headAt, if_pos hx], ih hxs, rfl⟩

section CommentBlock

variable {first last : Text} {mid : List Text}

lemma CommentBlock.first_code (h : CommentBlock first mid last) : trim (dropInline first) ≠ [] := by
  intro hnil
  rcases blank_of_dropInline (trim_eq_nil_iff.mp hnil) with hblank | ⟨u, w, hu, -⟩
  · have hopen := h.opening
    rw [trim_eq_nil_iff.mpr hblank] at hopen
    cases hopen
  · exact absurd ⟨u, w, hu.symm⟩ (contains_eq_false_iff.mp h.unclosed)

lemma CommentBlock.joinLines_eq (h : CommentBlock first mid last) :
    ∃ j js, joinLines (first :: mid ++ [last]) = j :: js ∧ j.first = 0 ∧ js ≠ [] ∧ ∀ k ∈ js, 1 ≤ k.first ∧ k.first < mid.length + 2 := by
  have halone : standsAlone (trim first) := by
    rw [standsAlone, startsWithAny_of_mem (by simp) h.opening, Bool.or_true]
    rfl
  have hbrace : '}' ∉ trim (dropInline first) := fun hmem => h.brace (dropInline_subset _ (trim_subset _ hmem))
  have hsplit : ((⟨first, 0, 0⟩ : Joined).splitDefinitions).flatMap Joined.splitBody = [⟨trim (dropInline first), 0, 0⟩] := by
    rw [splitDefinitions_eq hbrace, if_neg h.first_code, flatMap_singleton, splitBody_eq hbrace]
  have hjoined : joinLines (first :: mid ++ [last]) = ⟨trim (dropInline first), 0, 0⟩ ::
      ((joinFrom 1 none (mid ++ [last])).flatMap Joined.splitDefinitions).flatMap Joined.splitBody := by
    rw [joinLines, cons_append, joinFrom, Option.bind_none, beginLine_alone halone]
    rw [Option.map_none, Option.toList_none, nil_append, flatMap_cons, flatMap_append, hsplit]
    rfl
  refine ⟨_, _, hjoined, rfl, ?_, fun k hk => ?_⟩
  · intro hnil
    have hmany := h.several
    rw [hjoined, hnil, length_singleton] at hmany
    omega
  · rw [flatMap_assoc] at hk
    obtain ⟨j, hj, hk⟩ := mem_flatMap.mp hk
    have hbounds := (@tiles_joinFrom (mid ++ [last]) 1 none (by simp)).bounds j hj
    have hfirst : k.first = j.first := (mem_pieces hk).1.1
    rw [length_append, length_singleton, openFrom, Option.map_none, Option.getD_none] at hbounds
    omega

lemma CommentBlock.hiddenBlocks_eq (h : CommentBlock first mid last) :
    hiddenBlocks (first :: mid ++ [last]) =
      [⟨0, ((joinLines (first :: mid ++ [last])).length - 1 : Nat), unlines (first :: mid ++ [last])⟩] := by
  obtain ⟨j, js, hjoined, hzero, hne, hbounds⟩ := h.joinLines_eq
  have hstarts : lineStarts (first :: mid ++ [last]) = 0 :: js.map fun j => (j.first : Int) := by
    rw [lineStarts, hjoined, map_cons, hzero]
    rfl
  have hmem : ∀ s ∈ js.map (fun j => (j.first : Int)), 0 < s ∧ s ≤ (mid.length + 1 : Nat) := by
    intro s hs
    obtain ⟨k, hk, rfl⟩ := mem_map.mp hs
    have := hbounds k hk
    omega
  -- the block starts on the first joined line; no line starts below its last one, so it ends where the lines do
  have hfirst : startedBy (lineStarts (first :: mid ++ [last])) 0 = 1 := by
    rw [hstarts, startedBy_cons, startedBy_eq_zero_iff.mpr fun s hs => (hmem s hs).1]
    rfl
  have hlast : startedBy (lineStarts (first :: mid ++ [last])) (mid.length + 1 : Nat) = js.length + 1 := by
    rw [hstarts, startedBy_eq_length (forall_mem_cons.mpr ⟨by omega, fun s hs => (hmem s hs).2⟩), length_cons, length_map]
  have hmany : js.length ≠ 0 := fun hempty => hne (eq_nil_of_length_eq_zero hempty)
  rw [hiddenBlocks, h.blocks_eq, blocksOnJoined, map_singleton, onJoined_of_mem (by rw [h.blocks_eq]; exact mem_cons_self), hfirst,
    hlast, hjoined]
  refine filter_cons_of_pos (bne_iff_ne.mpr ?_)
  dsimp only
  omega

lemma CommentBlock.marked_eq (h : CommentBlock first mid last) : ∀ x ∈ marked (first :: mid ++ [last]), x.2 := by
  intro x hx
  rw [marked, h.hiddenBlocks_eq] at hx
  obtain ⟨k, -, hk, hmark⟩ := mem_markFrom hx
  rw [hmark, inBlocks, any_cons, any_nil, Bool.or_false, Bool.and_eq_true, decide_eq_true_eq, decide_eq_true_eq]
  dsimp only
  omega

lemma CommentBlock.startsOver_eq (h : CommentBlock first mid last) (below : List Joined) :
    startsOver below (first :: mid ++ [last]) = .ok [] := startsOn_hidden h.marked_eq below

end CommentBlock

end FunctionDocs.Source
