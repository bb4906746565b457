import FunctionDocs.Header.Basic
import FunctionDocs.Proofs.CommentBlock

/-!
# Lines that give way to a header

A header is a block comment in a frame. Its lines are hidden, so they define no function; put above a line that is firm, it
becomes the comment of the functions that start there. Lines that define no function and stand apart from their neighbours can
give way to a header: the functions keep their names, their parameters and their numbers, and only those that start directly below
get another comment.
-/

open List

namespace FunctionDocs.Source

open Text Header

variable {α β : Type} {R S : α → β → Prop} {xs : List α} {ys : List β} {file : Text} {ls' : List Text} {gs : List Function}

/-! ## Framed blocks -/

def framed (body : List Text) : List Text := openingLine :: body ++ closingLines

/-- A line that may stand within a block comment. -/
@[mk_iff]
structure Starred (l : Text) : Prop where
  star : startsWith (trim l) "*" = true
  close : ¬"*/".toList <:+: l

def inner (body : List Text) : List Text := body ++ [" * ----------------------------------------------------------------------------".toList]

lemma framed_eq (body : List Text) : framed body = openingLine :: inner body ++ ["*/".toList] := by
  simp [framed, inner, closingLines]

lemma Starred.endsWith {l : Text} (h : Starred l) : endsWith (trim l) "*/" = false := by
  rw [Bool.eq_false_iff]
  intro hend
  exact h.close ((endsWith_iff.mp hend).isInfix.trans (infix_trim l))

/-- A framed block has more than one line after joining: its first and its last line stand alone. -/
lemma several_framed (body : List Text) : 2 ≤ (joinLines (openingLine :: inner body ++ ["*/".toList])).length := by
  obtain ⟨j, hj, hfirst⟩ := @exists_first_of_alone [] (inner body ++ ["*/".toList]) openingLine (by decide) (by decide) (by decide)
  obtain ⟨k, hk, hlast⟩ := @exists_first_of_alone (openingLine :: inner body) [] "*/".toList (by decide) (by decide) (by decide)
  by_contra hfew
  obtain ⟨x, hx⟩ := length_eq_one_iff.mp (Nat.le_antisymm (Nat.le_of_not_lt hfew) (length_pos_of_mem hk))
  rw [nil_append, ← cons_append, hx, mem_singleton] at hj
  rw [hx, mem_singleton] at hk
  rw [hk, ← hj, hfirst] at hlast
  cases hlast

lemma cut_gap (ls : List Text) : Cut [[], []] ls := ⟨by decide, Or.inl (by decide)⟩

lemma joinAfter_alone {ls : List Text} (h : ∀ l ∈ ls, standsAlone (trim l)) (i : Nat) : joinAfter i none ls = none := by
  induction ls generalizing i with
  | nil => rfl
  | cons l ls ih =>
    obtain ⟨hl, hls⟩ := forall_mem_cons.mp h
    rw [joinAfter, beginLine_alone hl]
    exact ih hls (i + 1)

lemma prefix_unlines (t : Text) (ls : List Text) : t <+: unlines (t :: ls) := by
  cases ls with
  | nil => exact prefix_refl t
  | cons u ls => exact ⟨_, (append_assoc _ _ _).symm⟩

section Starred

variable {body : List Text} (h : ∀ l ∈ body, Starred l)

include h

lemma starred_inner : ∀ l ∈ inner body, Starred l := by
  intro l hl
  rcases mem_append.mp hl with hl | hl
  · exact h l hl
  · rw [mem_singleton.mp hl]
    exact ⟨by decide, by decide +kernel⟩

lemma forall_framed {P : Text → Prop} (hopen : P openingLine)
    (hinner : ∀ l, Starred l → P l) (hclose : P "*/") : ∀ l ∈ framed body, P l := by
  intro l hl
  rw [framed_eq, cons_append, mem_cons, mem_append, mem_singleton] at hl
  rcases hl with rfl | hl | rfl
  · exact hopen
  · exact hinner l (starred_inner h l hl)
  · exact hclose

lemma standsAlone_framed : ∀ l ∈ framed body, standsAlone (trim l) := by
  refine forall_framed h (by decide) (fun l hl => ?_) (by decide)
  rw [standsAlone, startsWithAny_of_mem (by simp) hl.star, Bool.or_true]
  rfl

lemma commentBlock_framed : CommentBlock openingLine (inner body) "*/" where
  opening := by decide
  unclosed := by decide
  brace := by decide
  within l hl := (starred_inner h l hl).endsWith
  closing := by decide
  several := several_framed body

lemma blockOpen_framed : blockOpen false (framed body) = false := framed_eq body ▸ (commentBlock_framed h).blockOpen_eq

lemma blocks_framed : blocks (framed body) = [⟨0, (body.length + 2 : Nat), unlines (framed body)⟩] := by
  rw [framed_eq, (commentBlock_framed h).blocks_eq, inner, length_append, length_singleton]

lemma startsOver_framed (below : List Joined) :
    startsOver below (framed body) = .ok [] := framed_eq body ▸ (commentBlock_framed h).startsOver_eq below

/-! ## Headers behind a gap -/

def gapped (body : List Text) : List Text := [[], []] ++ framed body

lemma blockOpen_gapped : blockOpen false (gapped body) = false := by
  rw [gapped, blockOpen_append, (cut_gap []).block, blockOpen_framed h]

lemma cut_gapped (B : List Text) : Cut (gapped body) B := by
  refine ⟨blockOpen_gapped h, .inl ?_⟩
  rw [joinAfter_alone, Option.isNone_none]
  intro l hl
  rcases mem_append.mp hl with hl | hl
  · have hnil : l = [] := by simpa using hl
    rw [hnil]
    rfl
  · exact standsAlone_framed h l hl

lemma startsOver_gapped (below : List Joined) : startsOver below (gapped body) = .ok [] := by
  refine (startsOver_append (cut_gap _)).mpr ⟨[], [], ?_, startsOver_framed h below, rfl⟩
  rfl

lemma isBlockLine_framed : (framed body).all isBlockLine := by
  refine all_eq_true.mpr (forall_framed h (by decide) (fun l hl => ?_) (by decide))
  rw [isBlockLine, hl.star, Bool.or_true]

end Starred

lemma commentOf_framed {X body : List Text} (hX : blockOpen false X = false) (h : ∀ l ∈ body, Starred l) (B : List Text) :
    commentOf (X ++ framed body ++ B) (X ++ framed body).length = unlines (framed body) := by
  have hlen : (X ++ framed body).length = X.length + (body.length + 3) := by
    simp [framed_eq, inner]
  have hblocks : blocks (X ++ framed body) =
      blocks X ++ [⟨(X.length : Int), ((body.length + 2 : Nat) : Int) + X.length, unlines (framed body)⟩] := by
    rw [blocks_append hX, blocks_framed h, map_singleton, Block.move, Int.zero_add]
  have hlow : (X.length : Int).toNat = X.length := Int.toNat_natCast _
  have hhigh : (((body.length + 2 : Nat) : Int) + X.length + 1).toNat = (X ++ framed body).length := by
    rw [hlen]
    omega
  have hlast : decide (((body.length + 2 : Nat) : Int) + X.length < ((X ++ framed body).length : Int)) := by
    rw [hlen, decide_eq_true_eq]
    omega
  have hblock : blockOver (X ++ framed body) (X ++ framed body).length (blocks (X ++ framed body)).reverse = unlines (framed body) := by
    rw [hblocks, reverse_append, reverse_singleton, singleton_append, blockOver, hlow, hhigh, hlast, take_length,
      drop_left, isBlockLine_framed h, drop_length]
    rfl
  have hne : (unlines (framed body)).isEmpty = false := isEmpty_eq_false_iff.mpr ((prefix_unlines openingLine _).ne_nil (by decide))
  rw [commentOf_append B (Nat.le_refl _), commentOf, hblock, hne]
  rfl

/-! ## Exchange -/

lemma Start.move_move (m n : Nat) (s : Start) : (s.move m).move n = s.move (m + n) := by
  rw [move, move, move, Nat.add_assoc]

lemma startsOver_exchange {A M M' B : List Text} (hA : Cut A (M ++ B)) (hA' : Cut A (M' ++ B)) (hM : Cut M B) (hM' : Cut M' B)
    (hbody : bodyFollows (joinLines (M ++ B)) → bodyFollows (joinLines (M' ++ B)))
    (hsame : startsOver (joinLines B) M' = startsOver (joinLines B) M) {ss : List Start} (h : startsOver [] (A ++ (M ++ B)) = .ok ss) :
    ∃ a m b : List Start, (∀ s ∈ a, s.line < A.length) ∧ startsOver (joinLines B) M = .ok m ∧
      ss = a ++ m.map (Start.move A.length) ++ b.map (Start.move (A ++ M).length) ∧
      startsOver [] (A ++ (M' ++ B)) = .ok (a ++ m.map (Start.move A.length) ++ b.map (Start.move (A ++ M').length)) := by
  obtain ⟨a, mb, ha, hmb, rfl⟩ := (startsOver_append hA).mp h
  obtain ⟨m, b, hm, hb, rfl⟩ := (startsOver_append hM).mp hmb
  rw [append_nil] at ha hm
  have hmoved : ∀ N : List Text, (m ++ b.map (Start.move N.length)).map (Start.move A.length) =
      m.map (.move A.length) ++ b.map (.move (A ++ N).length) := by
    intro N
    rw [map_append, map_map, length_append, Nat.add_comm A.length]
    refine congrArg _ (map_congr_left fun s _ => Start.move_move _ _ s)
  refine ⟨a, m, b, startsOver_lt ha, hm, by rw [hmoved, append_assoc], ?_⟩
  refine (startsOver_append hA').mpr ⟨a, m ++ b.map (.move M'.length), ?_, ?_, by rw [hmoved, append_assoc]⟩
  · rw [append_nil]
    exact startsOn_mono hbody ha
  · exact (startsOver_append hM').mpr ⟨m, b, by rw [append_nil, hsame, hm], hb, rfl⟩

/-! ## Functions below a new header -/

def between (ls : List Text) (lo hi : Nat) : List Text := (ls.take hi).drop lo

lemma between_append {ls : List Text} {lo hi : Nat} (h : lo ≤ hi) : between ls lo hi ++ ls.drop hi = ls.drop lo := by
  rw [between]
  by_cases hlen : lo ≤ ls.length
  · nth_rewrite 3 [← take_append_drop hi ls]
    rw [drop_append_of_le_length (by rw [length_take]; omega)]
  · rw [drop_eq_nil_of_le (by rw [length_take]; omega), drop_eq_nil_of_le (by omega), drop_eq_nil_of_le (by omega)]
    rfl

/-- Lines up to a start give way to a header: they define no function, stand apart from the lines above and below, and the lines
of the header do not end it. -/
@[mk_iff]
structure Recast (ls : List Text) (kept start : Nat) (body : List Text) : Prop where
  le : kept ≤ start
  above : Cut (ls.take kept) (ls.drop kept)
  below : Cut (between ls kept start) (ls.drop start)
  mute : startsOver (joinLines (ls.drop start)) (between ls kept start) = .ok []
  brace : bodyFollows (joinLines (ls.drop kept)) = false
  firm : ∃ l, ls[start]? = some l ∧ Firm l
  body : ∀ l ∈ body, Starred l

def recast (ls : List Text) (kept start : Nat) (body : List Text) : List Text := ls.take kept ++ gapped body ++ ls.drop start

instance (l : Text) : Decidable (Starred l) := decidable_of_iff _ (starred_iff ..).symm

instance (ls : List Text) (kept start : Nat) (body : List Text) : Decidable (Recast ls kept start body) :=
  decidable_of_iff _ (recast_iff ..).symm

/-- A function and what becomes of it when the lines from `kept` to `start` give way to a header that ends at `start'`. -/
structure Moved (kept start start' : Nat) (header : Text) (g g' : Function) : Prop where
  same : Same g g'
  above : g.startLine < start → g.startLine < kept ∧ g'.startLine = g.startLine ∧ g'.comment = g.comment
  here : g.startLine = start → g'.startLine = start' ∧ g'.comment = header
  below : start < g.startLine → g'.startLine + start = g.startLine + start' ∧ g'.comment = g.comment

lemma forall₂_of_mem (h : Forall₂ R xs ys) (himp : ∀ x ∈ xs, ∀ y ∈ ys, R x y → S x y) : Forall₂ S xs ys := by
  induction h with
  | nil => exact .nil
  | cons hxy _ ih =>
    exact .cons (himp _ mem_cons_self _ mem_cons_self hxy)
      (ih fun x hx y hy => himp x (mem_cons_of_mem _ hx) y (mem_cons_of_mem _ hy))

lemma forall₂_and (h : Forall₂ R xs ys) (h' : Forall₂ S xs ys) : Forall₂ (fun x y => R x y ∧ S x y) xs ys := by
  induction h with
  | nil => exact .nil
  | cons hxy _ ih =>
    cases h' with
    | cons hxy' h' => exact .cons ⟨hxy, hxy'⟩ (ih h')

lemma same_of_starts {file' : Text} {ls : List Text} {gs' : List Function} {move : Start → Start}
    (hgs : functionsIn file ls = .ok gs) (hgs' : functionsIn file' ls' = .ok gs')
    (hmove : ∀ s, (move s).name = s.name ∧ (move s).params = s.params) (h : gs'.map Function.start = (gs.map Function.start).map move) :
    Forall₂ (fun g g' => Same g g' ∧ g'.start = move g.start) gs gs' := by
  have hstarts : Forall₂ (fun g g' => g'.start = move g.start) gs gs' := by
    have heq : Forall₂ Eq (gs'.map Function.start) ((gs.map Function.start).map move) := by rw [h]; exact forall₂_refl _
    rw [map_map, forall₂_map_left_iff, forall₂_map_right_iff] at heq
    exact heq.flip
  refine forall₂_and (Counted.same (Sheet.functionsFrom_counted hgs) (Sheet.functionsFrom_counted hgs') ?_) hstarts
  refine hstarts.imp fun g g' hg => ?_
  have hname : g'.start.name = g.start.name := by rw [hg, (hmove _).1]
  have hparams : g'.start.params = g.start.params := by rw [hg, (hmove _).2]
  exact ⟨hname, hparams⟩

/-- A function is as it was, on the line where it was. -/
structure Untouched (f g : Function) : Prop where
  same : Same f g
  line : g.startLine = f.startLine
  comment : g.comment = f.comment
  doxygen : g.isDoxygen = f.isDoxygen

/-- Lines with the starts and the comments of other lines define the same functions, for whatever file these are reported. -/
lemma functionsIn_untouched (file' : Text) {ls : List Text}
    (hgs : functionsIn file ls = .ok gs) (hstarts : startsOver [] ls' = .ok (gs.map Function.start))
    (hcomments : ∀ k, commentOf ls' k = commentOf ls k) :
    ∃ gs', functionsIn file' ls' = .ok gs' ∧ Forall₂ Untouched gs gs' := by
  obtain ⟨gs', hgs'⟩ := functionsIn_of_starts hstarts file'
  obtain ⟨hstarts', hcomments'⟩ := functionsIn_ok hgs'
  have hmap := Except.ok.inj (hstarts'.symm.trans hstarts)
  refine ⟨gs', hgs', forall₂_of_mem (same_of_starts hgs hgs' (fun s => ⟨rfl, rfl⟩) (hmap.trans (map_id _).symm)) ?_⟩
  intro g hg g' hg' ⟨hsame, hstart⟩
  obtain ⟨hcomment, hdoxygen, -⟩ := (functionsIn_ok hgs).2 g hg
  obtain ⟨hcomment', hdoxygen', -⟩ := hcomments' g' hg'
  have hline : g'.startLine = g.startLine := congrArg Start.line hstart
  have hkept : g'.comment = g.comment := by rw [hcomment, hcomment', hline, hcomments]
  exact ⟨hsame, hline, hkept, by rw [hdoxygen, hdoxygen', hkept]⟩

def Start.relocate (start start' : Nat) (s : Start) : Start :=
  if s.line < start then s else ⟨s.line - start + start', s.name, s.params⟩

lemma Start.line_relocate (start start' : Nat) (s : Start) :
    (s.relocate start start').line = if s.line < start then s.line else s.line - start + start' := by
  rw [relocate]
  split <;> rfl

section Recast

variable {ls body : List Text} {kept start : Nat} (h : Recast ls kept start body)

include h

lemma Recast.start_lt : start < ls.length := by
  obtain ⟨l, hl, -⟩ := h.firm
  exact (List.getElem?_eq_some_iff.mp hl).1

lemma Recast.length_take : (ls.take kept).length = kept := by
  have := h.start_lt
  have := h.le
  rw [List.length_take]
  omega

lemma Recast.take_start : ls.take start = ls.take kept ++ between ls kept start := by
  have hkept : ls.take kept = (ls.take start).take kept := by rw [take_take, min_eq_left h.le]
  rw [hkept, between, take_append_drop]

lemma Recast.blockOpen_take : blockOpen false (ls.take start) = false := by
  rw [h.take_start, blockOpen_append, h.above.block, h.below.block]

lemma Recast.blockOpen_header : blockOpen false (ls.take kept ++ gapped body) = false := by
  rw [blockOpen_append, h.above.block, blockOpen_gapped h.body]

lemma Recast.length_header : (ls.take kept ++ gapped body).length = kept + (gapped body).length := by
  rw [length_append, h.length_take]

lemma Recast.starts_eq {ss : List Start} (hss : startsOver [] ls = .ok ss) :
    (∀ s ∈ ss, s.line < kept ∨ start ≤ s.line) ∧
      startsOver [] (recast ls kept start body) = .ok (ss.map (Start.relocate start (kept + (gapped body).length))) := by
  have hgap : Cut (ls.take kept) (gapped body ++ ls.drop start) :=
    ⟨h.above.block, Or.inr fun l hl => by rw [gapped] at hl; cases hl; rfl⟩
  have hmute : startsOver (joinLines (ls.drop start)) (gapped body) =
      startsOver (joinLines (ls.drop start)) (between ls kept start) := by
    rw [startsOver_gapped h.body, h.mute]
  have hbrace : bodyFollows (joinLines (between ls kept start ++ ls.drop start)) = false := by
    rw [between_append h.le]
    exact h.brace
  have habove : Cut (ls.take kept) (between ls kept start ++ ls.drop start) := (between_append h.le).symm ▸ h.above
  have hwhole : ls = ls.take kept ++ (between ls kept start ++ ls.drop start) := by
    rw [between_append h.le, List.take_append_drop]
  rw [hwhole] at hss
  obtain ⟨a, m, b, ha, hm, rfl, hstarts⟩ := startsOver_exchange habove hgap h.below (cut_gapped h.body _)
    (fun hbody => by rw [hbrace] at hbody; cases hbody) hmute hss
  rw [h.mute] at hm
  cases hm
  rw [h.length_take] at ha
  have hlen : (ls.take kept ++ between ls kept start).length = start := by
    rw [← h.take_start, List.length_take, Nat.min_eq_left h.start_lt.le]
  rw [List.map_nil, List.append_nil] at hstarts ⊢
  rw [hlen]
  refine ⟨fun s hs => ?_, ?_⟩
  · rcases List.mem_append.mp hs with hs | hs
    · exact Or.inl (ha s hs)
    · obtain ⟨s, -, rfl⟩ := mem_map.mp hs
      exact .inr (Nat.le_add_left _ _)
  rw [recast, append_assoc, hstarts, map_append, h.length_header, map_map]
  refine congrArg Except.ok (congrArg₂ _ ?_ (map_congr_left fun s _ => ?_))
  · refine (map_id a).symm.trans (map_congr_left fun s hs => ?_)
    have := ha s hs
    have := h.le
    rw [Start.relocate, if_pos (by omega)]
    rfl
  · rw [Function.comp_apply, Start.relocate, Start.move, if_neg (by simp [Start.move]), Start.move]
    simp only [Nat.add_sub_cancel]

lemma Recast.commentOf_above {i : Nat} (hi : i ≤ kept) : commentOf (recast ls kept start body) i = commentOf ls i := by
  have hlen : i ≤ (ls.take kept).length := by
    rw [h.length_take]
    exact hi
  have hwhole := commentOf_append (ls.drop kept) hlen
  rw [take_append_drop] at hwhole
  rw [recast, append_assoc, commentOf_append _ hlen, hwhole]

lemma Recast.commentOf_here : commentOf (recast ls kept start body) (kept + (gapped body).length) = unlines (framed body) := by
  have hshape : ls.take kept ++ gapped body = ls.take kept ++ [[], []] ++ framed body := by rw [gapped, append_assoc]
  have hgap : blockOpen false (ls.take kept ++ [[], []]) = false := by
    rw [blockOpen_append, h.above.block, (cut_gap []).block]
  rw [recast, ← h.length_header, hshape]
  exact commentOf_framed hgap h.body _

lemma Recast.commentOf_below (i : Nat) :
    commentOf (recast ls kept start body) (kept + (gapped body).length + 1 + i) = commentOf ls (start + 1 + i) := by
  obtain ⟨l, hl, hfirm⟩ := h.firm
  have hdrop : ls.drop start = l :: ls.drop (start + 1) := by
    obtain ⟨hstart, rfl⟩ := List.getElem?_eq_some_iff.mp hl
    exact drop_eq_getElem_cons hstart
  have hold := commentOf_firm h.blockOpen_take hfirm (ls.drop (start + 1)) i
  rw [← hdrop, take_append_drop, List.length_take, min_eq_left h.start_lt.le] at hold
  have hnew := commentOf_firm h.blockOpen_header hfirm (ls.drop (start + 1)) i
  rw [← hdrop, h.length_header] at hnew
  rw [recast, hnew, hold]

end Recast

lemma functionsIn_recast {ls body : List Text} {kept start : Nat} (hcast : Recast ls kept start body)
    (h : functionsIn file ls = .ok gs) :
    ∃ gs', functionsIn file (recast ls kept start body) = .ok gs' ∧
      Forall₂ (Moved kept start (kept + (gapped body).length) (unlines (framed body))) gs gs' := by
  obtain ⟨hstarts, hcomments⟩ := functionsIn_ok h
  obtain ⟨hapart, hmoved⟩ := hcast.starts_eq hstarts
  obtain ⟨gs', hgs'⟩ := functionsIn_of_starts hmoved file
  obtain ⟨hstarts', hcomments'⟩ := functionsIn_ok hgs'
  have hmap := Except.ok.inj (hstarts'.symm.trans hmoved)
  refine ⟨gs', hgs', forall₂_of_mem (same_of_starts h hgs' (fun s => ?_) hmap) ?_⟩
  · rw [Start.relocate]
    split <;> exact ⟨rfl, rfl⟩
  · intro g hg g' hg' ⟨hsame, hstart⟩
    have hcomment := (hcomments g hg).1
    have hcomment' := (hcomments' g' hg').1
    have hline : g'.startLine = if g.startLine < start then g.startLine else g.startLine - start + (kept + (gapped body).length) :=
      (congrArg Start.line hstart).trans (Start.line_relocate _ _ _)
    refine ⟨hsame, fun habove => ?_, fun hhere => ?_, fun hbelow => ?_⟩
    · rw [if_pos habove] at hline
      have hlow : g.startLine < kept := (hapart g.start (mem_map_of_mem hg)).resolve_right (not_le.mpr habove)
      refine ⟨hlow, hline, ?_⟩
      rw [hcomment, hcomment', hline]
      exact hcast.commentOf_above hlow.le
    · rw [if_neg (not_lt.mpr hhere.ge), hhere, Nat.sub_self, Nat.zero_add] at hline
      exact ⟨hline, by rw [hcomment', hline, hcast.commentOf_here]⟩
    · rw [if_neg (not_lt.mpr hbelow.le)] at hline
      obtain ⟨i, hi⟩ := Nat.exists_eq_add_of_lt hbelow
      have hi' : g'.startLine = kept + (gapped body).length + 1 + i := by omega
      have hi : g.startLine = start + 1 + i := by omega
      exact ⟨by omega, by rw [hcomment, hcomment', hi, hi', hcast.commentOf_below]⟩

/-! ## A line that is changed -/

/-- A line may be changed: the lines around it define the same functions before and after, and stand apart from the lines above
and below. -/
@[mk_iff]
structure Retouch (ls : List Text) (lo hi i : Nat) (new : Text) : Prop where
  low : lo ≤ i
  high : i < hi
  old_firm : ∃ l, ls[i]? = some l ∧ Firm l
  new_firm : Firm new
  closed : blockOpen false (ls.take i) = false
  above : Cut (ls.take lo) (ls.drop lo)
  above_new : Cut (ls.take lo) ((ls.set i new).drop lo)
  below : Cut (between ls lo hi) (ls.drop hi)
  below_new : Cut (between (ls.set i new) lo hi) (ls.drop hi)
  same : startsOver (joinLines (ls.drop hi)) (between (ls.set i new) lo hi) =
    startsOver (joinLines (ls.drop hi)) (between ls lo hi)
  brace : bodyFollows (joinLines (ls.drop lo)) = true → bodyFollows (joinLines ((ls.set i new).drop lo)) = true

instance (ls : List Text) (lo hi i : Nat) (new : Text) : Decidable (Retouch ls lo hi i new) := decidable_of_iff _ (retouch_iff ..).symm

section Retouch

variable {ls : List Text} {lo hi i : Nat} {new : Text}

lemma Retouch.starts_eq (h : Retouch ls lo hi i new) {ss : List Start} (hss : startsOver [] ls = .ok ss) :
    startsOver [] (ls.set i new) = .ok ss := by
  have hle : lo ≤ hi := h.low.trans h.high.le
  have htake : (ls.set i new).take lo = ls.take lo := take_set_of_le h.low
  have hdrop : (ls.set i new).drop hi = ls.drop hi := drop_set_of_lt h.high
  have hmiddle := @between_append ls lo hi hle
  have hmiddle' := @between_append (ls.set i new) lo hi hle
  rw [hdrop] at hmiddle'
  have hold : ls = ls.take lo ++ (between ls lo hi ++ ls.drop hi) := by rw [hmiddle, take_append_drop]
  have hnew : ls.set i new = ls.take lo ++ (between (ls.set i new) lo hi ++ ls.drop hi) := by
    rw [hmiddle', ← htake, take_append_drop]
  have hlen : (between (ls.set i new) lo hi).length = (between ls lo hi).length := by
    simp [between]
  rw [hold] at hss
  obtain ⟨a, m, b, -, -, rfl, hstarts⟩ := @startsOver_exchange (ls.take lo) (between ls lo hi) (between (ls.set i new) lo hi)
    (ls.drop hi) (hmiddle ▸ h.above) (hmiddle' ▸ h.above_new) h.below h.below_new (by rw [hmiddle, hmiddle']; exact h.brace) h.same ss hss
  rw [← hnew, length_append, hlen, ← length_append] at hstarts
  exact hstarts

lemma Retouch.commentOf_eq (h : Retouch ls lo hi i new) (k : Nat) : commentOf (ls.set i new) k = commentOf ls k := by
  obtain ⟨l, hl, hfirm⟩ := h.old_firm
  obtain ⟨hi, rfl⟩ := List.getElem?_eq_some_iff.mp hl
  have hlen : (ls.take i).length = i := by rw [length_take]; omega
  have hold : ls = ls.take i ++ ls[i] :: ls.drop (i + 1) := by
    rw [← drop_eq_getElem_cons hi, take_append_drop]
  have hnew : ls.set i new = ls.take i ++ new :: ls.drop (i + 1) := by
    rw [set_eq_take_append_cons_drop, if_pos hi]
  rcases lt_or_ge i k with hk | hk
  · obtain ⟨j, rfl⟩ := Nat.exists_eq_add_of_lt hk
    have hat : i + j + 1 = (ls.take i).length + 1 + j := by omega
    rw [hnew, hat, commentOf_firm h.closed h.new_firm]
    nth_rewrite 2 [hold]
    rw [commentOf_firm h.closed hfirm]
  · rw [hnew, commentOf_append _ (by omega)]
    nth_rewrite 2 [hold]
    rw [commentOf_append _ (by omega)]

lemma functionsIn_retouch {file : Text} (h : Retouch ls lo hi i new) {gs : List Function} (hgs : functionsIn file ls = .ok gs) :
    ∃ gs', functionsIn file (ls.set i new) = .ok gs' ∧ Forall₂ Untouched gs gs' :=
  functionsIn_untouched file hgs (h.starts_eq (functionsIn_ok hgs).1) h.commentOf_eq

end Retouch

end FunctionDocs.Source
