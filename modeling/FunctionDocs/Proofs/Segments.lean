import FunctionDocs.Proofs.BlockPositions
import FunctionDocs.Proofs.BlockSpans
import FunctionDocs.Proofs.OneLine

/-!
# Lines in segments

Block comments and declarations are read line by line. Where neither is under way the lines can be cut, and both segments can be
read apart: the joined lines of the second follow those of the first, moved by its length, and each is hidden in a block comment
exactly if it is hidden in its own segment.
-/

open List

namespace FunctionDocs.Source

open Text

variable {b : Block} {count : Int} {A B ls : List Text} {i : Nat} {t : Text} {lo hi n : Nat} {js : List Joined} {x : Int}

/-! ## Block comments -/

/-- A block comment is open after some lines, where `isOpen` tells that one is open before them. -/
def blockOpen (isOpen : Bool) : List Text → Bool
  | [] => isOpen
  | l :: ls => blockOpen ((isOpen || startsWith (trim l) "/*") && !endsWith (trim l) "*/") ls

lemma blockOpen_append (isOpen : Bool) (A B : List Text) : blockOpen isOpen (A ++ B) = blockOpen (blockOpen isOpen A) B := by
  induction A generalizing isOpen with
  | nil => rfl
  | cons l A ih => exact ih _

lemma blockOpen_within {ms : List Text} (h : ∀ l ∈ ms, endsWith (trim l) "*/" = false) : blockOpen true ms := by
  induction ms with
  | nil => rfl
  | cons l ms ih =>
    obtain ⟨hl, hms⟩ := forall_mem_cons.mp h
    rw [blockOpen, hl]
    exact ih hms

lemma blockOpen_opening (h : ∀ l ∈ ls.head?, startsWith (trim l) "/*") (hne : ls ≠ []) : blockOpen false ls = blockOpen true ls := by
  cases ls with
  | nil => exact absurd rfl hne
  | cons l ls => rw [blockOpen, h l rfl]; rfl

lemma blocks_append (h : blockOpen false A = false) (B : List Text) :
    blocks (A ++ B) = blocks A ++ (blocks B).map (Block.move A.length) := by
  have hA := blocked_blocks A
  generalize blocks A = bs at hA
  induction hA with
  | code hl _ ih =>
    rw [blockOpen, hl] at h
    rw [cons_append, blocks_cons hl, ih h, map_append, map_map, Block.move_comp, length_cons]
  | @block M c A bs hopen hM hc _ ih =>
    have hclosed : blockOpen false (M ++ c :: A) = blockOpen false A := by
      rw [append_cons, blockOpen_append, blockOpen_opening hopen (by simp), blockOpen_append, blockOpen_within hM, blockOpen, hc]
      rfl
    rw [append_assoc, cons_append, blocks_block hopen hM hc, ih (hclosed ▸ h), map_append, map_map, Block.move_comp]
    simp [Nat.add_left_comm]
  | @unclosed A hopen hM =>
    cases A with
    | nil => simp [Block.move_zero]
    | cons l A =>
      rw [blockOpen_opening hopen (cons_ne_nil l A), blockOpen_within hM] at h
      cases h

/-! ## Joined lines -/

lemma startsWithAny_of_mem {head : Text} {heads : List Text} (hmem : head ∈ heads) (h : startsWith t head) :
    startsWithAny t heads := any_eq_true.mpr ⟨head, hmem, h⟩

/-- A line that ends a declaration under way: it is blank, a comment or a directive. -/
def seals (l : Text) : Bool := (trim l).isEmpty || startsWithAny (trim l) ["//", "/*", "*", "#"]

lemma absorb_of_seals {l : Text} (h : seals l) (o : OpenLine) (i : Nat) : o.absorb? i l = none := by
  rw [seals] at h
  simp only [OpenLine.absorb?, h, if_true]

def joinAfter (i : Nat) (pending : Option OpenLine) : List Text → Option OpenLine
  | [] => pending
  | l :: ls =>
    match pending.bind (·.absorb? i l) with
    | some o => joinAfter (i + 1) (if o.isComplete then none else some o) ls
    | none =>
      match beginLine i l with
      | .inl _ => joinAfter (i + 1) none ls
      | .inr o => joinAfter (i + 1) (some o) ls

/-- Lines can be cut here: no block comment is open, and no declaration goes on. -/
@[mk_iff]
structure Cut (A B : List Text) : Prop where
  block : blockOpen false A = false
  declaration : (joinAfter 0 none A).isNone = true ∨ ∀ l ∈ B.head?, seals l = true

instance (A B : List Text) : Decidable (Cut A B) := decidable_of_iff _ (cut_iff ..).symm

lemma joinFrom_append {A B : List Text} {i : Nat} {pending : Option OpenLine}
    (h : (joinAfter i pending A).isNone ∨ ∀ l ∈ B.head?, seals l) :
    joinFrom i pending (A ++ B) = joinFrom i pending A ++ joinFrom (i + A.length) none B := by
  induction A generalizing i pending with
  | nil =>
    cases pending with
    | none => rfl
    | some o =>
      cases B with
      | nil => rfl
      | cons l B =>
        have hseals : seals l := h.resolve_left (by simp [joinAfter]) l rfl
        rw [nil_append, joinFrom, joinFrom, Option.bind_some, absorb_of_seals hseals]
        rfl
  | cons l A ih =>
    have hlen : i + (l :: A).length = i + 1 + A.length := by rw [length_cons]; omega
    rw [cons_append, joinFrom, joinFrom, hlen]
    rw [joinAfter] at h
    split
    next o ho =>
      rw [ho] at h
      dsimp only at h
      split
      next hcomplete =>
        rw [if_pos hcomplete] at h
        rw [cons_append, ih h]
      next hcomplete =>
        rw [if_neg hcomplete] at h
        exact ih h
    next ho =>
      rw [ho] at h
      rw [append_assoc]
      congr 1
      cases hbegin : beginLine i l with
      | inl done =>
        rw [hbegin] at h
        exact congrArg _ (ih h)
      | inr o =>
        rw [hbegin] at h
        exact ih h

def Joined.move (n : Nat) (j : Joined) : Joined := ⟨j.text, j.first + n, j.last + n⟩

def OpenLine.move (n : Nat) (o : OpenLine) : OpenLine := ⟨o.text, o.depth, o.first + n, o.last + n⟩

lemma absorb_move (n : Nat) (o : OpenLine) (i : Nat) (l : Text) :
    (o.move n).absorb? (i + n) l = (o.absorb? i l).map (OpenLine.move n) := by
  simp only [OpenLine.absorb?]
  split <;> rfl

lemma beginLine_move (n i : Nat) (l : Text) : beginLine (i + n) l = (beginLine i l).map (Joined.move n) (OpenLine.move n) := by
  simp only [beginLine]
  split
  · rfl
  · split
    · split <;> rfl
    · rfl

lemma joinFrom_move (n : Nat) (ls : List Text) (i : Nat) (pending : Option OpenLine) :
    joinFrom (i + n) (pending.map (OpenLine.move n)) ls = (joinFrom i pending ls).map (Joined.move n) := by
  induction ls generalizing i pending with
  | nil => cases pending <;> rfl
  | cons l ls ih =>
    have hnext : i + n + 1 = i + 1 + n := by omega
    have hnone := ih (i + 1) none
    rw [Option.map_none] at hnone
    have habsorb : (pending.map (OpenLine.move n)).bind (·.absorb? (i + n) l) = (pending.bind (·.absorb? i l)).map (.move n) := by
      cases pending with
      | none => rfl
      | some o => exact absorb_move n o i l
    have hclose : ((pending.map (OpenLine.move n)).map OpenLine.close).toList =
        (pending.map OpenLine.close).toList.map (Joined.move n) := by
      cases pending <;> rfl
    rw [joinFrom, joinFrom, habsorb, beginLine_move, hclose, hnext]
    cases pending.bind (·.absorb? i l) with
    | some o =>
      rw [Option.map_some]
      dsimp only
      have hcomplete : (o.move n).isComplete = o.isComplete := rfl
      rw [hcomplete]
      split
      · rw [hnone]
        rfl
      · exact ih (i + 1) (some o)
    | none =>
      rw [Option.map_none]
      dsimp only
      rw [map_append]
      congr 1
      cases beginLine i l with
      | inl done => exact congrArg _ hnone
      | inr o => exact ih (i + 1) (some o)

lemma splitDefinitions_move (n : Nat) (j : Joined) : (j.move n).splitDefinitions = j.splitDefinitions.map (Joined.move n) := by
  simp only [Joined.splitDefinitions, map_map]
  rfl

lemma splitBody_move (n : Nat) (j : Joined) : (j.move n).splitBody = j.splitBody.map (Joined.move n) := by
  simp only [Joined.splitBody, Joined.move]
  split <;> rfl

lemma joinLines_append (h : Cut A B) : joinLines (A ++ B) = joinLines A ++ (joinLines B).map (Joined.move A.length) := by
  have hsplit := @joinFrom_append A B 0 none h.declaration
  have hmove := joinFrom_move A.length B 0 none
  rw [Option.map_none] at hmove
  simp only [joinLines, hsplit, hmove, flatMap_append, flatMap_map, splitDefinitions_move, ← map_flatMap, splitBody_move]

/-- Joined lines in order, whose first lines lie between two bounds. -/
structure Ordered (lo hi : Nat) (js : List Joined) : Prop where
  bounds : ∀ j ∈ js, lo ≤ j.first ∧ j.first < hi
  sorted : js.Pairwise fun a b => a.first ≤ b.first

lemma Tiles.ordered (h : Tiles hi lo js) : Ordered lo hi js := by
  refine ⟨fun j hj => ?_, h.apart.imp_of_mem fun {a b} ha _ hapart => ?_⟩
  · have := h.bounds j hj
    omega
  · have := h.bounds a ha
    omega

lemma ordered_flatMap {f : Joined → List Joined} (hf : ∀ j, ∀ k ∈ f j, k.first = j.first) (h : Ordered lo hi js) : Ordered lo hi (js.flatMap f) := by
  refine ⟨fun k hk => ?_, ?_⟩
  · obtain ⟨j, hj, hk⟩ := mem_flatMap.mp hk
    rw [hf j k hk]
    exact h.bounds j hj
  · have hsorted := h.sorted
    clear h
    induction js with
    | nil => exact Pairwise.nil
    | cons j js ih =>
      obtain ⟨hj, hjs⟩ := pairwise_cons.mp hsorted
      rw [flatMap_cons, pairwise_append]
      refine ⟨pairwise_iff_forall_sublist.mpr fun {a b} hab => ?_, ih hjs, fun a ha b hb => ?_⟩
      · rw [hf j a (hab.subset (by simp)), hf j b (hab.subset (by simp))]
      · obtain ⟨k, hk, hb⟩ := mem_flatMap.mp hb
        rw [hf j a ha, hf k b hb]
        exact hj k hk

lemma ordered_joinLines (ls : List Text) : Ordered 0 ls.length (joinLines ls) := by
  rw [joinLines_eq_flatMap]
  exact ordered_flatMap (fun _ _ hk => (mem_pieces hk).1.1) (tiles_lines ls).ordered

/-! ## Lines that stay -/

lemma closeLength_eq_some (h : closeLength t = some n) : ∃ x, t = x ++ "*/" ++ t.drop n ∧ n = x.length + 2 := by
  fun_induction closeLength t generalizing n with
  | case1 => cases h
  | case2 r =>
    cases h
    exact ⟨[], rfl, rfl⟩
  | case3 => cases h
  | case4 c r hc hnl ih =>
    obtain ⟨m, hm, rfl⟩ := Option.map_eq_some_iff.mp h
    obtain ⟨x, hx, rfl⟩ := ih hm
    exact ⟨c :: x, congrArg (c :: ·) hx, rfl⟩

lemma inlineLength_eq_some (h : inlineLength t = some n) : ∃ x, t = "/*" ++ x ++ "*/" ++ t.drop n ∧ n = x.length + 4 := by
  unfold inlineLength at h
  split at h
  · obtain ⟨m, hm, rfl⟩ := Option.map_eq_some_iff.mp h
    obtain ⟨x, hx, rfl⟩ := closeLength_eq_some hm
    refine ⟨x, ?_, rfl⟩
    nth_rewrite 1 [hx]
    rfl
  · cases h

lemma dropInlineAfter_eq (skip : Nat) (t : Text) : dropInlineAfter skip t = dropInline (t.drop skip) := by
  induction t generalizing skip with
  | nil => cases skip <;> rfl
  | cons c t ih =>
    cases skip with
    | zero => rfl
    | succ skip => exact ih skip

lemma dropInline_cons (c : Char) (r : Text) :
    dropInline (c :: r) =
      match inlineLength (c :: r) with
      | some n => dropInline ((c :: r).drop n)
      | none => c :: dropInline r := by
  rw [dropInline, dropInlineAfter]
  cases hn : inlineLength (c :: r) with
  | none => rfl
  | some n =>
    obtain ⟨x, -, rfl⟩ := inlineLength_eq_some hn
    exact dropInlineAfter_eq _ r

lemma blank_of_dropInline (h : isBlankLine (dropInline t)) : isBlankLine t ∨ ∃ u w, t = u ++ "*/" ++ w ∧ isBlankLine w := by
  induction hn : t.length using Nat.strong_induction_on generalizing t with
  | _ k ih =>
    subst hn
    cases t with
    | nil => exact .inl rfl
    | cons c r =>
      rw [dropInline_cons] at h
      split at h
      next n hn =>
        obtain ⟨x, hx, hlen⟩ := inlineLength_eq_some hn
        refine .inr ?_
        rcases ih _ (by rw [length_drop, length_cons]; omega) h rfl with hblank | ⟨u, w, hu, hw⟩
        · exact ⟨_, _, hx, hblank⟩
        · refine ⟨"/*" ++ x ++ "*/" ++ u, w, ?_, hw⟩
          rw [hx, hu]
          simp only [append_assoc]
      · obtain ⟨hc, hr⟩ := Bool.and_eq_true_iff.mp (show (isBlank c && isBlankLine (dropInline r)) from h)
        rcases ih _ (by simp) hr rfl with hblank | ⟨u, w, hu, hw⟩
        · exact .inl (show (isBlank c && isBlankLine r) from Bool.and_eq_true_iff.mpr ⟨hc, hblank⟩)
        · exact .inr ⟨c :: u, w, by rw [hu]; rfl, hw⟩

lemma endsWith_trim {tail : Text} (htail : Trimmed tail) (hne : tail ≠ []) (u : Text) {w : Text} (hw : isBlankLine w) :
    endsWith (trim (u ++ tail ++ w)) tail := by
  rw [endsWith_iff, trim_append_blank hw, trim, trimLeft_append_of_head htail.head, trimRight_eq_self]
  · exact suffix_append _ _
  · intro c hc
    rw [getLast?_append_of_ne_nil _ hne] at hc
    exact htail.last c hc

lemma matchesFrom_last {p : Pattern} :
    ∀ {gap : Text} {s : Pattern.Place}, (p.matchesFrom 0 gap t s).1 = [] → (p.matchesFrom 0 gap t s).2 = gap.reverse ++ t := by
  induction t with
  | nil =>
    simp [Pattern.matchesFrom]
  | cons c r ih =>
    intro gap s h
    have hnext : (p.matchesFrom 0 (c :: gap) r (s.step c r)).1 = [] →
        (p.matchesFrom 0 (c :: gap) r (s.step c r)).2 = gap.reverse ++ c :: r := by
      intro h
      rw [ih h, reverse_cons, append_assoc]
      rfl
    rw [Pattern.matchesFrom] at h ⊢
    split at h
    · split at h
      next m hm hempty =>
        rw [if_pos hempty]
        exact hnext h
      · cases h
    · exact hnext h

lemma splitDefinitions_ne_nil {j : Joined} (h : trim (dropInline j.text) ≠ []) : j.splitDefinitions ≠ [] := by
  have hpiece : ∃ p ∈ closePieces (definitionBreak.split (trim (dropInline j.text))), trim p ≠ [] := by
    rw [Pattern.split, Pattern.findAll]
    cases hms : (definitionBreak.matchesFrom 0 [] (trim (dropInline j.text)) ⟨none, 0, trim (dropInline j.text), []⟩).1 with
    | nil =>
      have hlast := matchesFrom_last hms
      dsimp only
      rw [hms, hlast]
      exact ⟨_, mem_singleton_self _, by simpa using h⟩
    | cons m ms =>
      dsimp only
      rw [hms]
      obtain ⟨q, qs, hq⟩ : ∃ q qs, ms.map (·.1) ++ [(definitionBreak.matchesFrom 0 [] (trim (dropInline j.text))
          ⟨none, 0, trim (dropInline j.text), []⟩).2] = q :: qs := exists_cons_of_ne_nil (by simp)
      rw [map_cons, cons_append, closePieces]
      · refine ⟨_, mem_cons_self, fun hnil => ?_⟩
        have hblank := isBlankLine_iff.mp (trim_eq_nil_iff.mp hnil) '\x7d' (by simp)
        exact absurd hblank (by decide)
      · simp
  obtain ⟨p, hp, hne⟩ := hpiece
  have hmem : ({ j with text := trim p } : Joined) ∈ j.splitDefinitions := by
    refine mem_map.mpr ⟨trim p, mem_filter.mpr ⟨mem_map_of_mem hp, ?_⟩, rfl⟩
    simpa using hne
  exact ne_nil_of_mem hmem

lemma splitBody_ne_nil (j : Joined) : j.splitBody ≠ [] := by
  rw [Joined.splitBody]
  split <;> simp

lemma exists_first_of_alone {A B : List Text} {l : Text} (halone : standsAlone (trim l)) (hseals : seals l)
    (hne : trim (dropInline l) ≠ []) : ∃ j ∈ joinLines (A ++ l :: B), j.first = A.length := by
  have hmem : (⟨l, A.length, A.length⟩ : Joined) ∈ joinFrom 0 none (A ++ l :: B) := by
    rw [joinFrom_append (Or.inr (by simpa using hseals)), Nat.zero_add, mem_append]
    refine .inr ?_
    rw [joinFrom, beginLine, halone]
    exact mem_cons_self
  obtain ⟨k, hk⟩ := exists_mem_of_ne_nil _ (@splitDefinitions_ne_nil ⟨l, A.length, A.length⟩ hne)
  obtain ⟨j, hj⟩ := exists_mem_of_ne_nil _ (splitBody_ne_nil k)
  refine ⟨j, mem_flatMap.mpr ⟨k, mem_flatMap.mpr ⟨_, hmem, hk⟩, hj⟩, ?_⟩
  rw [(range_splitBody hj).1, (range_splitDefinitions hk).1]

lemma exists_first_of_block (hb : b ∈ blocks ls) (hlines : b.first ≠ b.last) : ∃ j ∈ joinLines ls, (j.first : Int) = b.first := by
  obtain ⟨A, l, B, rfl, hfirst, hopen, hclose⟩ : ∃ A l B, ls = A ++ l :: B ∧ b.first = A.length ∧ startsWith (trim l) "/*" ∧
      (endsWith (trim l) "*/" → b.first = b.last) := by
    obtain @⟨M, c, A, hopen, hM, hc, B⟩ := (blocked_blocks ls).isBlock b hb
    cases M with
    | nil => exact ⟨A, c, B, rfl, rfl, hopen c rfl, fun _ => by simp⟩
    | cons m M => exact ⟨A, m, M ++ c :: B, rfl, rfl, hopen m rfl, fun hend => by rw [hM m mem_cons_self] at hend; cases hend⟩
  have hseals : seals l := by
    rw [seals, startsWithAny_of_mem (by simp) hopen, Bool.or_true]
  have halone : standsAlone (trim l) := by
    rw [standsAlone, startsWithAny_of_mem (by simp) hopen, Bool.or_true]
    rfl
  have hne : trim (dropInline l) ≠ [] := by
    intro hnil
    rcases blank_of_dropInline (trim_eq_nil_iff.mp hnil) with hblank | ⟨u, w, rfl, hw⟩
    · rw [trim_eq_nil_iff.mpr hblank] at hopen
      cases hopen
    · exact hlines (hclose (endsWith_trim ⟨by decide, by decide⟩ (by decide) u hw))
  obtain ⟨j, hj, hjfirst⟩ := @exists_first_of_alone A B l halone hseals hne
  exact ⟨j, hj, by rw [hjfirst, hfirst]⟩

/-! ## Hidden lines -/

def lineStarts (ls : List Text) : List Int := (joinLines ls).map fun j => (j.first : Int)

/-- The blocks that hide joined lines: those that take more than one of them. -/
def hiddenBlocks (ls : List Text) : List Block :=
  (blocksOnJoined ls.length (lineStarts ls) (blocks ls)).filter fun b => b.first != b.last

/-- The joined lines from line `i` on, each with the mark of one that lies in a block. -/
def markFrom (bs : List Block) (i : Nat) : List Joined → List (Joined × Bool)
  | [] => []
  | j :: js => (j, inBlocks i bs) :: markFrom bs (i + 1) js

/-- The joined lines, each with the mark of one that is hidden in a block comment. -/
def marked (ls : List Text) : List (Joined × Bool) := markFrom (hiddenBlocks ls) 0 (joinLines ls)

lemma lineStarts_append (h : Cut A B) : lineStarts (A ++ B) = lineStarts A ++ (lineStarts B).map (· + (A.length : Int)) := by
  rw [lineStarts, joinLines_append h, map_append, map_map, lineStarts, lineStarts, map_map]
  congr 1

lemma lineStarts_bounds : ∀ s ∈ lineStarts ls, 0 ≤ s ∧ s < ls.length := by
  intro s hs
  obtain ⟨j, hj, rfl⟩ := mem_map.mp hs
  have := (ordered_joinLines ls).bounds j hj
  omega

lemma sorted_lineStarts (ls : List Text) : (lineStarts ls).Pairwise (· ≤ ·) := by
  rw [lineStarts, pairwise_map]
  exact (ordered_joinLines ls).sorted.imp Int.ofNat_le.mpr

lemma onJoined_of_mem (hb : b ∈ blocks ls) : b.onJoined ls.length (lineStarts ls) =
    ⟨(startedBy (lineStarts ls) b.first - 1 : Nat), (startedBy (lineStarts ls) b.last - 1 : Nat), b.text⟩ :=
  onJoined_eq (sorted_lineStarts ls) (mem_blocks hb).2.1 (mem_blocks hb).2.2

lemma startedBy_append_left (h : Cut A B) (hx : x < A.length) :
    startedBy (lineStarts (A ++ B)) x = startedBy (lineStarts A) x := by
  have hnone : startedBy ((lineStarts B).map (· + (A.length : Int))) x = 0 := by
    refine startedBy_eq_zero_iff.mpr fun t ht => ?_
    obtain ⟨s, hs, rfl⟩ := mem_map.mp ht
    have := (lineStarts_bounds s hs).1
    omega
  rw [lineStarts_append h, startedBy_append, hnone, Nat.add_zero]

lemma startedBy_append_right (h : Cut A B) (hx : 0 ≤ x) :
    startedBy (lineStarts (A ++ B)) (x + A.length) = (joinLines A).length + startedBy (lineStarts B) x := by
  have hall : startedBy (lineStarts A) (x + A.length) = (joinLines A).length := by
    rw [startedBy_eq_length fun s hs => ?_, lineStarts, length_map]
    have := (lineStarts_bounds s hs).2
    omega
  have hmove : startedBy ((lineStarts B).map (· + (A.length : Int))) (x + A.length) = startedBy (lineStarts B) x := by
    simp [startedBy, Function.comp_def]
  rw [lineStarts_append h, startedBy_append, hall, hmove]

lemma filter_map_congr {α β : Type} {f g : α → β} {move : β → β} {p : β → Bool} {xs : List α}
    (h : ∀ x ∈ xs, (p (f x) = false ∧ p (g x) = false) ∨ (g x = move (f x) ∧ p (move (f x)) = p (f x))) :
    (xs.map g).filter p = ((xs.map f).filter p).map move := by
  induction xs with
  | nil => rfl
  | cons x xs ih =>
    obtain ⟨hx, hxs⟩ := forall_mem_cons.mp h
    rw [map_cons, map_cons, filter_cons, filter_cons, ih hxs]
    rcases hx with ⟨hf, hg⟩ | ⟨hg, hp⟩
    · rw [hf, hg]
      rfl
    · rw [hg, hp]
      split <;> rfl

lemma hiddenBlocks_append (h : Cut A B) :
    hiddenBlocks (A ++ B) = hiddenBlocks A ++ (hiddenBlocks B).map (Block.move (joinLines A).length) := by
  have hlen : ((A ++ B).length : Int) = A.length + B.length := by simp
  rw [hiddenBlocks, blocks_append h.block, blocksOnJoined, map_append, filter_append, map_map]
  congr 1
  · refine congrArg _ (map_congr_left fun b hb => ?_)
    obtain ⟨-, hle, hlt⟩ := mem_blocks hb
    rw [onJoined_of_mem hb, onJoined_eq (sorted_lineStarts _) hle (by omega), startedBy_append_left h (by omega),
      startedBy_append_left h hlt]
  · refine filter_map_congr fun b hb => ?_
    obtain ⟨hzero, hle, hlt⟩ := mem_blocks hb
    have hmoved := @onJoined_eq _ (b.move A.length) (A ++ B).length (sorted_lineStarts (A ++ B))
      (Int.add_le_add_right hle _) (by simp only [Block.move]; omega)
    have hmono := @startedBy_le (lineStarts B) _ _ hle
    rw [Block.move, startedBy_append_right h hzero, startedBy_append_right h (by omega)] at hmoved
    rw [Function.comp_apply, onJoined_of_mem hb, Block.move, hmoved, Block.move]
    by_cases hlines : b.first = b.last
    · exact .inl (by simp [hlines])
    · -- A block of several lines begins on a joined line of its own.
      obtain ⟨j, hj, hfirst⟩ := exists_first_of_block hb hlines
      have hstarted : startedBy (lineStarts B) b.first ≠ 0 := fun hnone =>
        absurd (startedBy_eq_zero_iff.mp hnone j.first (mem_map_of_mem hj)) (by omega)
      refine .inr ⟨?_, ?_⟩
      · simp only [Block.mk.injEq, and_true]
        omega
      · rw [Bool.eq_iff_iff, bne_iff_ne, bne_iff_ne]
        dsimp only
        omega

lemma hiddenBlocks_lt : ∀ b ∈ hiddenBlocks ls, 0 ≤ b.first ∧ b.last < (joinLines ls).length := by
  intro b hb
  obtain ⟨hb, hlines⟩ := mem_filter.mp hb
  obtain ⟨a, ha, rfl⟩ := mem_map.mp hb
  have hmono := @startedBy_le (lineStarts ls) _ _ (mem_blocks ha).2.1
  have hle : startedBy (lineStarts ls) a.last ≤ (joinLines ls).length := countP_le_length.trans_eq (length_map _)
  rw [onJoined_of_mem ha, bne_iff_ne] at hlines
  rw [onJoined_of_mem ha]
  dsimp only at hlines ⊢
  omega

lemma markFrom_append (bs : List Block) (xs ys : List Joined) (i : Nat) :
    markFrom bs i (xs ++ ys) = markFrom bs i xs ++ markFrom bs (i + xs.length) ys := by
  induction xs generalizing i with
  | nil => rfl
  | cons x xs ih =>
    have hlen : i + (x :: xs).length = i + 1 + xs.length := by rw [length_cons]; omega
    rw [cons_append, markFrom, ih, hlen]
    rfl

lemma markFrom_congr {bs cs : List Block}
    (h : ∀ k, i ≤ k → k < i + js.length → inBlocks k bs = inBlocks k cs) : markFrom bs i js = markFrom cs i js := by
  induction js generalizing i with
  | nil => rfl
  | cons j js ih =>
    rw [markFrom, markFrom, h i (le_refl i) (by simp), ih fun k hk hlt => h k (by omega) (by rw [length_cons]; omega)]

lemma inBlocks_append (i : Int) (bs cs : List Block) : inBlocks i (bs ++ cs) = (inBlocks i bs || inBlocks i cs) := any_append

lemma inBlocks_eq_false {i : Int} {bs : List Block} (h : ∀ b ∈ bs, i < b.first ∨ b.last < i) : inBlocks i bs = false := by
  rw [inBlocks, any_eq_false]
  intro b hb
  rw [Bool.and_eq_true, decide_eq_true_eq, decide_eq_true_eq]
  have := h b hb
  omega

lemma markFrom_move (m n : Nat) (bs : List Block) (js : List Joined) (i : Nat) :
    markFrom (bs.map (Block.move n)) (i + n) (js.map (Joined.move m)) = (markFrom bs i js).map fun x => (x.1.move m, x.2) := by
  induction js generalizing i with
  | nil => rfl
  | cons j js ih =>
    have hnext : i + n + 1 = i + 1 + n := by omega
    rw [map_cons, markFrom, inBlocks_move, hnext, ih]
    rfl

lemma marked_append (h : Cut A B) : marked (A ++ B) = marked A ++ (marked B).map fun x => (x.1.move A.length, x.2) := by
  rw [marked, joinLines_append h, hiddenBlocks_append h, markFrom_append, Nat.zero_add]
  congr 1
  · refine markFrom_congr fun k _ hk => ?_
    rw [inBlocks_append, @inBlocks_eq_false k ((hiddenBlocks B).map _), Bool.or_false]
    intro b hb
    obtain ⟨a, ha, rfl⟩ := mem_map.mp hb
    have := (hiddenBlocks_lt a ha).1
    simp only [Block.move]
    omega
  · have hmove := markFrom_move A.length (joinLines A).length (hiddenBlocks B) (joinLines B) 0
    rw [Nat.zero_add] at hmove
    rw [marked, ← hmove]
    refine markFrom_congr fun k hk _ => ?_
    rw [inBlocks_append, @inBlocks_eq_false k (hiddenBlocks A), Bool.false_or]
    intro b hb
    have := (hiddenBlocks_lt b hb).2
    omega

end FunctionDocs.Source
