import FunctionDocs.Proofs.Blanking
import FunctionDocs.Proofs.CommentBlock
import FunctionDocs.Proofs.SpacedLines

/-!
# Block comments and the functions of a text

A block comment may hide functions of a text or bring new ones in, as lines are joined before comments are told from code. The text is
divided into passages that are read apart from each other, with and without the comments. The functions of the text are those without
its comments exactly when this holds of every passage; of some kinds of passages it always holds.
-/

open List

namespace FunctionDocs.Source

open Text Pattern Code

variable {ls : List Text}

/-! ## Lines that define nothing -/

lemma readHead_of_not_mem {line : Text} (h : '(' ∉ line) (below : List Joined) : readHead line below = .ok none := by
  have hconstructor : constructorHead.match? line = none := by
    refine match_none ?_ h
    rintro x ⟨_, _, rfl, -, _, _, rfl, -, _, _, rfl, -, _, _, rfl, rfl, -⟩
    simp
  have hfunction : functionHead.match? line = none := by
    refine match_none ?_ h
    rintro x ⟨_, _, rfl, -, _, _, rfl, -, _, _, rfl, -, _, _, rfl, -, _, _, rfl, -, _, _, rfl, rfl, -⟩
    simp
  rw [readHead, constructorHead?, hconstructor, functionHead?, hfunction]
  rfl

lemma headOn_of_not_mem {j : Joined} (h : '(' ∉ j.text) (below : List Joined) : headOn j below = .ok none := by
  have hline : '(' ∉ headText (readTemplate (mask j.text) none).2 := fun hmem =>
    h (mem_mask (by decide) (readTemplate_subset _ _ (headText_subset _ hmem)))
  unfold headOn
  dsimp only
  split
  · rfl
  · rw [readHead_of_not_mem hline]
    rfl

/-- Lines that define no function: none of them has an opening parenthesis after joining, or they are a block comment. -/
inductive Mute : List Text → Prop
  | bare {ls : List Text} (h : ∀ j ∈ joinLines ls, '(' ∉ j.text) : Mute ls
  | block {first last : Text} {mid : List Text} (h : CommentBlock first mid last) : Mute (first :: mid ++ [last])

lemma mute_iff :
    Mute ls ↔ (∀ j ∈ joinLines ls, '(' ∉ j.text) ∨
      (ls = ls.headD [] :: ls.tail.dropLast ++ [ls.getLastD []] ∧ CommentBlock (ls.headD []) ls.tail.dropLast (ls.getLastD [])) := by
  constructor
  · rintro (h | @⟨first, last, mid, h⟩)
    · exact .inl h
    · have hlast : (first :: mid ++ [last]).getLastD [] = last := by simp [getLast?_cons]
      have hmid : (first :: mid ++ [last]).tail.dropLast = mid := by simp
      rw [hlast, hmid]
      exact .inr ⟨rfl, h⟩
  · rintro (h | ⟨hls, h⟩)
    · exact .bare h
    · rw [hls]
      exact .block h

instance (ls : List Text) : Decidable (Mute ls) := decidable_of_iff _ mute_iff.symm

lemma startsOn_of_not_mem {xs : List (Joined × Bool)} (h : ∀ x ∈ xs, '(' ∉ x.1.text) (below : List Joined) :
    startsOn below xs = .ok [] := by
  induction xs with
  | nil => rfl
  | cons x xs ih =>
    obtain ⟨hx, hxs⟩ := forall_mem_cons.mp h
    refine startsOn_cons.mpr ⟨none, [], ?_, ih hxs, rfl⟩
    rw [headAt, headOn_of_not_mem hx]
    split <;> rfl

lemma Mute.startsOver_eq (h : Mute ls) (below : List Joined) : startsOver below ls = .ok [] := by
  cases h with
  | @bare ls h =>
    refine startsOn_of_not_mem (fun x hx => h x.1 ?_) below
    rw [← map_marked ls]
    exact mem_map_of_mem hx
  | block h => exact h.startsOver_eq below

/-! ## Passages -/

/-- Some lines of a text, each with what it is without comments. -/
abbrev Passage := List (Text × Text)

namespace Passage

variable {ss : List Start}

def lines (W : Passage) : List Text := W.map (·.1)

def blanked (W : Passage) : List Text := W.map (·.2)

lemma lines_append (W V : Passage) : (W ++ V).lines = W.lines ++ V.lines := map_append

lemma blanked_append (W V : Passage) : (W ++ V).blanked = W.blanked ++ V.blanked := map_append

/-- Passages that define the same functions with and without their comments. -/
inductive Kept (W : Passage) : Prop
  | plain (h : W.blanked = W.lines)
  | mute (h : Mute W.lines) (h' : Mute W.blanked)
  | declaration (h : ∀ x ∈ W, Quiet x.1 x.2) (h' : ∀ j ∈ joinLines W.blanked, Ordinary j.text)

instance (W : Passage) : Decidable W.Kept :=
  decidable_of_iff (W.blanked = W.lines ∨ (Mute W.lines ∧ Mute W.blanked) ∨
      ((∀ x ∈ W, Quiet x.1 x.2) ∧ ∀ j ∈ joinLines W.blanked, Ordinary j.text))
    ⟨fun | .inl h => .plain h | .inr (.inl h) => .mute h.1 h.2 | .inr (.inr h) => .declaration h.1 h.2,
      fun | .plain h => .inl h | .mute h h' => .inr (.inl ⟨h, h'⟩) | .declaration h h' => .inr (.inr ⟨h, h'⟩)⟩

lemma Kept.startsOver {W : Passage} (h : W.Kept) {below below' : List Joined}
    (hbody : bodyFollows below → bodyFollows below') (hss : startsOver below W.lines = .ok ss) :
    ∃ ss', startsOver below' W.blanked = .ok ss' ∧ ss'.map Start.label = ss.map Start.label := by
  cases h with
  | plain h => exact ⟨ss, by rw [h]; exact startsOn_mono hbody hss, rfl⟩
  | mute h h' =>
    rw [h.startsOver_eq below] at hss
    cases hss
    exact ⟨[], h'.startsOver_eq below', rfl⟩
  | declaration h h' =>
    have hquiet : Forall₂ Quiet W.lines W.blanked := by
      rw [lines, blanked, forall₂_map_left_iff, forall₂_map_right_iff]
      exact forall₂_same.mpr h
    have hopen : ∀ l ∈ W.lines, startsWith (trim l) "/*" = false := forall_mem_map.mpr fun x hx => ((h x hx).not_comment rfl).1
    have hopen' : ∀ l ∈ W.blanked, startsWith (trim l) "/*" = false := forall_mem_map.mpr fun x hx => ((h x hx).not_comment rfl).2
    rw [Source.startsOver, marked_of_no_opening hopen] at hss
    rw [Source.startsOver, marked_of_no_opening hopen']
    exact startsOn_spaced (joinLines_spaced hquiet) h' hbody hss

/-- A passage and the rest of a text are read apart, with and without comments, and a body that follows the passage still does so
without them. -/
@[mk_iff]
structure Seam (W rest : Passage) : Prop where
  lines : Cut W.lines rest.lines
  blanked : Cut W.blanked rest.blanked
  body : bodyFollows (joinLines rest.lines) = true → bodyFollows (joinLines rest.blanked) = true

instance (W rest : Passage) : Decidable (Seam W rest) := decidable_of_iff _ (seam_iff ..).symm

/-- Divides lines at all seams, where `W` are the lines since the last one. -/
def divide (W : Passage) : Passage → List Passage
  | [] => if W.isEmpty then [] else [W]
  | x :: rest => if Seam (W ++ [x]) rest then (W ++ [x]) :: divide [] rest else divide (W ++ [x]) rest

def whole (ps : List Passage) : Passage := ps.flatten

lemma whole_cons (W : Passage) (ps : List Passage) : whole (W :: ps) = W ++ whole ps := flatten_cons

/-- Every passage but the last ends at a seam. -/
def Divided : List Passage → Prop
  | [] => True
  | W :: after => (Seam W (whole after) ∨ whole after = []) ∧ Divided after

lemma divide_spec (rows W : Passage) : Divided (divide W rows) ∧ whole (divide W rows) = W ++ rows := by
  induction rows generalizing W with
  | nil =>
    rw [divide]
    split
    next hempty =>
      rw [isEmpty_iff.mp hempty]
      exact ⟨trivial, rfl⟩
    · exact ⟨⟨.inr rfl, trivial⟩, whole_cons W []⟩
  | cons x rest ih =>
    have hshape : W ++ x :: rest = (W ++ [x]) ++ rest := append_cons W x rest
    rw [divide]
    split
    next hseam =>
      obtain ⟨hdivided, hwhole⟩ := ih []
      rw [nil_append] at hwhole
      exact ⟨⟨.inl (hwhole.symm ▸ hseam), hdivided⟩, by rw [whole_cons, hwhole, hshape]⟩
    · obtain ⟨hdivided, hwhole⟩ := ih (W ++ [x])
      exact ⟨hdivided, hwhole.trans hshape.symm⟩

/-- The names of the functions that lines define, with the lines they start on, if they stand above other lines. -/
def outlineOver (below ls : List Text) : Except Failure (List (Text × Nat)) :=
  (startsOver (joinLines below) ls).map (List.map Start.label)

/-- Every passage is kept, or at least defines the same functions with and without comments. -/
def Faithful : List Passage → Prop
  | [] => True
  | W :: after =>
    (W.Kept ∨ outlineOver (whole after).blanked W.blanked = outlineOver (whole after).lines W.lines) ∧ Faithful after

instance decidableFaithful : (ps : List Passage) → Decidable (Faithful ps)
  | [] => inferInstanceAs (Decidable True)
  | W :: after =>
    have := decidableFaithful after
    inferInstanceAs (Decidable ((W.Kept ∨ outlineOver (whole after).blanked W.blanked = outlineOver (whole after).lines W.lines) ∧
      Faithful after))

lemma labels_move (n : Nat) (ss : List Start) :
    (ss.map (Start.move n)).map Start.label = (ss.map Start.label).map fun q => (q.1, q.2 + n) := by
  rw [map_map, map_map]
  rfl

lemma labels_split {n : Nat} {a a' b b' : List Start} (ha : ∀ s ∈ a, s.line < n) (ha' : ∀ s ∈ a', s.line < n)
    (h : (a' ++ b'.map (Start.move n)).map Start.label = (a ++ b.map (Start.move n)).map Start.label) :
    a'.map Start.label = a.map Start.label ∧ b'.map Start.label = b.map Start.label := by
  have hlow : ∀ {c : List Start}, (∀ s ∈ c, s.line < n) → (c.map Start.label).filter (·.2 < n) = c.map Start.label := by
    intro c hc
    exact filter_eq_self.mpr (forall_mem_map.mpr fun s hs => decide_eq_true (hc s hs))
  have hhigh : ∀ c : List Start, ((c.map (.move n)).map Start.label).filter (·.2 < n) = [] := by
    intro c
    rw [labels_move, filter_eq_nil_iff]
    exact forall_mem_map.mpr (by simp)
  rw [map_append, map_append] at h
  have hfront := congrArg (List.filter (·.2 < n)) h
  rw [filter_append, filter_append, hlow ha', hlow ha, hhigh, hhigh, append_nil, append_nil] at hfront
  refine ⟨hfront, ?_⟩
  rw [hfront, append_cancel_left_eq, labels_move, labels_move] at h
  refine map_injective_iff.mpr (fun p q hpq => ?_) h
  simp only [Prod.mk.injEq] at hpq
  exact Prod.ext hpq.1 (by omega)

lemma startsOver_apart {A B : List Text} (h : Cut A B ∨ B = []) :
    startsOver [] (A ++ B) = .ok ss ↔
      ∃ a b, startsOver (joinLines B) A = .ok a ∧ startsOver [] B = .ok b ∧ ss = a ++ b.map (Start.move A.length) := by
  rcases h with hcut | rfl
  · rw [startsOver_append hcut, append_nil]
  · rw [append_nil]
    constructor
    · exact fun h => ⟨ss, [], h, rfl, by simp⟩
    · rintro ⟨a, b, ha, hb, rfl⟩
      cases hb
      rw [map_nil, append_nil]
      exact ha

lemma startsOver_iff_faithful {ps : List Passage} (hps : Divided ps)
    (h : startsOver [] (whole ps).lines = .ok ss) :
    (∃ ss', startsOver [] (whole ps).blanked = .ok ss' ∧ ss'.map Start.label = ss.map Start.label) ↔ Faithful ps := by
  induction ps generalizing ss with
  | nil =>
    cases h
    exact iff_of_true ⟨[], rfl, rfl⟩ trivial
  | cons W after ih =>
    obtain ⟨hseam, hafter⟩ := hps
    have hcut : Cut W.lines (whole after).lines ∨ (whole after).lines = [] := hseam.imp Seam.lines fun hnil => by rw [hnil]; rfl
    have hcut' : Cut W.blanked (whole after).blanked ∨ (whole after).blanked = [] :=
      hseam.imp Seam.blanked fun hnil => by rw [hnil]; rfl
    have hbody : bodyFollows (joinLines (whole after).lines) → bodyFollows (joinLines (whole after).blanked) := by
      rcases hseam with hseam | hnil
      · exact hseam.body
      · rw [hnil]
        exact id
    have hlen : W.blanked.length = W.lines.length := by rw [blanked, lines, length_map, length_map]
    rw [whole_cons, lines_append, startsOver_apart hcut] at h
    obtain ⟨a, b, ha, hb, rfl⟩ := h
    rw [whole_cons, blanked_append, Faithful, ← ih hafter hb]
    constructor
    -- the starts of the passage lie above all others, so the outlines agree part by part
    · rintro ⟨ss', hss', hlabels⟩
      obtain ⟨a', b', ha', hb', rfl⟩ := (startsOver_apart hcut').mp hss'
      have hlow' := startsOver_lt ha'
      rw [hlen] at hlow' hlabels
      obtain ⟨hfront, hback⟩ := labels_split (startsOver_lt ha) hlow' hlabels
      refine ⟨.inr ?_, b', hb', hback⟩
      rw [outlineOver, outlineOver, ha, ha']
      exact congrArg Except.ok hfront
    · rintro ⟨hW, b', hb', hback⟩
      obtain ⟨a', ha', hfront⟩ : ∃ a', startsOver (joinLines (whole after).blanked) W.blanked = .ok a' ∧
          a'.map Start.label = a.map Start.label := by
        rcases hW with hkept | hsame
        · exact hkept.startsOver hbody ha
        · rw [outlineOver, outlineOver, ha] at hsame
          cases hstarts : startsOver (joinLines (whole after).blanked) W.blanked with
          | error e =>
            rw [hstarts] at hsame
            cases hsame
          | ok a' =>
            rw [hstarts] at hsame
            exact ⟨a', rfl, Except.ok.inj hsame⟩
      refine ⟨_, (startsOver_apart hcut').mpr ⟨a', b', ha', hb', rfl⟩, ?_⟩
      rw [map_append, map_append, labels_move, labels_move, hfront, hback, hlen]

end Passage

/-- The lines of a text in passages that are read apart, with and without its comments. -/
def passages (content : Text) : List Passage := Passage.divide [] (content.lines.zip (blankComments content).lines)

lemma passages_spec (content : Text) :
    Passage.Divided (passages content) ∧ (Passage.whole (passages content)).lines = content.lines ∧
      (Passage.whole (passages content)).blanked = (blankComments content).lines := by
  have hlen := length_lines_blankComments content
  obtain ⟨hdivided, hwhole⟩ := Passage.divide_spec (content.lines.zip (blankComments content).lines) []
  rw [passages, hwhole, nil_append]
  exact ⟨hdivided, map_fst_zip hlen.ge, map_snd_zip hlen.le⟩

/-- Taking the block comments out leaves the functions of a text exactly when it does so in every passage of it. -/
theorem functionsOf_blankComments_iff {content file : Text} {fs : List Function} (h : functionsOf content file = .ok fs) :
    (∃ fs', functionsOf (blankComments content) file = .ok fs' ∧
        fs'.map (fun f => (f.name, f.startLine)) = fs.map fun f => (f.name, f.startLine)) ↔
      Passage.Faithful (passages content) := by
  have hlabels : ∀ gs : List Function, (gs.map Function.start).map Start.label = gs.map fun f => (f.name, f.startLine) := by
    intro gs
    rw [List.map_map]
    rfl
  obtain ⟨hdivided, hlines, hblanked⟩ := passages_spec content
  have hstarts := (functionsIn_ok h).1
  rw [← hlines] at hstarts
  rw [← Passage.startsOver_iff_faithful hdivided hstarts, hblanked, hlabels]
  constructor
  · rintro ⟨fs', hfs', hsame⟩
    exact ⟨_, (functionsIn_ok hfs').1, (hlabels fs').trans hsame⟩
  · rintro ⟨ss', hss', hsame⟩
    obtain ⟨fs', hfs'⟩ := functionsIn_of_starts hss' file
    have hstart : fs'.map Function.start = ss' := Except.ok.inj ((functionsIn_ok hfs').1.symm.trans hss')
    exact ⟨fs', hfs', by rw [← hlabels, hstart, hsame]⟩

/-- A function with comments above it, in its parameters, in its body and behind its end. -/
def annotated : Text :=
  "/*\n * Adds (a and b).\n */\nstatic int add(int a, int b /* = 1 */) \x7b\n  return a + b; /* sum */\n\x7d /* add */\n"

/-- Comments in these places are harmless: every passage is kept. -/
theorem annotated_faithful :
    ∃ fs fs', functionsOf annotated [] = .ok fs ∧ (∀ W ∈ passages annotated, W.Kept) ∧
      functionsOf (blankComments annotated) [] = .ok fs' ∧
      fs'.map (fun f => (f.name, f.startLine)) = fs.map (fun f => (f.name, f.startLine)) ∧
      fs.map (fun f => (f.name, f.startLine)) = [("add".toList, 3)] := by
  have h : functionsOf annotated [] =
      .ok [⟨"add", "static int", "int a, int b", false, "/*\n * Adds (a and b).\n */", false, [], 3, 1, false, none⟩] := by decide
  obtain ⟨fs', hfs', hsame⟩ := (functionsOf_blankComments_iff h).mpr (by decide)
  exact ⟨_, fs', h, by decide, hfs', hsame, rfl⟩

/-- A comment whose second line has parentheses is joined with the function below it and hides it. -/
theorem comment_hides_function :
    functionsOf "/* Adds two numbers\n   (a and b). */\nint add(int a, int b) \x7b\n\x7d\n" [] = .ok [] ∧
      (functionsOf (blankComments "/* Adds two numbers\n   (a and b). */\nint add(int a, int b) \x7b\n\x7d\n") []).map
        (List.map fun f => (f.name, f.startLine)) = .ok [("add".toList, 2)] := by decide

end FunctionDocs.Source
