import FunctionDocs.Proofs.Segments

/-!
# The outline of lines

Where the functions of lines start, with their names and parameters. The outline of a segment is read with the joined lines below
it present, and depends on these only through the question whether a body follows. The functions of lines are their outline
together with the comment above each start.
-/

open List

namespace FunctionDocs.Source

open Text

variable {xs : List (Joined × Bool)} {hidden : List Block} {before fs : List Function} {below below' js : List Joined}
  {ss : List Start} {ls : List Text} {i : Nat} {template : PendingTemplate} {s : Sheet} {l : Text} {x : Joined × Bool} {A : List Text} {bs cs : List Block}

/-! ## Starts -/

/-- Where a function starts, its name and its parameters. -/
structure Start where
  line : Nat
  name : Text
  params : Text
  deriving DecidableEq

def Start.move (n : Nat) (s : Start) : Start := ⟨s.line + n, s.name, s.params⟩

def Function.start (f : Function) : Start := ⟨f.startLine, f.name, f.params⟩

/-- The name and the parameters of the function that a joined line begins, if any. -/
def headOn (j : Joined) (below : List Joined) : Except Failure (Option (Text × Text)) :=
  let m := mask j.text
  let line := (readTemplate m none).2
  if isControl line then .ok none
  else (readHead (headText line) below).map fun h? => h?.map fun h => (h.name, m.restore h.params)

/-- The name and the parameters of the function that a marked line begins; a hidden line begins none. -/
def headAt (x : Joined × Bool) (below : List Joined) : Except Failure (Option (Text × Text)) :=
  if x.2 then .ok none else headOn x.1 below

def startAt (j : Joined) (head : Option (Text × Text)) : List Start := (head.map fun h => ⟨j.first, h.1, h.2⟩).toList

def startsOn (below : List Joined) : List (Joined × Bool) → Except Failure (List Start)
  | [] => .ok []
  | x :: xs => do
    let head ← headAt x (xs.map (·.1) ++ below)
    let ss ← startsOn below xs
    return startAt x.1 head ++ ss

/-- The starts of the functions that lines define, if they stand above other joined lines. -/
def startsOver (below : List Joined) (ls : List Text) : Except Failure (List Start) := startsOn below (marked ls)

def functionsIn (file : Text) (ls : List Text) : Except Failure (List Function) :=
  (⟨file, ls, blocks ls⟩ : Sheet).functionsFrom (hiddenBlocks ls) 0 none [] (joinLines ls)

lemma functionsOf_eq (content file : Text) : functionsOf content file = functionsIn file content.lines := rfl

lemma map_markFrom (bs : List Block) (i : Nat) (js : List Joined) : (markFrom bs i js).map (·.1) = js := by
  induction js generalizing i with
  | nil => rfl
  | cons j js ih => rw [markFrom, map_cons, ih]

lemma map_marked (ls : List Text) : (marked ls).map (·.1) = joinLines ls := map_markFrom _ _ _

lemma readTemplate_line (m : Masked) (pending : PendingTemplate) : (readTemplate m pending).2 = (readTemplate m none).2 := by
  simp only [readTemplate]
  split
  · split <;> rfl
  · rfl

lemma startsOn_cons :
    startsOn below (x :: xs) = .ok ss ↔
      ∃ head rest, headAt x (xs.map (·.1) ++ below) = .ok head ∧ startsOn below xs = .ok rest ∧ ss = startAt x.1 head ++ rest := by
  constructor
  · intro h
    obtain ⟨head, hhead, h⟩ := ok_of_bind_ok h
    obtain ⟨rest, hrest, h⟩ := ok_of_bind_ok h
    cases h
    exact ⟨head, rest, hhead, hrest, rfl⟩
  · rintro ⟨head, rest, hhead, hrest, rfl⟩
    rw [startsOn, hhead]
    simp only [hrest]
    rfl

lemma functionsFrom_cons {j : Joined} (h : s.functionsFrom hidden i template before (j :: js) = .ok fs) :
    (headAt (j, inBlocks i hidden) js = .ok none ∧
      s.functionsFrom hidden (i + 1) (if inBlocks i hidden then template else (readTemplate (mask j.text) template).1) before js = .ok fs) ∨
    ∃ h f, inBlocks i hidden = false ∧ readHead (headText (readTemplate (mask j.text) none).2) js = .ok (some h) ∧
      headAt (j, false) js = .ok (some (h.name, (mask j.text).restore h.params)) ∧
      s.function before (mask j.text) (readTemplate (mask j.text) template).1 j h = .ok f ∧
      s.functionsFrom hidden (i + 1) none (before ++ [f]) js = .ok fs := by
  rw [Sheet.functionsFrom] at h
  cases hin : inBlocks i hidden with
  | true =>
    rw [hin] at h
    exact .inl ⟨rfl, h⟩
  | false =>
    rw [hin, if_neg Bool.false_ne_true] at h
    simp only [readTemplate_line _ template] at h
    split at h
    next hcontrol =>
      exact .inl ⟨by simp only [headAt, headOn, hcontrol]; rfl, h⟩
    next hcontrol =>
      obtain ⟨head, hhead, h⟩ := ok_of_bind_ok h
      have hat : headAt (j, false) js = .ok (head.map fun h => (h.name, (mask j.text).restore h.params)) := by
        simp only [headAt, headOn, hcontrol, hhead]
        rfl
      cases head with
      | none => exact .inl ⟨hat, h⟩
      | some head =>
        obtain ⟨f, hf, h⟩ := ok_of_bind_ok h
        exact .inr ⟨head, f, rfl, hhead, hat, hf, h⟩

lemma functionsFrom_ok (h : s.functionsFrom hidden i template before js = .ok fs) :
    ∃ new, fs = before ++ new ∧ startsOn [] (markFrom hidden i js) = .ok (new.map Function.start) ∧
      ∀ f ∈ new, commentAbove s.lines f.startLine s.blocks = .ok f.comment ∧ f.isDoxygen = isDoxygenComment f.comment := by
  induction js generalizing i template before with
  | nil =>
    cases h
    exact ⟨[], by simp, rfl, nofun⟩
  | cons j js ih =>
    rcases functionsFrom_cons h with ⟨hhead, h⟩ | ⟨head, f, hin, -, hhead, hf, h⟩
    · obtain ⟨new, hfs, hstarts, hnew⟩ := ih h
      exact ⟨new, hfs, startsOn_cons.mpr ⟨none, _, by rw [map_markFrom, append_nil]; exact hhead, hstarts, rfl⟩, hnew⟩
    · obtain ⟨new, rfl, hstarts, hnew⟩ := ih h
      obtain ⟨comment, hcomment, rfl⟩ := Sheet.function_ok hf
      refine ⟨_ :: new, append_cons .. |>.symm, ?_, forall_mem_cons.mpr ⟨⟨hcomment, rfl⟩, hnew⟩⟩
      exact startsOn_cons.mpr ⟨_, _, by rw [map_markFrom, append_nil, hin]; exact hhead, hstarts, rfl⟩

lemma functionsFrom_of_starts (h : startsOn [] (markFrom hidden i js) = .ok ss)
    (hcomments : ∀ j ∈ js, ∃ comment, commentAbove s.lines j.first s.blocks = .ok comment) :
    ∃ fs, s.functionsFrom hidden i template before js = .ok fs := by
  induction js generalizing i template before ss with
  | nil => exact ⟨before, rfl⟩
  | cons j js ih =>
    obtain ⟨⟨comment, hcomment⟩, hrest⟩ := forall_mem_cons.mp hcomments
    obtain ⟨head, rest, hhead, hstarts, -⟩ := startsOn_cons.mp h
    rw [map_markFrom, append_nil] at hhead
    rw [Sheet.functionsFrom]
    split
    · exact ih hstarts hrest
    next hin =>
      simp only [readTemplate_line _ template]
      split
      · exact ih hstarts hrest
      next hcontrol =>
        simp only [headAt, hin, headOn, hcontrol] at hhead
        cases hread : readHead (headText (readTemplate (mask j.text) none).2) js with
        | error e =>
          rw [hread] at hhead
          cases hhead
        | ok found =>
          cases found with
          | none => exact ih hstarts hrest
          | some found =>
            simp only [Sheet.function, hcomment]
            exact ih hstarts hrest

/-! ## Starts of segments -/

lemma bodyFollows_append {X Y Y' : List Joined} (hY : bodyFollows Y → bodyFollows Y')
    (h : bodyFollows (X ++ Y)) : bodyFollows (X ++ Y') := by
  induction X with
  | nil => exact hY h
  | cons j X ih =>
    simp only [cons_append, bodyFollows] at h ⊢
    split at h
    next hbrace =>
      rw [if_pos hbrace]
    next hbrace =>
      rw [if_neg hbrace]
      split at h
      next hskip =>
        rw [if_pos hskip]
        exact ih h
      · cases h

lemma bodyFollows_move (n : Nat) (js below : List Joined) : bodyFollows (js.map (.move n) ++ below) = bodyFollows (js ++ below) := by
  induction js with
  | nil => rfl
  | cons j js ih =>
    rw [map_cons, cons_append, bodyFollows, ih]
    rfl

lemma readHead_mono {line : Text} {o : Option Head} (hbody : bodyFollows below → bodyFollows below') (h : readHead line below = .ok o) :
    readHead line below' = .ok o := by
  unfold readHead at h ⊢
  split at h
  · exact h
  · split at h
    · exact h
    · split at h
      next hopen =>
        rw [if_pos]
        · exact h
        · rcases Bool.or_eq_true_iff.mp hopen with hbrace | hfollows
          · rw [hbrace, Bool.true_or]
          · rw [hbody hfollows, Bool.or_true]
      · cases h

lemma headAt_mono {o : Option (Text × Text)}
    (hbody : bodyFollows below → bodyFollows below') (h : headAt x below = .ok o) : headAt x below' = .ok o := by
  unfold headAt headOn at h ⊢
  split at h
  next hhidden =>
    rw [if_pos hhidden]
    exact h
  next hhidden =>
    rw [if_neg hhidden]
    dsimp only at h ⊢
    split at h
    next hcontrol =>
      rw [if_pos hcontrol]
      exact h
    next hcontrol =>
      rw [if_neg hcontrol]
      cases hread : readHead (headText (readTemplate (mask x.1.text) none).2) below with
      | error e =>
        rw [hread] at h
        cases h
      | ok found =>
        rw [hread] at h
        rw [readHead_mono hbody hread]
        exact h

lemma startsOn_mono (hbody : bodyFollows below → bodyFollows below') (h : startsOn below xs = .ok ss) :
    startsOn below' xs = .ok ss := by
  induction xs generalizing ss with
  | nil => exact h
  | cons x xs ih =>
    obtain ⟨head, rest, hhead, hrest, rfl⟩ := startsOn_cons.mp h
    exact startsOn_cons.mpr ⟨head, rest, headAt_mono (bodyFollows_append hbody) hhead, ih hrest, rfl⟩

lemma startsOn_append {ys : List (Joined × Bool)} :
    startsOn below (xs ++ ys) = .ok ss ↔
      ∃ a b, startsOn (ys.map (·.1) ++ below) xs = .ok a ∧ startsOn below ys = .ok b ∧ ss = a ++ b := by
  induction xs generalizing ss with
  | nil => exact ⟨fun h => ⟨[], ss, rfl, h, rfl⟩, fun ⟨a, b, ha, hb, hss⟩ => by cases ha; rw [hss]; exact hb⟩
  | cons x xs ih =>
    rw [cons_append, startsOn_cons, map_append, append_assoc]
    constructor
    · rintro ⟨head, rest, hhead, hrest, rfl⟩
      obtain ⟨a, b, ha, hb, rfl⟩ := ih.mp hrest
      exact ⟨startAt x.1 head ++ a, b, startsOn_cons.mpr ⟨head, a, hhead, ha, rfl⟩, hb, (append_assoc _ _ _).symm⟩
    · rintro ⟨a, b, ha, hb, rfl⟩
      obtain ⟨head, rest, hhead, hrest, rfl⟩ := startsOn_cons.mp ha
      exact ⟨head, rest ++ b, hhead, ih.mpr ⟨rest, b, hrest, hb, rfl⟩, append_assoc _ _ _⟩

lemma startAt_move (n : Nat) (j : Joined) (head : Option (Text × Text)) :
    startAt (j.move n) head = (startAt j head).map (.move n) := by
  cases head <;> rfl

lemma headAt_congr (h : bodyFollows below = bodyFollows below') (x : Joined × Bool) : headAt x below = headAt x below' := by
  unfold headAt headOn readHead
  rw [h]

lemma startsOn_move (n : Nat) (below : List Joined) (xs : List (Joined × Bool)) :
    startsOn below (xs.map fun x => (x.1.move n, x.2)) = (startsOn below xs).map (List.map (Start.move n)) := by
  induction xs with
  | nil => rfl
  | cons x xs ih =>
    have htexts : (xs.map fun x => (x.1.move n, x.2)).map (·.1) = (xs.map (·.1)).map (Joined.move n) := by
      rw [map_map, map_map]
      rfl
    have hhead : headAt (x.1.move n, x.2) ((xs.map (·.1)).map (Joined.move n) ++ below) = headAt x (xs.map (·.1) ++ below) :=
      headAt_congr (bodyFollows_move n _ _) x
    rw [map_cons, startsOn, startsOn, htexts, hhead, ih]
    cases headAt x (xs.map (·.1) ++ below) with
    | error e => rfl
    | ok head =>
      cases startsOn below xs with
      | error e => rfl
      | ok ss =>
        refine congrArg Except.ok ?_
        rw [map_append, startAt_move]

lemma startsOver_append {B : List Text} (h : Cut A B) {below : List Joined} {ss : List Start} :
    startsOver below (A ++ B) = .ok ss ↔
      ∃ a b, startsOver (joinLines B ++ below) A = .ok a ∧ startsOver below B = .ok b ∧ ss = a ++ b.map (Start.move A.length) := by
  have htexts : ((marked B).map fun x => (x.1.move A.length, x.2)).map (·.1) = (joinLines B).map (.move A.length) := by
    rw [← map_marked, map_map, map_map]
    rfl
  rw [startsOver, marked_append h, startsOn_append, htexts, startsOn_move]
  constructor
  · rintro ⟨a, b, ha, hb, rfl⟩
    cases hB : startsOver below B with
    | error e =>
      rw [startsOver] at hB
      rw [hB] at hb
      cases hb
    | ok b =>
      rw [startsOver] at hB
      rw [hB] at hb
      cases hb
      exact ⟨a, b, startsOn_mono (fun hbody => by rwa [bodyFollows_move] at hbody) ha, rfl, rfl⟩
  · rintro ⟨a, b, ha, hb, rfl⟩
    rw [startsOver] at hb
    exact ⟨a, _, startsOn_mono (fun hbody => by rwa [bodyFollows_move]) ha, by rw [hb]; rfl, rfl⟩

lemma startsOn_sublist (h : startsOn below xs = .ok ss) : ss.map (·.line) <+ xs.map (·.1.first) := by
  induction xs generalizing ss with
  | nil =>
    cases h
    exact .slnil
  | cons x xs ih =>
    obtain ⟨head, rest, -, hrest, rfl⟩ := startsOn_cons.mp h
    cases head with
    | none => exact (ih hrest).cons _
    | some head => exact (ih hrest).cons_cons _

lemma startsOver_sublist (h : startsOver below ls = .ok ss) : ss.map (·.line) <+ (joinLines ls).map (·.first) := by
  have hsub := startsOn_sublist h
  rwa [← map_marked, map_map]

lemma startsOver_lt (h : startsOver below ls = .ok ss) : ∀ s ∈ ss, s.line < ls.length := by
  intro s hs
  obtain ⟨j, hj, hline⟩ := mem_map.mp ((startsOver_sublist h).subset (mem_map_of_mem hs))
  rw [← hline]
  exact ((ordered_joinLines ls).bounds j hj).2

/-! ## Comments -/

/-- The text of the nearest block above a line, as far as it is directly above it. -/
def blockOver (ls : List Text) (i : Nat) : List Block → Text
  | [] => []
  | b :: bs =>
    if b.last < i && ((ls.take (b.last + 1).toNat).drop b.first.toNat).all isBlockLine then
      if ((ls.take i).drop (b.last + 1).toNat).all isGapLine then b.text else []
    else blockOver ls i bs

def commentOf (ls : List Text) (i : Nat) : Text :=
  let block := blockOver ls i (blocks ls).reverse
  if block.isEmpty then unlines (slashRun (ls.take i).reverse) else block

lemma allLines_eq {ls : List Text} {test : Text → Bool} {lo hi : Nat} (hhi : hi ≤ ls.length) :
    allLines ls test (integersFrom lo hi) = .ok (((ls.take hi).drop lo).all test) := by
  induction hn : hi - lo generalizing lo with
  | zero =>
    have hempty : integersFrom lo hi = [] := by
      have : ((hi : Int) - lo).toNat = 0 := by omega
      rw [integersFrom, this]
      rfl
    rw [hempty, drop_eq_nil_of_le (by rw [length_take]; omega)]
    rfl
  | succ n ih =>
    have hlt : lo < ls.length := by omega
    have hitem : lineAt ls lo = .ok ls[lo] := by
      rw [lineAt, itemAt?, if_pos (by omega), Int.toNat_natCast, getElem?_eq_getElem hlt]
    have hdrop : (ls.take hi).drop lo = ls[lo] :: (ls.take hi).drop (lo + 1) := by
      rw [drop_eq_getElem_cons (by rw [length_take]; omega), getElem_take]
    have hnext := @ih (lo + 1) (by omega)
    rw [integersFrom_cons (by omega), allLines, hitem, hdrop, all_cons]
    simp only [bind, Except.bind]
    cases test ls[lo] with
    | true => exact hnext
    | false => rfl

lemma blockAbove_eq (hi : i ≤ ls.length)
    (hbs : ∀ b ∈ bs, 0 ≤ b.first ∧ b.first ≤ b.last) : blockAbove ls i bs = .ok (blockOver ls i bs) := by
  induction bs with
  | nil => rfl
  | cons b bs ih =>
    obtain ⟨⟨hfirst, hle⟩, hbs⟩ := forall_mem_cons.mp hbs
    rw [blockAbove, blockOver]
    by_cases hlast : b.last < i
    · have hlines : allLines ls isBlockLine (integersFrom b.first (b.last + 1)) =
          .ok (((ls.take (b.last + 1).toNat).drop b.first.toNat).all isBlockLine) := by
        have h := @allLines_eq ls isBlockLine b.first.toNat (b.last + 1).toNat (by omega)
        rwa [Int.toNat_of_nonneg hfirst, Int.toNat_of_nonneg (by omega)] at h
      have hgap : allLines ls isGapLine (integersFrom (b.last + 1) i) =
          .ok (((ls.take i).drop (b.last + 1).toNat).all isGapLine) := by
        have h := @allLines_eq ls isGapLine (b.last + 1).toNat i hi
        rwa [Int.toNat_of_nonneg (by omega)] at h
      rw [if_pos hlast, hlines, hgap, decide_eq_true hlast, Bool.true_and]
      simp only [bind, Except.bind]
      split
      · split <;> rfl
      · exact ih hbs
    · rw [if_neg hlast, decide_eq_false hlast]
      exact ih hbs

lemma blocks_ordered (ls : List Text) : ∀ b ∈ (blocks ls).reverse, 0 ≤ b.first ∧ b.first ≤ b.last := by
  intro b hb
  obtain ⟨hfirst, hle, -⟩ := mem_blocks (mem_reverse.mp hb)
  exact ⟨hfirst, hle⟩

lemma commentAbove_eq (hi : i ≤ ls.length) : commentAbove ls i (blocks ls) = .ok (commentOf ls i) := by
  rw [commentAbove, blockAbove_eq hi (blocks_ordered ls), commentOf]
  simp only [bind, Except.bind]
  cases hempty : (blockOver ls i (blocks ls).reverse).isEmpty with
  | false => rfl
  | true =>
    simp only [Bool.not_true, Bool.false_eq_true, if_false]
    split
    next hzero =>
      have hi : i = 0 := by omega
      rw [hi]
      rfl
    · rw [if_neg (by omega)]
      rfl

lemma blockOver_cases (ls : List Text) (i : Nat) (bs : List Block) :
    blockOver ls i bs = [] ∨ ∃ b ∈ bs, blockOver ls i bs = b.text ∧ b.last < i ∧
      (∀ l ∈ (ls.take (b.last + 1).toNat).drop b.first.toNat, isBlockLine l) ∧
      ∀ l ∈ (ls.take i).drop (b.last + 1).toNat, isGapLine l := by
  induction bs with
  | nil => exact .inl rfl
  | cons b bs ih =>
    rw [blockOver]
    split
    next hb =>
      obtain ⟨hlast, hlines⟩ := Bool.and_eq_true_iff.mp hb
      split
      next hgap =>
        exact .inr ⟨b, mem_cons_self, rfl, of_decide_eq_true hlast, all_eq_true.mp hlines, all_eq_true.mp hgap⟩
      · exact .inl rfl
    · exact ih.imp_right fun ⟨c, hc, h⟩ => ⟨c, mem_cons_of_mem _ hc, h⟩

/-- The lines of a run, last line first, and those above it. -/
lemma slashRun_split (up : List Text) : ∃ run above, up = run ++ above ∧
    (∀ l ∈ run, startsWith (trim l) "//" ∨ startsWith (trim l) "#") ∧
      slashRun up = (run.reverse.map trim).filter (startsWith · "//") := by
  induction up with
  | nil => exact ⟨[], [], rfl, nofun, rfl⟩
  | cons l up ih =>
    obtain ⟨run, above, rfl, hrun, heq⟩ := ih
    rw [slashRun]
    split
    · exact ⟨[], _, rfl, nofun, rfl⟩
    · split
      next hhash =>
        have hslash : startsWith (trim l) "//" = false := by
          rw [startsWith_eq_false_iff]
          rintro ⟨u, hu⟩
          rw [← hu] at hhash
          cases hhash
        exact ⟨l :: run, above, rfl, forall_mem_cons.mpr ⟨.inr hhash, hrun⟩, by
          simp only [heq, reverse_cons, map_append, filter_append, map_singleton, filter_singleton, hslash]
          exact (append_nil _).symm⟩
      · split
        next hslash =>
          exact ⟨l :: run, above, rfl, forall_mem_cons.mpr ⟨.inl hslash, hrun⟩, by
            simp only [heq, reverse_cons, map_append, filter_append, map_singleton, filter_singleton, hslash, cond_true]⟩
        · exact ⟨[], _, rfl, nofun, rfl⟩

/-- A text stands above line `i` as its comment. Either it is a block of comment lines and between it and the line are only blank
lines and directives, or it is the line comments of a run that reaches down to the line, with directives among them. -/
def Attached (ls : List Text) (i : Nat) (text : Text) : Prop :=
  ∃ a b, a ≤ b ∧ b < i ∧
    ((∀ l ∈ (ls.take (b + 1)).drop a, isBlockLine l) ∧ (∀ l ∈ (ls.take i).drop (b + 1), isGapLine l) ∧
        text = unlines ((ls.take (b + 1)).drop a) ∨
      (∀ l ∈ (ls.take i).drop a, startsWith (trim l) "//" ∨ startsWith (trim l) "#") ∧
        text = unlines ((((ls.take i).drop a).map trim).filter (startsWith · "//")))

/-- A comment is found for every line of a text and for its end, and it is empty or stands directly above. -/
theorem commentAbove_attached (hi : i ≤ ls.length) :
    ∃ text, commentAbove ls i (blocks ls) = .ok text ∧ (text ≠ [] → Attached ls i text) := by
  refine ⟨commentOf ls i, commentAbove_eq hi, fun hne => ?_⟩
  rw [commentOf] at hne ⊢
  by_cases hnil : blockOver ls i (blocks ls).reverse = []
  · obtain ⟨run, above, hup, hrun, heq⟩ := slashRun_split (ls.take i).reverse
    have htake : ls.take i = above.reverse ++ run.reverse := by rw [← reverse_append, ← hup, reverse_reverse]
    have hlen : i = above.length + run.length := by
      have := congrArg length htake
      simp only [length_take, length_append, length_reverse] at this
      omega
    have hdrop : (ls.take i).drop above.length = run.reverse := by rw [htake, drop_left' length_reverse]
    simp only [hnil, isEmpty_nil, if_true, heq] at hne ⊢
    have hpos : run ≠ [] := by
      rintro rfl
      exact hne rfl
    have := length_pos_iff.mpr hpos
    refine ⟨above.length, i - 1, by omega, by omega, .inr ⟨?_, by rw [hdrop]⟩⟩
    rw [hdrop]
    simpa using hrun
  · obtain ⟨b, hb, htext, hlast, hlines, hgap⟩ := (blockOver_cases ls i _).resolve_left hnil
    obtain ⟨first, last, rfl, hle, -⟩ := lines_of_block (mem_reverse.mp hb)
    dsimp only at htext hlast
    have hat : ((last : Int) + 1).toNat = last + 1 := by omega
    simp only [hat, Int.toNat_natCast] at hlines hgap
    refine ⟨first, last, hle, by omega, .inl ⟨hlines, hgap, ?_⟩⟩
    rw [if_neg (by rwa [List.isEmpty_iff]), htext]

def directiveLines : List Text := ["/* one */", "// two", "#if X", " // three", "int f();"]

/-- The line comments around a directive are attached, the block above them is not. -/
theorem directiveLines_attached :
    commentAbove directiveLines 4 (blocks directiveLines) = .ok "// two\n// three" ∧ Attached directiveLines 4 "// two\n// three" := by
  obtain ⟨text, htext, hattached⟩ := @commentAbove_attached directiveLines 4 (by decide)
  have hrun : commentAbove directiveLines 4 (blocks directiveLines) = .ok "// two\n// three" := by decide
  cases htext.symm.trans hrun
  exact ⟨hrun, hattached (by decide)⟩

lemma functionsIn_ok {file : Text} (h : functionsIn file ls = .ok fs) :
    startsOver [] ls = .ok (fs.map Function.start) ∧
      ∀ f ∈ fs, f.comment = commentOf ls f.startLine ∧ f.isDoxygen = isDoxygenComment f.comment ∧ f.startLine < ls.length := by
  obtain ⟨new, hfs, hstarts, hnew⟩ := functionsFrom_ok h
  subst hfs
  refine ⟨hstarts, fun f hf => ?_⟩
  have hlt : f.startLine < ls.length := startsOver_lt hstarts f.start (mem_map_of_mem hf)
  obtain ⟨hcomment, hdoxygen⟩ := hnew f hf
  exact ⟨Except.ok.inj (hcomment.symm.trans (commentAbove_eq hlt.le)), hdoxygen, hlt⟩

/-- The functions of a text stand in the order of its lines. No two have the name, the parameters and the number of one another,
and those that share name and parameters are numbered from one on. -/
theorem functionsOf_listed {content file : Text} (h : functionsOf content file = .ok fs) :
    (fs.map (·.startLine)).Pairwise (· ≤ ·) ∧ (∀ f ∈ fs, f.startLine < content.lines.length) ∧
      (fs.map fun f => (f.name, f.params, f.count)).Nodup ∧
      ∀ name params, ∃ m, (fs.filter fun f => f.name == name && f.params == params).map (·.count) = range' 1 m := by
  obtain ⟨hstarts, hall⟩ := functionsIn_ok h
  have hsub := startsOver_sublist hstarts
  rw [map_map] at hsub
  have hcounted := functionsOf_counted h
  refine ⟨((pairwise_map.mpr (ordered_joinLines _).sorted)).sublist hsub, fun f hf => (hall f hf).2.2, hcounted.nodup, ?_⟩
  exact fun name params => ⟨_, hcounted.counts name params⟩

/-- The branches of a condition define one function, and the second branch has another one on the same line. -/
def branchesText : Text := "#if A\nvoid f(int x) \x7b\n\x7d\n#else\nvoid f(int x) \x7b g(); \x7d int f() \x7b\n\x7d\n#endif\n"

theorem functionsOf_branches_listed :
    ∃ fs, functionsOf branchesText [] = .ok fs ∧ (fs.map (·.startLine)).Pairwise (· ≤ ·) ∧
      (∀ f ∈ fs, f.startLine < branchesText.lines.length) ∧ (fs.map fun f => (f.name, f.params, f.count)).Nodup ∧
      (∀ name params, ∃ m, (fs.filter fun f => f.name == name && f.params == params).map (·.count) = range' 1 m) ∧
      fs.map (fun f => (f.startLine, f.count)) = [(1, 1), (4, 2), (4, 1)] := by
  have h : functionsOf branchesText [] = .ok [⟨"f", "void", "int x", false, [], false, [], 1, 1, false, none⟩,
      ⟨"f", "void", "int x", false, [], false, [], 4, 2, false, none⟩, ⟨"f", "int", [], false, [], false, [], 4, 1, false, none⟩] := by
    decide
  obtain ⟨hsorted, hlines, hkeys, hcounts⟩ := functionsOf_listed h
  exact ⟨_, h, hsorted, hlines, hkeys, hcounts, rfl⟩

lemma functionsIn_of_starts (h : startsOver [] ls = .ok ss) (file : Text) : ∃ fs, functionsIn file ls = .ok fs := by
  refine functionsFrom_of_starts h fun j hj => ⟨_, commentAbove_eq ?_⟩
  exact ((ordered_joinLines ls).bounds j hj).2.le

/-! ## Comments in segments -/

lemma blocks_take (A R : List Text) : ∃ later, blocks (A ++ R) = blocks A ++ later ∧ ∀ b ∈ later, (A.length : Int) ≤ b.last := by
  have hmove : ∀ n {later : List Block} {i : Int}, (∀ b ∈ later, i ≤ b.last) → ∀ b ∈ later.map (Block.move n), i + n ≤ b.last := by
    intro n later i h
    rw [forall_mem_map]
    exact fun b hb => Int.add_le_add_right (h b hb) n
  have hA := blocked_blocks A
  generalize blocks A = bs at hA
  induction hA with
  | code hl _ ih =>
    obtain ⟨later, hlater, hlast⟩ := ih
    exact ⟨later.map (.move 1), by rw [cons_append, blocks_cons hl, hlater, map_append], hmove 1 hlast⟩
  | @block M c A bs hopen hM hc _ ih =>
    obtain ⟨later, hlater, hlast⟩ := ih
    refine ⟨later.map (.move (M.length + 1)), ?_, fun b hb => ?_⟩
    · rw [append_assoc, cons_append, blocks_block hopen hM hc, hlater, map_append]
      rfl
    · have := hmove _ hlast b hb
      rw [length_append, length_cons]
      omega
  | unclosed _ hM =>
    refine ⟨_, rfl, fun b hb => ?_⟩
    obtain ⟨first, last, rfl, -, -, ⟨l, hl, hclose⟩, -⟩ := lines_of_block hb
    by_contra hlt
    rw [getElem?_append_left (by dsimp only at hlt; omega)] at hl
    rw [hM l (mem_of_getElem? hl)] at hclose
    cases hclose

lemma blockOver_append (h : ∀ b ∈ bs, (i : Int) ≤ b.last) : blockOver ls i (bs ++ cs) = blockOver ls i cs := by
  induction bs with
  | nil => rfl
  | cons b bs ih =>
    obtain ⟨hb, hbs⟩ := forall_mem_cons.mp h
    rw [cons_append, blockOver, decide_eq_false (by omega)]
    exact ih hbs

lemma blockOver_congr {ls' : List Text} (h : ls.take i = ls'.take i) (bs : List Block) :
    blockOver ls i bs = blockOver ls' i bs := by
  induction bs with
  | nil => rfl
  | cons b bs ih =>
    rw [blockOver, blockOver, ih, h]
    by_cases hlast : b.last < i
    · have htake : ls.take (b.last + 1).toNat = ls'.take (b.last + 1).toNat := by
        have hmin : (b.last + 1).toNat = min (b.last + 1).toNat i := by omega
        rw [hmin, ← take_take, ← take_take, h]
      rw [htake]
    · rw [decide_eq_false hlast, Bool.false_and, Bool.false_and]

lemma commentOf_append (R : List Text) {i : Nat} (hi : i ≤ A.length) : commentOf (A ++ R) i = commentOf A i := by
  obtain ⟨later, hlater, hlast⟩ := blocks_take A R
  have htake : (A ++ R).take i = A.take i := take_append_of_le_length hi
  have hblock : blockOver (A ++ R) i (blocks (A ++ R)).reverse = blockOver A i (blocks A).reverse := by
    rw [hlater, reverse_append, blockOver_append, blockOver_congr htake]
    intro b hb
    have := hlast b (mem_reverse.mp hb)
    omega
  rw [commentOf, commentOf, hblock, htake]

/-- A line that is neither blank nor a comment nor a directive, so that no comment reaches over it. -/
@[mk_iff]
structure Firm (l : Text) : Prop where
  gap : isGapLine l = false
  slash : startsWith (trim l) "//" = false
  block : startsWith (trim l) "/*" = false
  directive : startsWith (trim l) "#" = false

instance (l : Text) : Decidable (Firm l) := decidable_of_iff _ (firm_iff ..).symm

lemma slashRun_firm (h : Firm l) (us vs : List Text) : slashRun (us ++ l :: vs) = slashRun us := by
  induction us with
  | nil =>
    have hempty : (trim l).isEmpty = false := (Bool.or_eq_false_iff.mp h.gap).1
    change slashRun (l :: vs) = []
    rw [slashRun, hempty, h.directive, h.slash]
    rfl
  | cons u us ih => rw [cons_append, slashRun, slashRun, ih]

lemma blockOver_move (X R : List Text) (i : Nat) (hbs : ∀ b ∈ bs, 0 ≤ b.first ∧ b.first ≤ b.last)
    (hcs : blockOver (X ++ R) (X.length + i) cs = []) :
    blockOver (X ++ R) (X.length + i) (bs.map (.move X.length) ++ cs) = blockOver R i bs := by
  induction bs with
  | nil => exact hcs
  | cons b bs ih =>
    obtain ⟨⟨hfirst, hle⟩, hbs⟩ := forall_mem_cons.mp hbs
    have hlast : decide ((b.move X.length).last < ((X.length + i : Nat) : Int)) = decide (b.last < i) :=
      decide_eq_decide.mpr (by simp only [Block.move]; omega)
    have hlow : (b.first + (X.length : Int)).toNat = X.length + b.first.toNat := by omega
    have hhigh : (b.last + (X.length : Int) + 1).toNat = X.length + (b.last + 1).toNat := by omega
    rw [map_cons, cons_append, blockOver, blockOver, ih hbs, hlast]
    simp only [Block.move, hlow, hhigh, take_length_add_append, drop_length_add_append]

lemma blockOver_beyond {k : Nat} (hk : k < i) (hl : ls[k]? = some l) (hgap : isGapLine l = false)
    (hbs : ∀ b ∈ bs, b.last < k) : blockOver ls i bs = [] := by
  induction bs with
  | nil => rfl
  | cons b bs ih =>
    obtain ⟨hb, hbs⟩ := forall_mem_cons.mp hbs
    have hmem : l ∈ (ls.take i).drop (b.last + 1).toNat := by
      refine mem_of_getElem? (i := k - (b.last + 1).toNat) ?_
      have hat : (b.last + 1).toNat + (k - (b.last + 1).toNat) = k := by omega
      rw [getElem?_drop, hat, getElem?_take_of_lt hk, hl]
    have hall : ((ls.take i).drop (b.last + 1).toNat).all isGapLine = false := all_eq_false.mpr ⟨l, hmem, by rw [hgap]; nofun⟩
    rw [blockOver, ih hbs, hall]
    split <;> rfl

lemma commentOf_firm {X : List Text} (hX : blockOpen false X = false) (hl : Firm l) (R : List Text) (i : Nat) :
    commentOf (X ++ l :: R) (X.length + 1 + i) = commentOf R i := by
  have hshape : X ++ l :: R = X ++ [l] ++ R := append_cons X l R
  have hlen : X.length + 1 = (X ++ [l]).length := by simp
  have hline : blocks [l] = [] := by
    rw [blocks, blocksFrom_cons, blockWith, hl.block]
    rfl
  have hblocks : blocks (X ++ [l]) = blocks X := by rw [blocks_append hX, hline, map_nil, append_nil]
  have hclosed : blockOpen false (X ++ [l]) = false := by
    rw [blockOpen_append, hX, blockOpen, hl.block]
    rfl
  have hgap : blockOver (X ++ [l] ++ R) ((X ++ [l]).length + i) (blocks X).reverse = [] := by
    have hat : (X ++ [l] ++ R)[X.length]? = some l := by simp
    refine blockOver_beyond (by rw [← hlen]; omega) hat hl.gap fun b hb => ?_
    exact (mem_blocks (mem_reverse.mp hb)).2.2
  have hblock : blockOver (X ++ [l] ++ R) ((X ++ [l]).length + i) (blocks (X ++ [l] ++ R)).reverse = blockOver R i (blocks R).reverse := by
    rw [blocks_append hclosed, hblocks, reverse_append, ← map_reverse]
    exact blockOver_move (X ++ [l]) R i (blocks_ordered R) hgap
  have hrun : slashRun ((X ++ [l] ++ R).take ((X ++ [l]).length + i)).reverse = slashRun (R.take i).reverse := by
    rw [take_length_add_append, reverse_append, reverse_append]
    exact slashRun_firm hl _ _
  rw [hshape, hlen, commentOf, commentOf, hblock, hrun]

end FunctionDocs.Source
