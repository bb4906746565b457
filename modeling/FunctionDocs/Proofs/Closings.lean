import FunctionDocs.Header.Insert
import FunctionDocs.Proofs.Edits

/-!
# Closing comments and the code

A comment behind the closing brace of a function keeps the code if the line is outside of comments and literals where the
comment begins, and if its text does not end it.
-/

open List

namespace FunctionDocs

variable {α : Type} {xs : List α} {i : Int} {x : α} {name line : Text} {ls ls' : List Text} {f : Source.Function}

lemma getElem?_cutPoint (h : itemAt? xs i = some x) : xs[cutPoint xs i]? = some x := by
  rw [itemAt?] at h
  rw [cutPoint]
  split at h
  next hi =>
    rw [if_pos hi]
    exact h
  next hi =>
    rw [if_neg hi]
    split at h
    · exact h
    · cases h

lemma split_of_itemAt (h : itemAt? xs i = some x) :
    ∃ rest, xs = itemsBefore xs i ++ [x] ++ rest ∧ ∀ y, putAt xs i y = itemsBefore xs i ++ [y] ++ rest := by
  have hget := getElem?_cutPoint h
  obtain ⟨hlt, hx⟩ := List.getElem?_eq_some_iff.mp hget
  refine ⟨xs.drop (cutPoint xs i + 1), ?_, fun y => ?_⟩
  · rw [itemsBefore, ← hx, append_assoc, singleton_append, ← drop_eq_getElem_cons, take_append_drop]
  · rw [putAt, set_eq_take_append_cons_drop, if_pos hlt, append_assoc]
    rfl

namespace Header

open Text Code Pattern

variable {s e : Pattern.Place} {a t : Text}

lemma manyFrom_taken {p : Char → Bool} {next : Next}
    (h : next (s.skip (s.rest.takeWhile p).length) = some e) : manyFrom p next s.rest 0 s = some e := by
  rw [manyFrom_eq rfl, if_pos (Nat.zero_le _), h]
  intro j _ hnone
  rw [h] at hnone
  cases hnone

/-- What is read behind the slashes of a line comment. -/
def slashTail : Pattern := .all [.blanks, .named "text" (.many Source.isInLine 0), .finish]

lemma run_slashTail (h : '\n' ∉ s.rest) :
    (slashTail.run some s).map Pattern.Place.parts = some (("text", s.rest.dropWhile isBlank) :: s.parts) := by
  have hrest : (s.skip (s.rest.takeWhile isBlank).length).rest = s.rest.dropWhile isBlank := by
    rw [Pattern.Place.rest_skip, drop_takeWhile]
  have hparts := Pattern.Place.parts_skip (s.rest.takeWhile isBlank).length s
  generalize hs' : s.skip (s.rest.takeWhile isBlank).length = s' at hrest hparts
  have htake : s'.rest.takeWhile Source.isInLine = s'.rest := by
    rw [takeWhile_eq_self_iff, hrest]
    intro c hc
    rw [Source.isInLine, bne_iff_ne]
    rintro rfl
    exact h ((dropWhile_suffix _).subset hc)
  have hend : (s'.skip s'.rest.length).rest = [] := by rw [Pattern.Place.rest_skip, drop_length]
  have hrun : slashTail.run some s = some { s'.skip s'.rest.length with
      parts := ("text", (s'.skip s'.rest.length).since s') :: (s'.skip s'.rest.length).parts } := by
    refine manyFrom_taken ?_
    rw [hs']
    refine manyFrom_taken ?_
    rw [htake]
    simp only [hend]
    rfl
  rw [hrun, Option.map_some, Pattern.Place.since_skip (le_refl _), take_length, Pattern.Place.parts_skip, hrest, hparts]

def afterCode (s : Pattern.Place) : Next := fun e =>
  (Pattern.seq (.lit "//") slashTail).run some { e with parts := ("code", e.since s) :: e.parts }

lemma parts_afterCode (hafter : s.After a e) (h : '\n' ∉ e.rest) :
    (afterCode s e).map Pattern.Place.parts =
      if startsWith e.rest "//" then some (("text", (e.rest.drop 2).dropWhile isBlank) :: ("code", a) :: e.parts) else none := by
  rw [afterCode, run, run, hafter.since]
  change Option.map _ (if startsWith e.rest "//" then _ else _) = _
  split
  · rw [run_slashTail, Pattern.Place.rest_skip, Pattern.Place.parts_skip]
    · rfl
    · rw [Pattern.Place.rest_skip]
      exact fun hm => h (drop_subset _ _ hm)
  · rfl

lemma parts_fewFrom (hafter : s.After a e) (hrest : e.rest = t) (h : '\n' ∉ t) :
    (fewFrom Source.isInLine (afterCode s) t 0 e).map Pattern.Place.parts =
      (cutFirst "//" t).map fun cut => ("text", cut.2.dropWhile isBlank) :: ("code", a ++ cut.1) :: e.parts := by
  induction t generalizing e a with
  | nil =>
    have hnext := parts_afterCode hafter (by rwa [hrest])
    rw [hrest] at hnext
    exact hnext
  | cons c r ih =>
    have hnext := parts_afterCode hafter (by rwa [hrest])
    obtain ⟨hc, hr⟩ := ne_and_not_mem_of_not_mem_cons h
    have hline : Source.isInLine c := by simpa [Source.isInLine] using hc.symm
    have hmore := ih (hafter.trans (.step hrest)) rfl hr
    rw [hrest, startsWith] at hnext
    rw [fewFrom, cutFirst, if_pos rfl]
    split at hnext
    next hslashes =>
      obtain ⟨e', he', hparts⟩ := Option.map_eq_some_iff.mp hnext
      rw [he', if_pos hslashes, Option.map_some, Option.map_some, append_nil]
      exact congrArg some hparts
    next hslashes =>
      rw [Option.map_eq_none_iff.mp hnext, if_neg hslashes]
      simp only [hline, if_true]
      rw [hmore, Option.map_map]
      simp only [append_assoc]
      rfl

/-- A line comment begins at the first slashes. -/
lemma slashComment_eq (h : '\n' ∉ t) :
    (slashComment.match? t).map (fun m => (m.part "code", m.part "text")) =
      (cutFirst "//" t).map fun cut => (cut.1, cut.2.dropWhile isBlank) := by
  have hparts := parts_fewFrom (.refl ⟨none, 0, t, []⟩) rfl h
  have hrun : slashComment.run some ⟨none, 0, t, []⟩ = fewFrom Source.isInLine (afterCode ⟨none, 0, t, []⟩) t 0 ⟨none, 0, t, []⟩ := rfl
  rw [match?, matchAt?, hrun]
  cases hcut : cutFirst "//" t with
  | none =>
    rw [hcut] at hparts
    rw [Option.map_eq_none_iff.mp hparts]
    rfl
  | some cut =>
    rw [hcut] at hparts
    obtain ⟨e, he, hparts⟩ := Option.map_eq_some_iff.mp hparts
    simp only [he, Option.map_some, hparts]
    rfl

lemma slashComment_split {m : Match} (hline : '\n' ∉ t) (h : slashComment.match? t = some m) :
    ∃ text, cutFirst "//" t = some (m.part "code", text) ∧ m.part "text" = text.dropWhile isBlank := by
  have heq := slashComment_eq hline
  rw [h] at heq
  obtain ⟨⟨code, text⟩, hcut, hparts⟩ := Option.map_eq_some_iff.mp heq.symm
  obtain ⟨rfl, htext⟩ := Prod.mk.inj hparts
  exact ⟨text, hcut, htext.symm⟩

/-- The line with a closing comment: what stands from the first slashes on becomes a block comment, or the name is put at the end of a
line that has neither slashes nor a block comment. -/
lemma postLine_eq {name : Text} (hline : '\n' ∉ t) :
    postLine name t =
      match cutFirst "//" t with
      | some (code, text) => trimRight code ++ " /* " ++ trim text ++ " */"
      | none => if closedComment.occursIn t then t else t ++ " /* " ++ name ++ "() */" := by
  rw [postLine]
  cases hm : slashComment.match? t with
  | none =>
    have heq := slashComment_eq hline
    rw [hm] at heq
    rw [Option.map_eq_none_iff.mp heq.symm]
  | some m =>
    obtain ⟨text, hcut, htext⟩ := slashComment_split hline hm
    have htrim : trim (dropLeft isBlank text) = trim text := by
      rw [trim, trim, trimLeft, trimLeft, dropLeft, dropLeft, dropWhile_idempotent]
    simp only [hcut, htext]
    rw [← htrim]
    rfl

/-- A closing comment can be put on a line: where it begins the line is outside of comments and literals, and its text does not
end it. -/
def ClosingPlaced (name bare : Text) : Prop :=
  match slashComment.match? bare with
  | some m => (scan .plain (trimRight (m.part "code"))).2 = .plain ∧ NoClose (m.part "text")
  | none => closedComment.occursIn bare = true ∨ (scan .plain bare).2 = .plain ∧ NoClose name

instance (name bare : Text) : Decidable (ClosingPlaced name bare) :=
  match h : slashComment.match? bare with
  | some m => decidable_of_iff ((scan .plain (trimRight (m.part "code"))).2 = .plain ∧ NoClose (m.part "text"))
      (by rw [ClosingPlaced, h])
  | none => decidable_of_iff (closedComment.occursIn bare = true ∨ (scan .plain bare).2 = .plain ∧ NoClose name)
      (by rw [ClosingPlaced, h])

lemma scan_closing {t u : Text} (ht : (scan .plain t).2 = .plain) (hu : ¬"*/" <:+: u) :
    scan .plain (t ++ " /* " ++ u ++ " */") = ((scan .plain t).1, .plain) := by
  have hbody : ¬"*/".toList <:+: ' ' :: u ++ " " ++ ['*'] := by
    intro hi
    have hi : ['*', '/'] <:+: ([' '] ++ u) ++ ' ' :: ['*'] := by simpa using hi
    rcases (DocBlock.infix_append_cons_iff (by decide)).mp hi with hi | hi
    · exact hu (DocBlock.infix_of_head_not_mem (by decide) hi)
    · exact absurd hi (by decide)
  have hcomment := scan_comment hbody
  have hshape : t ++ " /* " ++ u ++ " */" = t ++ ([' '] ++ ("/*" ++ (' ' :: u ++ " ") ++ "*/".toList)) := by
    simp
  have hblank : scan .plain [' '] = ([], .plain) := rfl
  rw [hshape, scan_append, ht, scan_append, hblank, hcomment, append_nil, append_nil]

lemma scan_nameComment (h : NoClose name) : scan .plain (" /* " ++ name ++ "() */") = ([], .plain) := by
  have hcall : ¬"*/".toList <:+: name ++ "()" := by
    intro hi
    rcases (DocBlock.infix_append_cons_iff (by decide)).mp hi with hi | hi
    · exact h.not_mem (infix_refl _) hi
    · exact absurd hi (by decide)
  have hshape : (" /* " ++ name ++ "() */" : Text) = ([] : Text) ++ " /* " ++ (name ++ "()") ++ " */" := by simp
  rw [hshape]
  exact scan_closing rfl hcall

lemma scanLines_postLine (hflat : Flat line) (hplaced : ClosingPlaced name (trimRight line))
    (hnew : postLine name (trimRight line) ≠ trimRight line) :
    scanLines .plain [postLine name (trimRight line)] = scanLines .plain [line] := by
  obtain ⟨b, hb, hsplit⟩ := trimRight_split line
  rw [scanLines_cons, scanLines_cons]
  rw [ClosingPlaced] at hplaced
  split at hplaced
  next m hm =>
    obtain ⟨r, hcut, -⟩ := slashComment_split (fun h => hflat.not_mem (trimRight_subset line h)) hm
    have hr : trimRight line = m.part "code" ++ ("//".toList ++ r) := (cutFirst_eq_some hcut).trans (append_assoc _ _ _)
    obtain ⟨c, hc, hcode⟩ := trimRight_split (m.part "code")
    have hold : scan .plain line = ((scan .plain (trimRight (m.part "code"))).1, .lineComment) := by
      have hrest : Flat (r ++ b) := hflat.of_subset fun d hd => by
        rw [hsplit, hr]
        rcases mem_append.mp hd with hd | hd <;> simp [hd]
      have hopen : scan .plain ("//".toList ++ (r ++ b)) = scan .lineComment (r ++ b) := rfl
      rw [hsplit, hr, append_assoc, append_assoc, hcode, append_assoc, scan_append, hplaced.1, scan_append,
        scan_blank (Or.inl rfl) hc, hopen, scan_lineComment hrest.not_mem, ← hcode]
      simp
    have htext : ¬"*/".toList <:+: trim (m.part "text") := hplaced.2.not_mem (infix_trim _)
    simp only [postLine, hm]
    rw [scan_closing hplaced.1 htext, hold]
    rfl
  next hm =>
    simp only [postLine, hm] at hnew ⊢
    rcases hplaced with hclosed | ⟨hmode, hname⟩
    · rw [if_pos hclosed] at hnew
      exact absurd rfl hnew
    · split at hnew
      · exact absurd rfl hnew
      next hopen =>
        have hold : scan .plain line = ((scan .plain (trimRight line)).1, .plain) := by
          nth_rewrite 1 [hsplit]
          rw [scan_append, hmode, scan_blank (Or.inl rfl) hb, append_nil]
        rw [if_neg hopen, hold, append_assoc (trimRight line), append_assoc (trimRight line), scan_append, hmode,
          scan_nameComment hname, append_nil]

lemma flat_postLine (hname : Flat name) (hflat : Flat line) : Flat (postLine name line) := by
  rw [postLine]
  split
  next m hm =>
    have hcode : Flat (trimRight (m.part "code")) :=
      hflat.of_subset fun c hc => (infix_part hm "code").subset (trimRight_subset _ hc)
    have htext : Flat (trim (m.part "text")) := hflat.of_subset fun c hc => (infix_part hm "text").subset (trim_subset _ hc)
    exact ((hcode.append (by decide)).append htext).append (by decide)
  · split
    · exact hflat
    · exact ((hflat.append (by decide)).append hname).append (by decide)

lemma shrinks_closing {last : Int} (hitem : itemAt? ls last = some line)
    (hname : Flat name) (hflat : ∀ l ∈ ls, Flat l) (houtside : Outside (itemsBefore ls last))
    (hclosing : ClosingPlaced name (trimRight line)) (hnew : postLine name (trimRight line) ≠ trimRight line) :
    Shrinks True ls (putAt ls last (postLine name (trimRight line))) := by
  obtain ⟨rest, hwhole, hput⟩ := split_of_itemAt hitem
  rw [hwhole] at hflat
  have hline : Flat line := hflat line (by simp)
  have hpost : Flat (postLine name (trimRight line)) := flat_postLine hname (hline.of_subset (trimRight_subset line))
  have hsame := scanLines_postLine hline hclosing hnew
  have hmiddle := @shrinks_middle _ [line] [postLine name (trimRight line)] rest houtside (by rw [hsame]) (by rw [hsame])
    (fun l hl => ?_)
  · rw [hput]
    nth_rewrite 1 [hwhole]
    exact hmiddle.congr (iff_true_intro (by rw [hsame]))
  · simp only [mem_append, mem_singleton] at hl
    rcases hl with (hl | rfl) | hl
    · exact hflat l (by simp [hl])
    · exact hpost
    · exact hflat l (by simp [hl])

/-- The closing comment of a function can be put on the line where the function ends. -/
def PostPlaced (ls : List Text) (f : Source.Function) : Prop :=
  Then (lineOf ls f.name f.params f.count .range) fun start => start = -1 ∨
    Then (Source.endLine ls start) fun last? => ∀ last ∈ last?, ∀ line ∈ itemAt? ls last, insideBlock ls last = false →
      Outside (itemsBefore ls last) ∧ ClosingPlaced f.name (trimRight line)
  deriving Decidable

lemma postFor_cases (h : postFor ls f = .ok ls') :
    ls' = ls ∨ ∃ start last line, lineOf ls f.name f.params f.count .range = .ok start ∧ start ≠ -1 ∧
      Source.endLine ls start = .ok (some last) ∧ itemAt? ls last = some line ∧ insideBlock ls last = false ∧
      postLine f.name (trimRight line) ≠ trimRight line ∧
      ls' = ls.set (cutPoint ls last) (postLine f.name (trimRight line)) := by
  obtain ⟨start, hstart, h⟩ := ok_of_bind_ok h
  split at h
  · exact .inl (Except.ok.inj h).symm
  next hfound =>
    obtain ⟨last?, hlast, h⟩ := ok_of_bind_ok h
    cases last? with
    | none => exact .inl (Except.ok.inj h).symm
    | some last =>
      dsimp only at h
      cases hitem : itemAt? ls last with
      | none =>
        rw [hitem] at h
        cases h
      | some line =>
        rw [hitem] at h
        replace h : (if insideBlock ls last = true then Except.ok ls
          else .ok (if postLine f.name (trimRight line) = trimRight line then ls
            else putAt ls last (postLine f.name (trimRight line)))) = .ok ls' := h
        split at h
        · exact .inl (Except.ok.inj h).symm
        next hinside =>
          replace h := Except.ok.inj h
          split at h
          · exact .inl h.symm
          next hnew =>
            exact .inr ⟨start, last, line, hstart, hfound, hlast, hitem, Bool.eq_false_iff.mpr hinside, hnew, h.symm⟩

lemma shrinks_postFor (hname : Flat f.name) (hflat : ∀ l ∈ ls, Flat l)
    (hplaced : PostPlaced ls f) (h : postFor ls f = .ok ls') : Shrinks True ls ls' := by
  rcases postFor_cases h with rfl | ⟨start, last, line, hstart, hfound, hlast, hitem, hinside, hnew, rfl⟩
  · exact .refl hflat
  · have hend := (Then.of_ok hlast).mp (((Then.of_ok hstart).mp hplaced).resolve_left hfound)
    obtain ⟨houtside, hclosing⟩ := hend last rfl line hitem hinside
    exact shrinks_closing hitem hname hflat houtside hclosing hnew

end Header

end FunctionDocs
