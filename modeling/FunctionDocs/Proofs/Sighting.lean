import FunctionDocs.Proofs.Functions
import FunctionDocs.Proofs.Pattern
import FunctionDocs.Source.Locate

/-!
# Sightings of a definition

The search for a definition is one pass over the lines with a state. Here the same search is laid out in stages: the lines that
are no comment lines, the declarations of the name that these lines hold, and the sightings that the declarations give for a
parameter list. The search returns the sighting with the wanted number, so it agrees with the list of functions of the text
exactly where the two have counted the same definitions above.
-/

namespace FunctionDocs.Source

variable {ls : List Text} {i : Nat} {w : Wanted}

/-! ## The stages of the search -/

/-- The trimmed lines that are no comment lines, each with its number; `inComment` tells that a block comment is open. -/
def visibleFrom (i : Nat) (inComment : Bool) : List Text → List (Nat × Text)
  | [] => []
  | l :: ls =>
    let bare := Text.trim l
    if Text.startsWith bare "/*" then visibleFrom (i + 1) (if Text.contains bare "*/" then inComment else true) ls
    else if inComment then visibleFrom (i + 1) (!Text.contains bare "*/") ls
    else if Text.startsWith bare "//" then visibleFrom (i + 1) false ls
    else (i, bare) :: visibleFrom (i + 1) false ls

/-- A line on which a declaration of the name begins: the name stands after a type and the line is no call. -/
def opensDeclaration (name bare : Text) : Bool :=
  mentions name bare && looksDefined name bare && !(callStatement name).matchesAt bare

/-- A declaration: its first line, its text up to the line with the opening brace, and whether it takes several lines. -/
structure Declaration where
  first : Nat
  text : Text
  isSpread : Bool
  deriving DecidableEq, Repr

/-- The declarations of a name on the visible lines, where `pending` is the first line and the text of one under way. -/
def declarationsFrom (name : Text) : Option (Nat × Text) → List (Nat × Text) → List Declaration
  | _, [] => []
  | none, (i, bare) :: ls =>
    if opensDeclaration name bare then
      if List.elem '{' bare then ⟨i, bare, false⟩ :: declarationsFrom name none ls
      else declarationsFrom name (some (i, bare)) ls
    else declarationsFrom name none ls
  | some (start, buffer), (_, bare) :: ls =>
    if List.elem '{' bare then ⟨start, buffer ++ " " ++ bare, true⟩ :: declarationsFrom name none ls
    else declarationsFrom name (some (start, buffer ++ " " ++ bare)) ls

/-- What a declaration gives for normalised parameters (any, if there are none). A closed definition on one line is seen a
second time, when its line has been given up; on several lines an empty parameter list matches any. -/
def Declaration.sightings (name : Text) (params : Option Text) (d : Declaration) : List Sighting :=
  if d.isSpread then
    if params.all (fun p => p.isEmpty || sameParams p (paramSignature d.text)) then [.line d.first] else []
  else if params.all (sameParams · (paramSignature d.text)) then
    if (closedDefinition name).matchesAt d.text then
      .line d.first :: (if params.all (sameParams · (paramSignature [])) then [.unplaced] else [])
    else [.line d.first]
  else []

/-- The sightings of a name with a parameter list in a text, in order. -/
def sightings (content name : Text) (params : Option Text) : List Sighting :=
  (declarationsFrom name none (visibleFrom 0 false content.lines)).flatMap
    (Declaration.sightings name (params.map normalizeSignature))

def pick : Int → List Sighting → Sighting
  | _, [] => .nowhere
  | n, s :: ss => if n = 1 then s else pick (n - 1) ss

/-! ## The search returns the wanted sighting -/

def Search.ahead (s : Search) (w : Wanted) (i : Nat) (ls : List Text) : List Sighting :=
  (declarationsFrom w.name s.pending (visibleFrom i s.inComment ls)).flatMap (Declaration.sightings w.name w.params)

def Search.resume (w : Wanted) (i : Nat) (ls : List Text) : Search ⊕ Sighting → Sighting
  | .inr found => found
  | .inl s => Search.over w i s ls

lemma over_cons (w : Wanted) (i : Nat) (s : Search) (l : Text) (ls : List Text) :
    Search.over w i s (l :: ls) = Search.resume w (i + 1) ls (s.step w i l) := by
  rw [Search.over]
  cases s.step w i l <;> rfl

lemma brace_of_closedDefinition {name t : Text} (h : (closedDefinition name).matchesAt t) : List.elem '{' t := by
  obtain ⟨m, hm⟩ := Option.isSome_iff_exists.mp h
  by_contra hbrace
  have hnone : (closedDefinition name).match? t = none := by
    refine Pattern.match_none ?_ fun hmem => hbrace (List.elem_iff.mpr hmem)
    rintro x ⟨_, _, rfl, -, _, _, rfl, -, _, _, rfl, -, _, _, rfl, -, _, _, rfl, -, _, _, rfl, -, _, _, rfl, -, _, _, rfl, rfl, -⟩
    simp
  rw [hnone] at hm
  cases hm

lemma resume_count (ih : ∀ s : Search, Search.over w i s ls = pick (w.occurrence - s.seen) (s.ahead w i ls)) (s : Search)
    (place : Sighting) :
    Search.resume w i ls (s.count w place) =
      pick (w.occurrence - s.seen) (place :: ({ s with pending := none } : Search).ahead w i ls) := by
  simp only [Search.count]
  by_cases h : s.seen + 1 = w.occurrence
  · have h1 : w.occurrence - s.seen = 1 := by omega
    simp only [h, if_true, Search.resume, pick, h1]
  · have h1 : ¬w.occurrence - s.seen = 1 := by omega
    have h2 : w.occurrence - s.seen - 1 = w.occurrence - (s.seen + 1) := by omega
    simp only [h, Search.resume, pick, h1, ih, h2]
    rfl

lemma resume_tryOpen (ih : ∀ s : Search, Search.over w i s ls = pick (w.occurrence - s.seen) (s.ahead w i ls)) (s : Search)
    (free : Text → Bool) :
    Search.resume w i ls (s.tryOpen w free) =
      pick (w.occurrence - s.seen)
        ((if w.params.all (fun p => free p || sameParams p (paramSignature ((s.pending.map (·.2)).getD []))) then
            [match s.pending with | some (i, _) => Sighting.line i | none => .unplaced]
          else []) ++ ({ s with pending := none } : Search).ahead w i ls) := by
  simp only [Search.tryOpen]
  split
  · exact resume_count ih s _
  · exact ih _

lemma resume_beginOn {k : Nat} (ih : ∀ s : Search, Search.over w i s ls = pick (w.occurrence - s.seen) (s.ahead w i ls)) (s : Search)
    (hs : s.pending = none) (hc : s.inComment = false) (bare : Text) :
    Search.resume w i ls (s.beginOn w k bare) =
      pick (w.occurrence - s.seen)
        ((declarationsFrom w.name none ((k, bare) :: visibleFrom i false ls)).flatMap (Declaration.sightings w.name w.params)) := by
  obtain ⟨inComment, pending, seen⟩ := s
  simp only at hs hc
  subst hs hc
  simp only [Search.beginOn, declarationsFrom]
  by_cases ho : opensDeclaration w.name bare
  · rw [if_pos ho, if_pos (by simpa only [opensDeclaration] using ho)]
    simp only [Search.tryClosed]
    by_cases hcl : (closedDefinition w.name).matchesAt bare
    · have hb := brace_of_closedDefinition hcl
      by_cases hp : w.params.all (sameParams · (paramSignature bare))
      · rw [if_pos hcl, if_pos hp, if_pos hb, List.flatMap_cons, Declaration.sightings]
        simp only [Bool.false_eq_true, if_false, hp, hcl, if_true, List.cons_append, Search.count]
        by_cases hw : seen + 1 = w.occurrence
        · have h1 : w.occurrence - seen = 1 := by omega
          simp only [hw, if_true, Search.resume, pick, h1]
        · have h1 : ¬w.occurrence - seen = 1 := by omega
          have h2 : w.occurrence - seen - 1 = w.occurrence - (seen + 1) := by omega
          simp only [hw, if_false, hb, if_true, pick, h1, h2]
          exact resume_tryOpen ih _ _
      · rw [if_pos hcl, if_neg hp, if_pos hb, List.flatMap_cons, Declaration.sightings]
        simp only [Bool.false_eq_true, if_false, hp, hb, if_true]
        rw [resume_tryOpen ih]
        simp only [Option.map_some, Option.getD_some, Bool.false_or, hp]
        rfl
    · rw [if_neg hcl]
      by_cases hb : List.elem '{' bare
      · rw [if_pos hb, List.flatMap_cons, Declaration.sightings]
        simp only [Bool.false_eq_true, if_false, hb, if_true, hcl]
        rw [resume_tryOpen ih]
        rfl
      · simp only [hb]
        exact ih _
  · rw [if_neg ho, if_neg (by simpa only [opensDeclaration] using ho)]
    exact ih _

lemma over_eq_pick (w : Wanted) (ls : List Text) :
    ∀ (i : Nat) (s : Search), Search.over w i s ls = pick (w.occurrence - s.seen) (s.ahead w i ls) := by
  induction ls with
  | nil =>
    intro i s
    cases hp : s.pending <;> simp [Search.over, Search.ahead, visibleFrom, declarationsFrom, pick]
  | cons l ls ih =>
    intro i s
    rw [over_cons]
    simp only [Search.step, Search.ahead, visibleFrom]
    split
    · simp only [Search.resume]
      rw [ih]
      split <;> rfl
    · split
      next hc =>
        simp only [Search.resume]
        rw [ih]
        split
        next hb =>
          rw [hb]
          rfl
        next hb =>
          rw [Bool.not_eq_true] at hb
          rw [hb, Search.ahead, hc]
          rfl
      next hc =>
        simp only [Bool.not_eq_true] at hc
        split
        · simp only [Search.resume]
          rw [ih, Search.ahead, hc]
        · cases hp : s.pending with
          | none => exact resume_beginOn (ih (i + 1)) s hp hc _
          | some q =>
            simp only [declarationsFrom]
            by_cases hb : List.elem '{' (Text.trim l)
            · simp only [hb, if_true]
              rw [resume_tryOpen (ih (i + 1)), List.flatMap_cons]
              simp only [Declaration.sightings, if_true, Search.ahead, hc]
              rfl
            · rw [if_neg hb, if_neg hb]
              exact (ih (i + 1) _).trans (by rw [Search.ahead, hc])

lemma locate_eq_pick (content name : Text) (params : Option Text) (occurrence : Int) :
    locate content name params occurrence = pick occurrence (sightings content name params) := by
  have h := over_eq_pick ⟨name, params.map normalizeSignature, occurrence⟩ content.lines 0 ⟨false, none, 0⟩
  rw [Int.sub_zero] at h
  exact h

/-! ## The search and the list of functions -/

lemma pick_eq_line_iff (ss : List Sighting) (n i : Nat) :
    pick (n + 1 : Nat) ss = .line i ↔ ∃ above below, ss = above ++ .line i :: below ∧ above.length = n := by
  induction ss generalizing n with
  | nil => simp [pick]
  | cons s ss ih =>
    cases n with
    | zero =>
      simp only [List.length_eq_zero_iff]
      constructor
      · rintro rfl
        exact ⟨[], ss, rfl, rfl⟩
      · rintro ⟨above, below, h, rfl⟩
        exact (List.cons.inj h).1
    | succ n =>
      have hn : ¬((n + 1 + 1 : Nat) : Int) = 1 := by omega
      have hs : ((n + 1 + 1 : Nat) : Int) - 1 = (n + 1 : Nat) := by omega
      rw [pick, if_neg hn, hs, ih]
      constructor
      · rintro ⟨above, below, rfl, rfl⟩
        exact ⟨s :: above, below, rfl, rfl⟩
      · rintro ⟨above, below, h, hlen⟩
        cases above with
        | nil => simp at hlen
        | cons a above =>
          exact ⟨above, below, (List.cons.inj h).2, by simpa using hlen⟩

/-- The search finds a function of the text on the line it starts on exactly when it sights a definition there, and above it as
many as there are functions before it with its name and parameters. -/
theorem locate_startLine_iff {content file : Text} {before after : List Function} {f : Function}
    (h : functionsOf content file = .ok (before ++ f :: after)) :
    locate content f.name (some f.params) f.count = .line f.startLine ↔
      ∃ above below, sightings content f.name (some f.params) = above ++ .line f.startLine :: below ∧
        above.length = countSame f.name f.params before := by
  rw [locate_eq_pick, functionsOf_counted h before f after rfl]
  exact pick_eq_line_iff _ _ _

/-- A function with two definitions, one for each case of a directive. -/
def eitherCase : Text := "#if A\nint f(int x) \x7b\n\x7d\n#else\nint f(int x) \x7b\n\x7d\n#endif\n"

/-- The definition with a number on a line, in a text without comments. -/
def plainInt (name : Text) (line count : Nat) : Function :=
  ⟨name, "int", "int x", false, [], false, [], line, count, false, none⟩

/-- The second of two definitions is found: one is sighted above it, and one function stands before it. -/
theorem locate_second_case : locate eitherCase "f" (some "int x") 2 = .line 4 :=
  (@locate_startLine_iff eitherCase [] [plainInt "f" 1 1] [] (plainInt "f" 4 2) (by decide)).mpr
    ⟨[.line 1], [], by decide⟩

def suffixNames : Text := "int foobar(int x) \x7b\n\x7d\nint bar(int x) \x7b\n\x7d\n"

/-- The function `bar` of `suffixNames` starts on line 2, but the search is satisfied with the end of the name above it. -/
theorem locate_suffix_elsewhere :
    functionsOf suffixNames [] = .ok [plainInt "foobar" 0 1, plainInt "bar" 2 1] ∧
      locate suffixNames "bar" (some "int x") 1 = .line 0 := by
  decide

end FunctionDocs.Source
