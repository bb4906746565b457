import FunctionDocs.Proofs.Outline

/-!
# Heads without a body

The functions of a text are found unless some line has the head of a function with a return type and without a brace, and the
next line that is neither blank nor a comment does not open with a brace. Such a head dangles, and one of them is enough for the
whole text to have no functions reported. Nothing else makes the search fail.
-/

namespace FunctionDocs.Source

open Text

variable {e : Failure} {below : List Joined} {x : Joined × Bool} {xs : List (Joined × Bool)}

/-- A joined line that the search for a body passes over: blank, or a comment. -/
def isPassed (j : Joined) : Bool :=
  (trim (dropInline j.text)).isEmpty || startsWith (trim (dropInline j.text)) "//" || startsWith (trim (dropInline j.text)) "/*"

def opensBody (j : Joined) : Bool := startsWith (trim (dropInline j.text)) ['{']

/-- Below a head stands, after blank lines and comments, a line that does not open a body. -/
def NoBody (below : List Joined) : Prop :=
  ∃ passed j rest, below = passed ++ j :: rest ∧ (∀ k ∈ passed, isPassed k = true) ∧ isPassed j = false ∧ opensBody j = false

/-- The line on which a head is looked for: without template brackets, template head and comments. -/
def headLine (j : Joined) : Text := headText (readTemplate (mask j.text) none).2

/-- A joined line with the head of a function and no brace, above lines that hold no body for it. -/
structure Dangling (j : Joined) (below : List Joined) : Prop where
  statement : isControl (readTemplate (mask j.text) none).2 = false
  constructor : constructorHead? (headLine j) = none
  function : (functionHead? (headLine j)).isSome = true
  brace : endsWith (trim (headLine j)) ['{'] = false
  body : NoBody below

lemma opensBody_of_isPassed {j : Joined} (h : isPassed j) : opensBody j = false := by
  unfold isPassed at h
  unfold opensBody
  cases hnext : trim (dropInline j.text) with
  | nil => rfl
  | cons c r =>
    rw [hnext] at h
    by_cases hc : c = '{'
    · subst hc
      cases h
    · simp [startsWith, List.isPrefixOf, Ne.symm hc]

lemma bodyFollows_cons (j : Joined) (js : List Joined) :
    bodyFollows (j :: js) = (opensBody j || isPassed j && bodyFollows js) := by
  rw [bodyFollows, opensBody, isPassed]
  split
  next hopen =>
    rw [hopen, Bool.true_or]
  next hopen =>
    rw [Bool.not_eq_true _ |>.mp hopen, Bool.false_or]
    split
    next hpassed =>
      rw [hpassed, Bool.true_and]
    next hpassed =>
      rw [Bool.not_eq_true _ |>.mp hpassed, Bool.false_and]

lemma bodyFollows_eq_false_iff : bodyFollows below = false ↔ NoBody below := by
  induction below with
  | nil => exact ⟨nofun, fun ⟨passed, j, rest, h, _⟩ => by simp at h⟩
  | cons j js ih =>
    rw [bodyFollows_cons, Bool.or_eq_false_iff, Bool.and_eq_false_iff, ih]
    constructor
    · rintro ⟨hopen, hpassed | ⟨passed, k, rest, rfl, hskip, hk⟩⟩
      · exact ⟨[], j, js, rfl, nofun, hpassed, hopen⟩
      · cases hj : isPassed j with
        | false => exact ⟨[], j, _, rfl, nofun, hj, hopen⟩
        | true => exact ⟨j :: passed, k, rest, rfl, List.forall_mem_cons.mpr ⟨hj, hskip⟩, hk⟩
    · rintro ⟨passed, k, rest, heq, hskip, hk, hopen⟩
      cases passed with
      | nil =>
        cases heq
        exact ⟨hopen, .inl hk⟩
      | cons p passed =>
        cases heq
        obtain ⟨hj, hskip⟩ := List.forall_mem_cons.mp hskip
        exact ⟨opensBody_of_isPassed hj, .inr ⟨passed, k, rest, rfl, hskip, hk, hopen⟩⟩

lemma readHead_error_iff {line : Text} :
    readHead line below = .error e ↔
      e = .danglingHead ∧ constructorHead? line = none ∧ (functionHead? line).isSome ∧
        endsWith (trim line) ['{'] = false ∧ bodyFollows below = false := by
  unfold readHead
  cases constructorHead? line with
  | some h => simp
  | none =>
    cases functionHead? line with
    | none => simp
    | some h => cases endsWith (trim line) ['{'] <;> cases bodyFollows below <;> simp [eq_comm]

lemma headAt_error_iff : headAt x below = .error e ↔ e = .danglingHead ∧ x.2 = false ∧ Dangling x.1 below := by
  obtain ⟨j, hidden⟩ := x
  cases hidden with
  | true => simp [headAt]
  | false =>
    have hmap : headAt (j, false) below = .error e ↔
        isControl (readTemplate (mask j.text) none).2 = false ∧ readHead (headLine j) below = .error e := by
      simp only [headAt, headOn, headLine]
      cases isControl (readTemplate (mask j.text) none).2 with
      | true => simp
      | false =>
        cases readHead (headText (readTemplate (mask j.text) none).2) below <;> simp [Except.map]
    rw [hmap, readHead_error_iff, bodyFollows_eq_false_iff]
    constructor
    · rintro ⟨hstatement, he, hconstructor, hfunction, hbrace, hbody⟩
      exact ⟨he, rfl, hstatement, hconstructor, hfunction, hbrace, hbody⟩
    · rintro ⟨he, -, h⟩
      exact ⟨h.statement, he, h.constructor, h.function, h.brace, h.body⟩

/-- Some line that is not hidden by a block comment has a head that dangles. -/
def Dangles (below : List Joined) (xs : List (Joined × Bool)) : Prop :=
  ∃ above j rest, xs = above ++ (j, false) :: rest ∧ Dangling j (rest.map (·.1) ++ below)

lemma dangles_cons : Dangles below (x :: xs) ↔ (x.2 = false ∧ Dangling x.1 (xs.map (·.1) ++ below)) ∨ Dangles below xs := by
  constructor
  · rintro ⟨above, j, rest, heq, hj⟩
    cases above with
    | nil =>
      cases heq
      exact .inl ⟨rfl, hj⟩
    | cons y above =>
      cases heq
      exact .inr ⟨above, j, rest, rfl, hj⟩
  · rintro (⟨hx, hj⟩ | ⟨above, j, rest, rfl, hj⟩)
    · exact ⟨[], x.1, xs, by rw [← hx]; rfl, hj⟩
    · exact ⟨x :: above, j, rest, rfl, hj⟩

lemma startsOn_error_iff : startsOn below xs = .error e ↔ e = .danglingHead ∧ Dangles below xs := by
  induction xs with
  | nil => exact ⟨nofun, fun ⟨_, above, j, rest, h, _⟩ => by simp at h⟩
  | cons x xs ih =>
    rw [dangles_cons, and_or_left, ← headAt_error_iff, ← ih, startsOn]
    cases hhead : headAt x (xs.map (·.1) ++ below) with
    | error e' =>
      -- the first failure is the one reported, and there is only one kind of failure
      have he' := (headAt_error_iff.mp hhead).1
      change Except.error e' = .error e ↔ _
      rw [Except.error.injEq, Except.error.injEq]
      constructor
      · exact fun h => .inl h
      · rintro (h | h)
        · exact h
        · rw [he', (ih.mp h).1]
    | ok head => cases startsOn below xs <;> simp [bind, Except.bind, pure, Except.pure]

/-- The functions of a text are found exactly if no head dangles. -/
theorem functionsOf_returns_iff (content file : Text) :
    (∃ fs, functionsOf content file = .ok fs) ↔ ¬Dangles [] (marked content.lines) := by
  constructor
  · rintro ⟨fs, hfs⟩ hdangles
    have hstarts : startsOver [] content.lines = .error .danglingHead := startsOn_error_iff.mpr ⟨rfl, hdangles⟩
    rw [(functionsIn_ok hfs).1] at hstarts
    cases hstarts
  · intro hdangles
    cases hstarts : startsOver [] content.lines with
    | error e => exact absurd (startsOn_error_iff.mp hstarts).2 hdangles
    | ok ss => exact functionsIn_of_starts hstarts file

/-- A head, a blank line and a declaration: the head has no body, and the text has no functions reported. -/
theorem apart_head_fails : functionsOf "int f(int a)\n\nint x;\n" [] = .error .danglingHead := by decide

end FunctionDocs.Source
