import FunctionDocs.Pattern

/-!
# What a match takes

What a pattern takes, and which texts it can give a name to, is a language of its own. A match that succeeds has handed a later place
of the same text to what follows it, behind a text of that language.
-/

open List

namespace FunctionDocs.Pattern

variable {greedy : Bool} {least n : Nat} {p : Char → Bool} {a b : Pattern} {next : Next} {e m s s' : Place} {r t x y : Text}
  {c : Char} {name : String}

/-! ## The language of a pattern -/

/-- The texts that a pattern can take. -/
def Takes : Pattern → Text → Prop
  | .empty, x => x = []
  | .one p, x => ∃ c, p c = true ∧ x = [c]
  | .lit t, x => x = t
  | .many p least, x => least ≤ x.length ∧ ∀ c ∈ x, p c = true
  | .few p least, x => least ≤ x.length ∧ ∀ c ∈ x, p c = true
  | .seq a b, x => ∃ y z, x = y ++ z ∧ a.Takes y ∧ b.Takes z
  | .either a b, x => a.Takes x ∨ b.Takes x
  | .repeated a, x => ∃ ys : List Text, x = ys.flatten ∧ ∀ y ∈ ys, a.Takes y
  | .named _ a, x => a.Takes x
  | .ahead _, x => x = []
  | .start, x => x = []
  | .finish, x => x = []
  | .edge, x => x = []

/-- The texts that a pattern can give a name to. -/
def Labels : Pattern → String → Text → Prop
  | .seq a b, n, x => a.Labels n x ∨ b.Labels n x
  | .either a b, n, x => a.Labels n x ∨ b.Labels n x
  | .repeated a, n, x => a.Labels n x
  | .named m a, n, x => (n = m ∧ a.Takes x) ∨ a.Labels n x
  | .ahead a, n, x => a.Labels n x
  | _, _, _ => False

def names : Pattern → List String
  | .seq a b => a.names ++ b.names
  | .either a b => a.names ++ b.names
  | .repeated a => a.names
  | .named name a => name :: a.names
  | .ahead a => a.names
  | _ => []

theorem mem_names_of_labels {p : Pattern} {n : String} (h : p.Labels n x) : n ∈ p.names := by
  induction p with
  | seq a b iha ihb | either a b iha ihb =>
    rcases h with h | h
    · exact mem_append_left _ (iha h)
    · exact mem_append_right _ (ihb h)
  | repeated a iha | ahead a iha => exact iha h
  | named m a iha =>
    rcases h with ⟨rfl, -⟩ | h
    · exact mem_cons_self
    · exact mem_cons_of_mem _ (iha h)
  | _ => exact absurd h id

/-! ## Places further on -/

attribute [local simp] Place.skip

theorem Place.skip_succ_of_rest (h : s.rest = c :: r) (n : Nat) : s.skip (n + 1) = (s.step c r).skip n := by
  simp [h]

theorem Place.rest_skip (n : Nat) (s : Place) : (s.skip n).rest = s.rest.drop n := by
  induction n generalizing s with
  | zero => rfl
  | succ n ih =>
    cases hr : s.rest with
    | nil => simp [hr]
    | cons c r => rw [skip_succ_of_rest hr, ih]; rfl

theorem Place.parts_skip (n : Nat) (s : Place) : (s.skip n).parts = s.parts := by
  induction n generalizing s with
  | zero => rfl
  | succ n ih =>
    cases hr : s.rest with
    | nil => simp [hr]
    | cons c r => rw [skip_succ_of_rest hr, ih]; rfl

theorem Place.skip_skip (m n : Nat) (s : Place) : (s.skip m).skip n = s.skip (m + n) := by
  induction m generalizing s with
  | zero => simp
  | succ m ih =>
    cases hr : s.rest with
    | nil =>
      have hstay : ∀ k, s.skip k = s := by
        intro k
        cases k <;> simp [hr]
      simp only [hstay]
    | cons c r =>
      rw [skip_succ_of_rest hr, ih, show m + 1 + n = (m + n) + 1 by omega, skip_succ_of_rest hr]

/-- The place behind a text that was taken. -/
structure Place.After (s : Place) (x : Text) (e : Place) : Prop where
  rest : s.rest = x ++ e.rest
  passed : e.passed = s.passed + x.length
  before : e.before = x.getLast?.or s.before

theorem Place.After.refl (s : Place) : s.After [] s := ⟨rfl, rfl, rfl⟩

theorem Place.After.trans (h : s.After x m) (h' : m.After y e) : s.After (x ++ y) e where
  rest := by rw [h.rest, h'.rest, append_assoc]
  passed := by rw [h'.passed, h.passed, length_append, Nat.add_assoc]
  before := by rw [h'.before, h.before, getLast?_append, Option.or_assoc]

theorem Place.After.step (h : s.rest = c :: r) : s.After [c] (s.step c r) := ⟨h, rfl, rfl⟩

theorem Place.After.since (h : s.After x e) : e.since s = x := by
  rw [Place.since, h.passed, h.rest, Nat.add_sub_cancel_left, take_left]

theorem Place.After.withParts (h : s.After x e) (parts : List (String × Text)) :
    s.After x { e with parts } := ⟨h.rest, h.passed, h.before⟩

theorem Place.After.skip (h : s.rest = x ++ r) : s.After x (s.skip x.length) := by
  induction x generalizing s with
  | nil => exact .refl s
  | cons c x ih =>
    have hrest : s.rest = c :: (x ++ r) := h
    rw [length_cons, skip_succ_of_rest hrest]
    exact (step hrest).trans (ih rfl)

theorem Place.After.take (h : n ≤ s.rest.length) : s.After (s.rest.take n) (s.skip n) := by
  have hskip := skip (take_append_drop n s.rest).symm
  rwa [length_take_of_le h] at hskip

theorem Place.since_skip (h : n ≤ s.rest.length) : (s.skip n).since s = s.rest.take n := (After.take h).since

theorem Place.length_since_skip (h : n ≤ s.rest.length) : ((s.skip n).since s).length = n := by
  rw [since_skip h, length_take_of_le h]

theorem Place.After.eq_skip (h : s.After x e) (hparts : e.parts = s.parts) : e = s.skip x.length := by
  obtain ⟨hrest, hpassed, hbefore⟩ := h
  obtain ⟨hrest', hpassed', hbefore'⟩ := skip hrest
  have hparts' := Place.parts_skip x.length s
  generalize s.skip x.length = e' at *
  cases e
  cases e'
  simp_all

/-! ## Following a match -/

/-- A pattern can lead from a place to another, with the names it gives to parts of the text on the way. -/
structure Goes (p : Pattern) (s e : Place) : Prop where
  taken : ∃ x, p.Takes x ∧ s.After x e
  labels : ∃ new, e.parts = new ++ s.parts ∧ ∀ q ∈ new, p.Labels q.1 q.2 ∧ q.2 <:+: s.rest

theorem Goes.rest {p : Pattern} (h : p.Goes s e) : e.rest <:+ s.rest := by
  obtain ⟨x, -, hse⟩ := h.taken
  exact ⟨x, hse.rest.symm⟩

theorem Goes.plain {p : Pattern} (hx : p.Takes x) (h : s.After x e) (hparts : e.parts = s.parts) :
    p.Goes s e := ⟨⟨x, hx, h⟩, [], hparts, nofun⟩

/-- What a pattern does, a pattern that can do more does too. -/
theorem Goes.mono {p : Pattern} (h : a.Goes s e) (htakes : ∀ x, a.Takes x → p.Takes x) (hlabels : ∀ n x, a.Labels n x → p.Labels n x) :
    p.Goes s e := by
  obtain ⟨⟨x, hx, hse⟩, new, hnew, hparts⟩ := h
  exact ⟨⟨x, htakes x hx, hse⟩, new, hnew, fun q hq => ⟨hlabels _ _ (hparts q hq).1, (hparts q hq).2⟩⟩

theorem Goes.trans {p : Pattern} (h : a.Goes s m) (h' : b.Goes m e) (htakes : ∀ x y, a.Takes x → b.Takes y → p.Takes (x ++ y))
    (hlabels : ∀ n x, a.Labels n x ∨ b.Labels n x → p.Labels n x) : p.Goes s e := by
  have hrest := h.rest
  obtain ⟨⟨x, hx, hsm⟩, new, hnew, hparts⟩ := h
  obtain ⟨⟨y, hy, hme⟩, new', hnew', hparts'⟩ := h'
  refine ⟨⟨x ++ y, htakes x y hx hy, hsm.trans hme⟩, new' ++ new, by rw [hnew', hnew, append_assoc], fun q hq => ?_⟩
  rcases mem_append.mp hq with hq | hq
  · exact ⟨hlabels _ _ (.inr (hparts' q hq).1), (hparts' q hq).2.trans hrest.isInfix⟩
  · exact ⟨hlabels _ _ (.inl (hparts q hq).1), (hparts q hq).2⟩

theorem Goes.seq (h : a.Goes s m) (h' : b.Goes m e) : (seq a b).Goes s e :=
  h.trans h' (fun x y hx hy => ⟨x, y, rfl, hx, hy⟩) fun _ _ => id

theorem Goes.inl (b : Pattern) (h : a.Goes s e) : (either a b).Goes s e := h.mono (fun _ => .inl) fun _ _ => .inl

theorem Goes.inr (a : Pattern) (h : b.Goes s e) : (either a b).Goes s e := h.mono (fun _ => .inr) fun _ _ => .inr

theorem Goes.stop (a : Pattern) (s : Place) : (repeated a).Goes s s := .plain ⟨[], rfl, nofun⟩ (.refl s) rfl

theorem Goes.round (h : a.Goes s m) (h' : (repeated a).Goes m e) : (repeated a).Goes s e := by
  refine h.trans h' (fun x _ hx hy => ?_) fun _ _ h => h.elim id id
  obtain ⟨ys, rfl, hys⟩ := hy
  exact ⟨x :: ys, rfl, forall_mem_cons.mpr ⟨hx, hys⟩⟩

theorem Goes.named (n : String) (h : a.Goes s e) : (Pattern.named n a).Goes s { e with parts := (n, e.since s) :: e.parts } := by
  obtain ⟨⟨x, hx, hse⟩, new, hnew, hparts⟩ := h
  refine ⟨⟨x, hx, hse.withParts _⟩, (n, e.since s) :: new, by rw [hnew]; rfl, fun q hq => ?_⟩
  rcases mem_cons.mp hq with rfl | hq
  · exact ⟨.inl ⟨rfl, by rw [hse.since]; exact hx⟩, ( take_prefix _ _).isInfix⟩
  · exact ⟨.inr (hparts q hq).1, (hparts q hq).2⟩

theorem Goes.ahead (h : a.Goes s e) : (ahead a).Goes s { s with parts := e.parts } :=
  ⟨⟨[], rfl, (Place.After.refl s).withParts _⟩, h.labels⟩

theorem Goes.many_step (hs : s.rest = c :: r) (hc : p c)
    (h : (Pattern.many p (least - 1)).Goes (s.step c r) e) : (Pattern.many p least).Goes s e := by
  have hone : (one p).Goes s (s.step c r) := .plain ⟨c, hc, rfl⟩ (.step hs) rfl
  refine hone.trans h (fun x y hx hy => ?_) fun _ _ h => h.elim id id
  obtain ⟨d, hd, rfl⟩ := hx
  exact ⟨by rw [length_append, length_singleton]; have := hy.1; omega, forall_mem_cons.mpr ⟨hd, hy.2⟩⟩

theorem Goes.many_stop (p : Char → Bool) (s : Place) : (many p 0).Goes s s :=
  ⟨⟨[], ⟨Nat.zero_le _, nofun⟩, .refl s⟩, [], rfl, nofun⟩

theorem Goes.few (h : (many p least).Goes s e) : (few p least).Goes s e := ⟨h.taken, h.labels⟩

/-- The two ways to go on at a place, here or with more characters, in the order of preference. -/
def prefer (greedy : Bool) (here more : Option Place) : Option Place := if greedy then more.or here else here.or more

theorem eq_some_of_prefer {here more : Option Place} (h : prefer greedy here more = some e) : here = some e ∨ more = some e := by
  cases greedy <;> cases here <;> cases more <;> simp_all [prefer]

/-- Characters of a class, as many or as few as possible. -/
def takeFrom (greedy : Bool) (p : Char → Bool) (next : Next) : Text → Nat → Next
  | [], least, s => if least = 0 then next s else none
  | c :: r, least, s =>
    prefer greedy (if least = 0 then next s else none)
      (if p c then takeFrom greedy p next r (least - 1) (s.step c r) else none)

theorem takeFrom_cons (greedy : Bool) (p : Char → Bool) (next : Next) (c : Char) (r : Text) (least : Nat) (s : Place) :
    takeFrom greedy p next (c :: r) least s =
      prefer greedy (if least = 0 then next s else none) (if p c then takeFrom greedy p next r (least - 1) (s.step c r) else none) :=
  rfl

theorem manyFrom_eq_takeFrom (p : Char → Bool) (next : Next) (t : Text) (least : Nat) (s : Place) :
    manyFrom p next t least s = takeFrom true p next t least s := by
  induction t generalizing least s with
  | nil => rfl
  | cons c r ih =>
    rw [manyFrom, takeFrom, ih, prefer, if_pos rfl]
    split
    · cases takeFrom true p next r (least - 1) (s.step c r) <;> rfl
    · rfl

theorem fewFrom_eq_takeFrom (p : Char → Bool) (next : Next) (t : Text) (least : Nat) (s : Place) :
    fewFrom p next t least s = takeFrom false p next t least s := by
  induction t generalizing least s with
  | nil => rfl
  | cons c r ih =>
    rw [fewFrom, takeFrom, ih]
    generalize (if least = 0 then next s else none) = here
    cases here <;> rfl

theorem takeFrom_goes {next : Next} (hs : s.rest = t)
    (h : takeFrom greedy p next t least s = some e) : ∃ s', (Pattern.many p least).Goes s s' ∧ next s' = some e := by
  have hhere : ∀ {least : Nat} {s : Place}, (if least = 0 then next s else none) = some e →
      ∃ s', (Pattern.many p least).Goes s s' ∧ next s' = some e := by
    intro least s h
    split at h
    next hleast =>
      exact ⟨s, hleast ▸ .many_stop p s, h⟩
    · cases h
  induction t generalizing least s with
  | nil => exact hhere h
  | cons c r ih =>
    rcases eq_some_of_prefer h with h | h
    · exact hhere h
    · split at h
      next hc =>
        obtain ⟨s', hgoes, hnext⟩ := ih rfl h
        exact ⟨s', hgoes.many_step hs hc, hnext⟩
      · cases h

theorem roundsFrom_goes {next : Next}
    (ha : ∀ {next' : Next} {s e : Place}, a.run next' s = some e → ∃ s', a.Goes s s' ∧ next' s' = some e) {fuel : Nat} {s e : Place}
    (h : roundsFrom (a.run ·) next fuel s = some e) : ∃ s', (repeated a).Goes s s' ∧ next s' = some e := by
  induction fuel generalizing s with
  | zero => exact ⟨s, .stop a s, h⟩
  | succ fuel ih =>
    simp only [roundsFrom] at h
    split at h
    next e' he =>
      cases h
      obtain ⟨m, hgoes, hnext⟩ := ha he
      split at hnext
      · obtain ⟨s', hgoes', hnext'⟩ := ih hnext
        exact ⟨s', hgoes.round hgoes', hnext'⟩
      · cases hnext
    · exact ⟨s, .stop a s, h⟩

theorem run_goes (p : Pattern) {next : Next} {s e : Place} (h : p.run next s = some e) : ∃ s', p.Goes s s' ∧ next s' = some e := by
  induction p generalizing next s e with
  | empty => exact ⟨s, .plain rfl (.refl s) rfl, h⟩
  | one p =>
    simp only [run] at h
    split at h
    · cases h
    next c r hs =>
      split at h
      next hc =>
        exact ⟨_, .plain ⟨c, hc, rfl⟩ (.step hs) rfl, h⟩
      · cases h
  | lit t =>
    simp only [run] at h
    split at h
    next hpre =>
      obtain ⟨r, hr⟩ := isPrefixOf_iff_prefix.mp hpre
      exact ⟨_, .plain rfl (.skip hr.symm) (Place.parts_skip _ s), h⟩
    · cases h
  | many p least =>
    simp only [run, manyFrom_eq_takeFrom] at h
    exact takeFrom_goes rfl h
  | few p least =>
    simp only [run, fewFrom_eq_takeFrom] at h
    obtain ⟨s', hgoes, hnext⟩ := takeFrom_goes rfl h
    exact ⟨s', hgoes.few, hnext⟩
  | seq a b iha ihb =>
    obtain ⟨m, hsm, hm⟩ := iha h
    obtain ⟨s', hme, hnext⟩ := ihb hm
    exact ⟨s', hsm.seq hme, hnext⟩
  | either a b iha ihb =>
    simp only [run] at h
    split at h
    next e' he =>
      cases h
      obtain ⟨s', hgoes, hnext⟩ := iha he
      exact ⟨s', hgoes.inl b, hnext⟩
    · obtain ⟨s', hgoes, hnext⟩ := ihb h
      exact ⟨s', hgoes.inr a, hnext⟩
  | repeated a iha => exact roundsFrom_goes iha h
  | named n a iha =>
    obtain ⟨s', hgoes, hnext⟩ := iha h
    exact ⟨_, hgoes.named n, hnext⟩
  | ahead a iha =>
    simp only [run] at h
    split at h
    next e' he =>
      obtain ⟨s', hgoes, hs'⟩ := iha he
      cases hs'
      exact ⟨_, hgoes.ahead, h⟩
    · cases h
  | start | finish | edge =>
    simp only [run] at h
    split at h
    · exact ⟨s, .plain rfl (.refl s) rfl, h⟩
    · cases h

theorem run_silent {p : Pattern} (hp : p.names = []) {next : Next} {s e : Place} (h : p.run next s = some e) :
    ∃ x s', p.Takes x ∧ s.After x s' ∧ s'.parts = s.parts ∧ next s' = some e := by
  obtain ⟨s', ⟨⟨x, hx, hafter⟩, new, hnew, hparts⟩, hnext⟩ := run_goes p h
  refine ⟨x, s', hx, hafter, ?_, hnext⟩
  cases new with
  | nil => exact hnew
  | cons q new =>
    have hmem := mem_names_of_labels (hparts q mem_cons_self).1
    rw [hp] at hmem
    cases hmem

theorem run_named {p : Pattern} (hp : p.names = []) {next : Next} {s e : Place}
    (h : (named name p).run next s = some e) :
    ∃ x s', p.Takes x ∧ s.After x s' ∧ s'.parts = (name, x) :: s.parts ∧ next s' = some e := by
  obtain ⟨x, s', hx, hafter, hparts, hnext⟩ := run_silent hp (p := p) h
  refine ⟨x, _, hx, hafter.withParts _, ?_, hnext⟩
  rw [hafter.since, hparts]

theorem manyFrom_skip (h : manyFrom p next s.rest least s = some e) :
    ∃ k, least ≤ k ∧ k ≤ s.rest.length ∧ (∀ c ∈ s.rest.take k, p c) ∧ next (s.skip k) = some e := by
  obtain ⟨x, s', ⟨hleast, hx⟩, hafter, hparts, hnext⟩ := run_silent (p := many p least) rfl h
  have htake : s.rest.take x.length = x := by rw [hafter.rest, take_left]
  refine ⟨x.length, hleast, by rw [hafter.rest, length_append]; omega, by rwa [htake], ?_⟩
  rwa [← hafter.eq_skip hparts]

theorem fewFrom_skip {p : Char → Bool} :
    ∀ {t : Text} {least : Nat} {s e : Place}, s.rest = t → fewFrom p next t least s = some e →
      ∃ k, k ≤ t.length ∧ (∀ j < k, least ≤ j → next (s.skip j) = none) ∧ next (s.skip k) = some e := by
  intro t
  induction t with
  | nil =>
    intro least s e _ h
    simp only [fewFrom] at h
    split at h
    · exact ⟨0, by simp, by simp, h⟩
    · cases h
  | cons c r ih =>
    intro least s e hs h
    simp only [fewFrom] at h
    split at h
    next e' he =>
      cases h
      split at he
      · exact ⟨0, by simp, by simp, he⟩
      · cases he
    next hnone =>
      split at h
      · obtain ⟨k, hlen, hbefore, hn⟩ := ih rfl h
        refine ⟨k + 1, by simpa using hlen, fun j hj hl => ?_, by simpa only [Place.skip, hs] using hn⟩
        cases j with
        | zero => simpa [show least = 0 by omega, Place.skip] using hnone
        | succ j =>
          have hj' := hbefore j (by omega) (by omega)
          simpa only [Place.skip, hs] using hj'
      · cases h

theorem find_behind {new old : List (String × Text)} (h : ∀ q ∈ new, q.1 ≠ name) :
    (new ++ old).find? (·.1 == name) = old.find? (·.1 == name) := by
  rw [find?_append, find?_eq_none.mpr fun q hq => by simpa using h q hq, Option.none_or]

theorem labels_part {p : Pattern} {m : Match} (h : p.match? t = some m) (name : String) :
    m.part name = [] ∨ p.Labels name (m.part name) ∧ m.part name <:+: t := by
  simp only [match?, matchAt?] at h
  obtain ⟨e, he, rfl⟩ := Option.map_eq_some_iff.mp h
  obtain ⟨s', hgoes, hs'⟩ := run_goes p he
  cases hs'
  obtain ⟨new, hnew, hparts⟩ := hgoes.labels
  rw [append_nil] at hnew
  simp only [Match.part, Match.part?]
  cases hq : e.parts.find? (·.1 == name) with
  | none => exact .inl rfl
  | some q =>
    have hname : q.1 = name := by simpa using find?_some hq
    have hpart := hparts q (hnew ▸ mem_of_find?_eq_some hq)
    rw [hname] at hpart
    exact .inr hpart

theorem infix_part {p : Pattern} {m : Match} (h : p.match? t = some m) (name : String) : m.part name <:+: t := by
  rcases labels_part h name with hnil | ⟨-, hpart⟩
  · exact hnil ▸ nil_infix
  · exact hpart

theorem matchAt_takes {p : Pattern} {m : Match} (h : p.matchAt? s = some m) : p.Takes m.text ∧ s.rest = m.text ++ m.after := by
  obtain ⟨e, he, rfl⟩ := Option.map_eq_some_iff.mp h
  obtain ⟨s', hgoes, hs'⟩ := run_goes p he
  cases hs'
  obtain ⟨x, hx, hafter⟩ := hgoes.taken
  simp only [hafter.since]
  exact ⟨hx, hafter.rest⟩

theorem match_none {p : Pattern} (hp : ∀ x, p.Takes x → c ∈ x) (h : c ∉ t) : p.match? t = none := by
  cases hm : p.match? t with
  | none => rfl
  | some m =>
    obtain ⟨htakes, hrest⟩ := matchAt_takes hm
    change t = m.text ++ m.after at hrest
    rw [hrest] at h
    exact absurd (mem_append_left _ (hp _ htakes)) h

end FunctionDocs.Pattern
