import FunctionDocs.Proofs.Erase
import FunctionDocs.Proofs.Spacing
import Mathlib.Data.List.Forall2
import Mathlib.Data.Option.Basic

/-!
# Patterns and white space

A pattern that neither counts white space nor looks for its ends matches texts alike that differ in the amount of their white space:
both match or neither does, and the parts that are named differ in their white space only.
-/

open List

namespace FunctionDocs

namespace Pattern

open Text

variable {greedy : Bool} {p : Char → Bool} {least : Nat} {x' y y' : Option Place} {a : Pattern} {e m s s' : Place} {r t x : Text}

/-! ## Patterns that white space does not disturb -/

/-- A pattern that neither counts white space nor looks for its ends. -/
def Elastic : Pattern → Prop
  | .empty => True
  | .one p => ∀ c, isBlank c = true → p c = false
  | .lit t => ∀ c ∈ t, isBlank c = false
  | .many p least => (∀ c, isBlank c = true → p c = false) ∨ (least = 0 ∧ ∀ c, isBlank c = true → p c = true)
  | .few p least => (∀ c, isBlank c = true → p c = false) ∨ (least = 0 ∧ ∀ c, isBlank c = true → p c = true)
  | .seq a b => a.Elastic ∧ b.Elastic
  | .either a b => a.Elastic ∧ b.Elastic
  | .repeated a => a.Elastic ∧ ∀ x, a.Takes x → solids x ≠ []
  | .named _ a => a.Elastic
  | .ahead a => a.Elastic
  | .start => False
  | .finish => True
  | .edge => False

/-- Places in texts that differ in their white space only, with the same names given to parts that do so too. -/
structure Alike (s s' : Place) : Prop where
  rest : Loose s.rest s'.rest
  parts : List.Forall₂ (fun q q' => q.1 = q'.1 ∧ solids q.2 = solids q'.2) s.parts s'.parts

lemma Alike.nil_iff (h : Alike s s') : s.rest = [] ↔ s'.rest = [] := h.rest.nil_iff

lemma Alike.named {e' : Place} {x' : Text} (n : String) (hs : Alike s s') (he : Alike e e') (hx : s.After x e) (hx' : s'.After x' e') :
    Alike { e with parts := (n, e.since s) :: e.parts } { e' with parts := (n, e'.since s') :: e'.parts } := by
  refine ⟨he.rest, .cons ⟨rfl, ?_⟩ he.parts⟩
  have hwhole := hs.rest.solids_eq
  rw [hx.rest, hx'.rest, solids_append, solids_append] at hwhole
  have hrest := he.rest.solids_eq
  rw [hrest] at hwhole
  rw [hx.since, hx'.since]
  exact append_cancel_right hwhole

variable {R : Place → Place → Prop} {next next' : Next}

/-- What follows a pattern at two places comes to related results from places that are alike. -/
def Onward (a : Pattern) (R : Place → Place → Prop) (next next' : Next) (s s' : Place) : Prop :=
  ∀ e e', a.Goes s e → a.Goes s' e' → Alike e e' → Option.Rel R (next e) (next' e')

lemma rel_swap {x : Option Place} (h : Option.Rel R x y) : Option.Rel (fun e e' => R e' e) y x := by
  cases h with
  | some h => exact .some h
  | none => exact .none

lemma rel_or {x : Option Place} (hx : Option.Rel R x x') (hy : Option.Rel R y y') : Option.Rel R (x.or y) (x'.or y') := by
  cases hx with
  | some h => exact .some h
  | none => exact hy

lemma rel_prefer {x : Option Place} (hx : Option.Rel R x x') (hy : Option.Rel R y y') :
    Option.Rel R (prefer greedy x y) (prefer greedy x' y') := by
  cases greedy with
  | false => exact rel_or hx hy
  | true => exact rel_or hy hx

lemma rel_prefer_left {x : Option Place} (hx : Option.Rel R x x') (hy : Option.Rel R y (prefer greedy x' y')) :
    Option.Rel R (prefer greedy x y) (prefer greedy x' y') := by
  cases greedy with
  | false =>
    cases hx with
    | some h => exact .some h
    | none => exact hy
  | true =>
    change Option.Rel R y (y'.or x') at hy
    change Option.Rel R (y.or x) (y'.or x')
    cases y with
    | some e => exact hy
    | none =>
      have hnone : y'.or x' = none := by
        generalize y'.or x' = z at hy
        cases hy
        rfl
      rw [(Option.or_eq_none_iff.mp hnone).2] at hx
      rw [hnone]
      exact hx

lemma rel_prefer_right {x : Option Place} (hx : Option.Rel R x x') (hy : Option.Rel R (prefer greedy x y) y') :
    Option.Rel R (prefer greedy x y) (prefer greedy x' y') :=
  rel_swap (rel_prefer_left (rel_swap hx) (rel_swap hy))

lemma rel_here (h : Alike s s')
    (hnext : (many p least).Onward R next next' s s') :
    Option.Rel R (if least = 0 then next s else none) (if least = 0 then next' s' else none) := by
  split
  next hleast =>
    subst hleast
    exact hnext s s' (.many_stop p s) (.many_stop p s') h
  · exact .none

lemma takeFrom_solid (hp : ∀ c, isBlank c → p c = false) {t : Text} {least : Nat} {s s' : Place}
    (ht : s.rest = t) (h : Alike s s')
    (hnext : (Pattern.many p least).Onward R next next' s s') :
    Option.Rel R (takeFrom greedy p next t least s) (takeFrom greedy p next' s'.rest least s') := by
  induction t generalizing least s s' with
  | nil =>
    rw [h.nil_iff.mp ht]
    exact rel_here h hnext
  | cons c r ih =>
    have hhere := rel_here h hnext
    have hloose := h.rest
    rw [ht] at hloose
    cases hc : isBlank c with
    | true =>
      obtain ⟨c', r', ht', hc'⟩ := hloose.gap_head hc
      rw [ht', takeFrom, takeFrom, hp c hc, hp c' (isBlank_of_isGap hc')]
      exact rel_prefer hhere .none
    | false =>
      obtain ⟨r', ht', hrest⟩ := hloose.solid_head hc
      rw [ht']
      refine rel_prefer hhere ?_
      split
      next hpc =>
        refine @ih (least - 1) (s.step c r) (s'.step c r') rfl ⟨hrest, h.parts⟩ fun e e' he he' => ?_
        exact hnext e e' (he.many_step ht hpc) (he'.many_step ht' hpc)
      · exact .none

/-- Characters of a class with all white space are taken alike: the places within a run of white space are all alike. -/
lemma takeFrom_gap (hp : ∀ c, isBlank c → p c) {t t' : Text} (hloose : Loose t t')
    {s s' : Place} (ht : s.rest = t) (ht' : s'.rest = t')
    (hparts : List.Forall₂ (fun q q' => q.1 = q'.1 ∧ solids q.2 = solids q'.2) s.parts s'.parts)
    (hnext : (Pattern.many p 0).Onward R next next' s s') :
    Option.Rel R (takeFrom greedy p next t 0 s) (takeFrom greedy p next' t' 0 s') := by
  induction hloose generalizing s s' with
  | nil => exact hnext s s' (.many_stop p s) (.many_stop p s') ⟨by rw [ht, ht']; exact .nil, hparts⟩
  | @solid c r r' hc h ih =>
    have hhere := hnext s s' (.many_stop p s) (.many_stop p s') ⟨by rw [ht, ht']; exact .solid hc h, hparts⟩
    rw [takeFrom]
    refine rel_prefer hhere ?_
    split
    next hpc =>
      refine @ih (s.step c r) (s'.step c r') rfl rfl hparts fun e e' he he' => ?_
      exact hnext e e' (he.many_step ht hpc) (he'.many_step ht' hpc)
    · exact .none
  | @gap b b' r r' hb hb' h ih =>
    have hhere := hnext s s' (.many_stop p s) (.many_stop p s') ⟨by rw [ht, ht']; exact .gap hb hb' h, hparts⟩
    have hpb := hp b (isBlank_of_isGap hb)
    have hpb' := hp b' (isBlank_of_isGap hb')
    rw [takeFrom, takeFrom, if_pos hpb, if_pos hpb']
    refine rel_prefer hhere (@ih (s.step b r) (s'.step b' r') rfl rfl hparts fun e e' he he' => ?_)
    exact hnext e e' (he.many_step ht hpb) (he'.many_step ht' hpb')
  | @left b b₁ r t' hb hb₁ h ih =>
    have hhere := hnext s s' (.many_stop p s) (.many_stop p s') ⟨by rw [ht, ht']; exact .left hb hb₁ h, hparts⟩
    have hpb := hp b (isBlank_of_isGap hb)
    -- the left text goes one character further within its run of white space, and is still like all of the right text
    have hrest := @ih (s.step b (b₁ :: r)) s' rfl ht' hparts fun e e' he he' => hnext e e' (he.many_step ht hpb) he'
    obtain ⟨b', r', rfl, -⟩ := h.gap_head (isBlank_of_isGap hb₁)
    rw [takeFrom, if_pos hpb]
    exact rel_prefer_left hhere hrest
  | @right b' b₁ t r' hb' hb₁ h ih =>
    have hhere := hnext s s' (.many_stop p s) (.many_stop p s') ⟨by rw [ht, ht']; exact .right hb' hb₁ h, hparts⟩
    have hpb' := hp b' (isBlank_of_isGap hb')
    have hrest := @ih s (s'.step b' (b₁ :: r')) ht rfl hparts fun e e' he he' => hnext e e' he (he'.many_step ht' hpb')
    obtain ⟨b, r, rfl, -⟩ := h.symm.gap_head (isBlank_of_isGap hb₁)
    rw [takeFrom_cons greedy p next' b', if_pos hpb']
    exact rel_prefer_right hhere hrest

lemma takeFrom_alike
    (hp : (∀ c, isBlank c → p c = false) ∨ (least = 0 ∧ ∀ c, isBlank c → p c)) {s s' : Place} (h : Alike s s')
    (hnext : (many p least).Onward R next next' s s') :
    Option.Rel R (takeFrom greedy p next s.rest least s) (takeFrom greedy p next' s'.rest least s') := by
  rcases hp with hp | ⟨rfl, hp⟩
  · exact takeFrom_solid hp rfl h hnext
  · exact takeFrom_gap hp h.rest rfl rfl h.parts hnext

lemma roundsFrom_succ (round : Next → Next) (next : Next) (fuel : Nat) (s : Place) :
    roundsFrom round next (fuel + 1) s =
      (round (fun e => if s.passed < e.passed then roundsFrom round next fuel e else none) s).or (next s) := by
  rw [roundsFrom]
  generalize round (fun e => if s.passed < e.passed then roundsFrom round next fuel e else none) s = x
  cases x <;> rfl

lemma roundsFrom_end (a : Pattern) (next : Next) (fuel : Nat) {s : Place} (hs : s.rest = []) :
    roundsFrom (a.run ·) next fuel s = next s := by
  cases fuel with
  | zero => rfl
  | succ fuel =>
    rw [roundsFrom_succ]
    cases hround : a.run (fun e => if s.passed < e.passed then roundsFrom (a.run ·) next fuel e else none) s with
    | none => rfl
    | some e =>
      obtain ⟨m, hgoes, hm⟩ := run_goes a hround
      obtain ⟨x, -, hafter⟩ := hgoes.taken
      have hx : x = [] := (append_eq_nil_iff.mp (hafter.rest.symm.trans hs)).1
      have hpassed := hafter.passed
      rw [hx, length_nil] at hpassed
      rw [if_neg (by omega)] at hm
      cases hm

lemma roundsFrom_alike (hsolid : ∀ x, a.Takes x → solids x ≠ []) (ha : ∀ {k k' : Next} {s s' : Place}, Alike s s' →
      a.Onward R k k' s s' → Option.Rel R (a.run k s) (a.run k' s'))
    {fuel fuel' : Nat} {s s' : Place} (hfuel : s.rest.length ≤ fuel) (hfuel' : s'.rest.length ≤ fuel') (h : Alike s s')
    (hnext : (repeated a).Onward R next next' s s') :
    Option.Rel R (roundsFrom (a.run ·) next fuel s) (roundsFrom (a.run ·) next' fuel' s') := by
  have hhere := hnext s s' (.stop a s) (.stop a s') h
  -- a round makes progress, whatever the amount of white space
  have hprogress : ∀ {m e : Place}, a.Goes m e → m.passed < e.passed ∧ e.rest.length < m.rest.length := by
    intro m e hgoes
    obtain ⟨x, hx, hafter⟩ := hgoes.taken
    have hne : 0 < x.length := by
      cases x with
      | nil => exact absurd rfl (hsolid [] hx)
      | cons c x => simp
    have hpassed := hafter.passed
    have hrest := congrArg length hafter.rest
    rw [length_append] at hrest
    omega
  induction fuel generalizing fuel' s s' with
  | zero =>
    have hs : s.rest = [] := eq_nil_of_length_eq_zero (by omega)
    rw [roundsFrom_end a next' fuel' (h.nil_iff.mp hs)]
    exact hhere
  | succ fuel ih =>
    cases fuel' with
    | zero =>
      have hs' : s'.rest = [] := eq_nil_of_length_eq_zero (by omega)
      rw [roundsFrom_end a next (fuel + 1) (h.nil_iff.mpr hs')]
      exact hhere
    | succ fuel' =>
      rw [roundsFrom_succ, roundsFrom_succ]
      refine rel_or (ha h fun e e' he he' halike => ?_) hhere
      obtain ⟨hpassed, hlen⟩ := hprogress he
      obtain ⟨hpassed', hlen'⟩ := hprogress he'
      rw [if_pos hpassed, if_pos hpassed']
      have hrest : ∀ f f', (repeated a).Goes e f → (repeated a).Goes e' f' → Alike f f' →
          Option.Rel R (next f) (next' f') := fun f f' hf hf' => hnext f f' (he.round hf) (he'.round hf')
      exact ih (by omega) (by omega) halike hrest (hrest e e' (.stop a e) (.stop a e') halike)

lemma one_alike (hp : (one p).Elastic) {s s' : Place} (h : Alike s s')
    (hnext : (one p).Onward R next next' s s') :
    Option.Rel R ((one p).run next s) ((one p).run next' s') := by
  simp only [run]
  cases hs : s.rest with
  | nil =>
    rw [h.nil_iff.mp hs]
    exact .none
  | cons c r =>
    have hloose := h.rest
    rw [hs] at hloose
    cases hc : isBlank c with
    | true =>
      obtain ⟨c', r', hs', hc'⟩ := hloose.gap_head hc
      simp only [hs', hp c hc, hp c' (isBlank_of_isGap hc')]
      exact .none
    | false =>
      obtain ⟨r', hs', hrest⟩ := hloose.solid_head hc
      simp only [hs']
      split
      next hpc =>
        exact hnext _ _ (.plain ⟨c, hpc, rfl⟩ (.step hs) rfl) (.plain ⟨c, hpc, rfl⟩ (.step hs') rfl) ⟨hrest, h.parts⟩
      · exact .none

lemma lit_alike (ht : ∀ c ∈ t, isBlank c = false) {s s' : Place} (h : Alike s s')
    (hnext : (lit t).Onward R next next' s s') :
    Option.Rel R ((lit t).run next s) ((lit t).run next' s') := by
  simp only [run]
  by_cases hpre : t <+: s.rest
  · obtain ⟨r, hr⟩ := hpre
    have hloose := h.rest
    rw [← hr] at hloose
    obtain ⟨r', hr', hrest⟩ := hloose.append_solid ht
    rw [if_pos ( List.isPrefixOf_iff_prefix.mpr ⟨r, hr⟩), if_pos ( isPrefixOf_iff_prefix.mpr ⟨r', hr'.symm⟩)]
    refine hnext _ _ (.plain rfl (.skip hr.symm) (Place.parts_skip _ s)) (.plain rfl (.skip hr') (Place.parts_skip _ s')) ⟨?_, ?_⟩
    · rw [Place.rest_skip, Place.rest_skip, ← hr, hr', drop_left, drop_left]
      exact hrest
    · rw [Place.parts_skip, Place.parts_skip]
      exact h.parts
  · have hpre' : ¬t <+: s'.rest := by
      rintro ⟨r', hr'⟩
      have hloose := h.rest.symm
      rw [← hr'] at hloose
      obtain ⟨r, hr, -⟩ := hloose.append_solid ht
      exact hpre ⟨r, hr.symm⟩
    rw [if_neg (mt isPrefixOf_iff_prefix.mp hpre), if_neg (mt isPrefixOf_iff_prefix.mp hpre')]
    exact .none

lemma finish_alike (h : Alike s s')
    (hnext : finish.Onward R next next' s s') :
    Option.Rel R (finish.run next s) (finish.run next' s') := by
  have hline : ∀ {t t' : Text}, Loose t t' → (t = [] || t = ['\n']) = decide (t = []) := by
    intro t t' hloose
    have hne : t ≠ ['\n'] := by
      rintro rfl
      exact hloose.not_mem mem_cons_self
    simp [hne]
  have hsame : decide (s.rest = []) = decide (s'.rest = []) := decide_eq_decide.mpr h.nil_iff
  simp only [run]
  rw [hline h.rest, hline h.rest.symm, hsame]
  split
  · exact hnext s s' (.plain rfl (.refl s) rfl) (.plain rfl (.refl s') rfl) h
  · exact .none

lemma run_either (a b : Pattern) (next : Next) (s : Place) : (either a b).run next s = (a.run next s).or (b.run next s) := by
  rw [run]
  cases a.run next s <;> rfl

lemma run_alike (p : Pattern) (hp : p.Elastic) (h : Alike s s') (hnext : p.Onward R next next' s s') :
    Option.Rel R (p.run next s) (p.run next' s') := by
  induction p generalizing R next next' s s' with
  | empty => exact hnext s s' (.plain rfl (.refl s) rfl) (.plain rfl (.refl s') rfl) h
  | one p => exact one_alike hp h hnext
  | lit t => exact lit_alike hp h hnext
  | many p least =>
    simp only [run, manyFrom_eq_takeFrom]
    exact takeFrom_alike hp h hnext
  | few p least =>
    simp only [run, fewFrom_eq_takeFrom]
    exact takeFrom_alike hp h fun e e' he he' => hnext e e' he.few he'.few
  | seq a b iha ihb =>
    exact iha hp.1 h fun m m' hm hm' halike =>
      ihb hp.2 halike fun e e' he he' => hnext e e' (hm.seq he) (hm'.seq he')
  | either a b iha ihb =>
    rw [run_either, run_either]
    exact rel_or (iha hp.1 h fun e e' he he' => hnext e e' (he.inl b) (he'.inl b))
      (ihb hp.2 h fun e e' he he' => hnext e e' (he.inr a) (he'.inr a))
  | repeated a iha =>
    exact roundsFrom_alike hp.2 (iha hp.1) (le_refl _) (le_refl _) h hnext
  | named n a iha =>
    refine iha hp h fun e e' he he' halike => ?_
    obtain ⟨x, -, hx⟩ := he.taken
    obtain ⟨x', -, hx'⟩ := he'.taken
    exact hnext _ _ (he.named n) (he'.named n) (h.named n halike hx hx')
  | ahead a iha =>
    have hinner : Option.Rel (fun e e' => a.Goes s e ∧ a.Goes s' e' ∧ Alike e e') (a.run some s) (a.run some s') :=
      iha hp h fun e e' he he' halike => .some ⟨he, he', halike⟩
    simp only [run]
    generalize a.run some s = x at hinner
    generalize a.run some s' = x' at hinner
    cases hinner with
    | none => exact .none
    | some hsome =>
      obtain ⟨he, he', halike⟩ := hsome
      exact hnext _ _ he.ahead he'.ahead ⟨h.rest, halike.parts⟩
  | start => exact absurd hp id
  | finish => exact finish_alike h hnext
  | edge => exact absurd hp id

lemma find_alike {qs qs' : List (String × Text)} (name : String)
    (h : Forall₂ (fun q q' => q.1 = q'.1 ∧ solids q.2 = solids q'.2) qs qs') :
    solids (((qs.find? (·.1 == name)).map (·.2)).getD []) = solids (((qs'.find? (·.1 == name)).map (·.2)).getD []) := by
  induction h with
  | nil => rfl
  | @cons q q' _ _ hq _ ih =>
    obtain ⟨hname, hsolids⟩ := hq
    rw [find?_cons, find?_cons, ← hname]
    cases q.1 == name with
    | true => exact hsolids
    | false => exact ih

lemma match_alike {p : Pattern} (hp : p.Elastic) {t t' : Text} (h : Loose t t') (name : String) :
    Option.Rel (fun m m' => solids (m.part name) = solids (m'.part name)) (p.match? t) (p.match? t') := by
  have hrun : Option.Rel Alike (p.run some ⟨none, 0, t, []⟩) (p.run some ⟨none, 0, t', []⟩) :=
    run_alike p hp ⟨h, .nil⟩ fun e e' _ _ halike => .some halike
  simp only [match?, matchAt?]
  generalize p.run some ⟨none, 0, t, []⟩ = x at hrun
  generalize p.run some ⟨none, 0, t', []⟩ = x' at hrun
  cases hrun with
  | none => exact .none
  | some halike => exact .some (find_alike name halike.parts)

lemma elastic_blanks : blanks.Elastic := .inr ⟨rfl, fun _ h => h⟩

lemma elastic_lit (h : ∀ c ∈ t, isBlank c = false) : (lit t).Elastic := h

lemma elastic_opt {p : Pattern} (h : p.Elastic) : p.opt.Elastic := ⟨h, trivial⟩

end Pattern

end FunctionDocs
