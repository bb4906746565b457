import FunctionDocs.Proofs.Elastic
import FunctionDocs.Source.Function

/-!
# How a line is cut into a head

A match is followed part by part, each with the text it took and the name it was given. A pattern that looks at nothing but the text it
takes matches wherever a text of its language stands in front of one that the rest accepts; so a match that prefers few characters has
taken no more of them than it had to. Both together tell how a line is cut when it is read as the head of a function, and that the cut
between the return type and the name does not go through a word, unless the return type is a single character.
-/

open List

namespace FunctionDocs

namespace Pattern

variable {greedy : Bool}

/-! ## Patterns that match -/

/-- A pattern that looks at nothing but the text it takes. -/
def Blind : Pattern → Prop
  | .seq a b | .either a b => a.Blind ∧ b.Blind
  | .repeated a | .named _ a => a.Blind
  | .ahead _ | .start | .finish | .edge => False
  | _ => True

lemma prefer_isSome {here more : Option Place} (h : here.isSome ∨ more.isSome) : (prefer greedy here more).isSome := by
  cases greedy <;> cases here <;> cases more <;> simp_all [prefer]

lemma takeFrom_isSome {p : Char → Bool} {next : Next} {x r : Text} {least : Nat} {s : Place} (hs : s.rest = x ++ r)
    (hx : (many p least).Takes x) (hnext : ∀ e, s.After x e → (next e).isSome) :
    (takeFrom greedy p next (x ++ r) least s).isSome := by
  obtain ⟨hleast, hclass⟩ := hx
  induction x generalizing s least with
  | nil =>
    have hhere : (if least = 0 then next s else none).isSome := by
      rw [if_pos (Nat.le_zero.mp hleast)]
      exact hnext s (.refl s)
    cases r with
    | nil => exact hhere
    | cons c r => exact prefer_isSome (.inl hhere)
  | cons c x ih =>
    obtain ⟨hc, hclass⟩ := forall_mem_cons.mp hclass
    rw [length_cons] at hleast
    refine prefer_isSome (.inr ?_)
    rw [if_pos hc]
    exact ih rfl (fun e he => hnext e ((Place.After.step hs).trans he)) (by omega) hclass

lemma roundsFrom_isSome {a : Pattern} {next : Next}
    (ha : ∀ {x r : Text} {k : Next} {s : Place}, a.Takes x → s.rest = x ++ r → (∀ e, s.After x e → (k e).isSome) →
      (a.run k s).isSome)
    {ys : List Text} (hys : ∀ y ∈ ys, a.Takes y) {r : Text} {fuel : Nat} {s : Place} (hs : s.rest = ys.flatten ++ r)
    (hfuel : ys.flatten.length ≤ fuel) (hnext : ∀ e, s.After ys.flatten e → (next e).isSome) :
    (roundsFrom (a.run ·) next fuel s).isSome := by
  induction ys generalizing fuel s with
  | nil =>
    have hhere := hnext s (.refl s)
    cases fuel with
    | zero => exact hhere
    | succ fuel =>
      rw [roundsFrom_succ, Option.isSome_or, hhere, Bool.or_true]
  | cons y ys ih =>
    obtain ⟨hy, hrest⟩ := forall_mem_cons.mp hys
    rw [flatten_cons] at hs hfuel hnext
    -- a round that takes nothing is left out
    cases y with
    | nil => exact ih hrest hs hfuel hnext
    | cons c y =>
      cases fuel with
      | zero => simp at hfuel
      | succ fuel =>
        rw [roundsFrom_succ, Option.isSome_or, Bool.or_eq_true]
        rw [append_assoc] at hs
        refine .inl (ha hy hs fun e he => ?_)
        have hpassed := he.passed
        rw [length_cons] at hpassed
        rw [if_pos (by omega)]
        refine ih hrest (append_cancel_left (he.rest.symm.trans hs)) ?_ fun f hf => hnext f (he.trans hf)
        rw [length_append, length_cons] at hfuel
        omega

lemma run_isSome (p : Pattern) (hp : p.Blind) {x r : Text} {next : Next} {s : Place} (hx : p.Takes x) (hs : s.rest = x ++ r)
    (hnext : ∀ e, s.After x e → (next e).isSome) : (p.run next s).isSome := by
  induction p generalizing x r next s with
  | empty =>
    obtain rfl := hx
    exact hnext s (.refl s)
  | one p =>
    obtain ⟨c, hc, rfl⟩ := hx
    have hrest : s.rest = c :: r := hs
    simp only [run, hrest, hc]
    exact hnext _ (.step hrest)
  | lit t =>
    obtain rfl := hx
    rw [run, if_pos ( isPrefixOf_iff_prefix.mpr ⟨r, hs.symm⟩)]
    exact hnext _ (.skip hs)
  | many p least =>
    rw [run, manyFrom_eq_takeFrom, hs]
    exact takeFrom_isSome hs hx hnext
  | few p least =>
    rw [run, fewFrom_eq_takeFrom, hs]
    exact takeFrom_isSome hs hx hnext
  | seq a b iha ihb =>
    obtain ⟨y, z, rfl, hy, hz⟩ := hx
    rw [append_assoc] at hs
    refine iha hp.1 hy hs fun m hm => ?_
    exact ihb hp.2 hz (append_cancel_left (hm.rest.symm.trans hs)) fun e he => hnext e (hm.trans he)
  | either a b iha ihb =>
    rw [run_either, Option.isSome_or, Bool.or_eq_true]
    rcases hx with hx | hx
    · exact .inl (iha hp.1 hx hs hnext)
    · exact .inr (ihb hp.2 hx hs hnext)
  | repeated a iha =>
    obtain ⟨ys, rfl, hys⟩ := hx
    refine roundsFrom_isSome (iha hp) hys hs ?_ hnext
    rw [hs, length_append]
    exact Nat.le_add_right _ _
  | named n a iha => exact iha hp hx hs fun e he => hnext _ (he.withParts _)
  | ahead a _ => exact absurd hp id
  | start | finish | edge => exact absurd hp id

end Pattern

namespace Source

open Text Pattern

variable {x : Text} {next : Next} {s e : Pattern.Place}

/-! ## The cut -/

/-- The pieces of a line that is read as a head; a constructor has no return type. -/
structure HeadCut where
  lead : Text
  type : Text
  gap : Text
  name : Text
  behind : Text
  params : Text
  tail : Text

def HeadCut.line (c : HeadCut) : Text :=
  c.lead ++ c.type ++ c.gap ++ c.name ++ c.behind ++ '(' :: c.params ++ ')' :: c.tail

/-- A head that is read from the pieces. Between the return type and the name no word is cut, unless the return type is a single
character. -/
structure HeadCut.Reads (c : HeadCut) (h : Head) : Prop where
  lead : isBlankLine c.lead = true
  gap : isBlankLine c.gap = true
  behind : isBlankLine c.behind = true
  spelled : (∀ d ∈ c.name, isNameChar d = true) ∨ "operator".toList <+: c.name
  seam : c.type.length ≤ 1 ∨ (∀ d ∈ c.type.getLast?, isWordChar d = false) ∨ c.gap ≠ [] ∨ "operator".toList <+: c.name
  returnType : h.returnType = trim c.type
  name : h.name = c.name
  params : h.params = trim c.params

lemma isBlankLine_of_takes (h : blanks.Takes x) : isBlankLine x := isBlankLine_iff.mpr h.2

lemma isNameChar_of_isWordChar {c : Char} (h : isWordChar c) : isNameChar c := by
  rw [isNameChar, h]
  rfl

lemma isNameChar_of_takes_qualifier (h : qualifier.Takes x) : ∀ d ∈ x, isNameChar d := by
  obtain ⟨y, z, rfl, ⟨-, hy⟩, rfl⟩ := h
  refine forall_mem_append.mpr ⟨fun d hd => isNameChar_of_isWordChar (hy d hd), ?_⟩
  decide

def plainName : Pattern := .seq (.repeated qualifier) (.many (fun c => isWordChar c || c == '~') 1)

lemma isNameChar_of_takes_plainName (h : plainName.Takes x) : ∀ d ∈ x, isNameChar d := by
  obtain ⟨y, z, rfl, ⟨ys, rfl, hys⟩, -, hz⟩ := h
  refine forall_mem_append.mpr ⟨fun d hd => ?_, fun d hd => ?_⟩
  · obtain ⟨y, hy, hd⟩ := mem_flatten.mp hd
    exact isNameChar_of_takes_qualifier (hys y hy) d hd
  · have hclass := hz d hd
    rw [Bool.or_eq_true] at hclass
    rw [isNameChar, Bool.or_assoc, Bool.or_eq_true, Bool.or_eq_true]
    exact hclass.imp_right .inr

lemma takes_plainName_cons {d : Char} (hd : isWordChar d) (h : plainName.Takes x) : plainName.Takes (d :: x) := by
  obtain ⟨_, z, rfl, ⟨ys, rfl, hys⟩, hlen, hz⟩ := h
  cases ys with
  | nil =>
    refine ⟨[], d :: z, rfl, ⟨[], rfl, nofun⟩, Nat.succ_le_succ (Nat.zero_le _), forall_mem_cons.mpr ⟨?_, hz⟩⟩
    exact Bool.or_eq_true_iff.mpr (.inl hd)
  | cons y ys =>
    obtain ⟨⟨w, c, rfl, ⟨-, hw⟩, hc⟩, hrest⟩ := forall_mem_cons.mp hys
    refine ⟨((d :: w ++ c) :: ys).flatten, z, rfl, ⟨_, rfl, forall_mem_cons.mpr ⟨?_, hrest⟩⟩, hlen, hz⟩
    exact ⟨d :: w, c, rfl, ⟨Nat.succ_le_succ (Nat.zero_le _), forall_mem_cons.mpr ⟨hd, hw⟩⟩, hc⟩

lemma takes_functionName (h : functionName.Takes x) : plainName.Takes x ∨ "operator" <+: x := by
  rcases h with h | ⟨y, z, rfl, rfl, -⟩
  · exact .inl h
  · exact .inr (prefix_append _ _)

def headEnd : Pattern :=
  .all [.blanks, .opt (.named "const" (.lit "const")), .blanks, .opt (.lit ['{']), .blanks]

def headRest : Pattern :=
  .all [.blanks, .named "name" functionName, .blanks, .lit "(", .named "params" nestedParams, .lit ")", headEnd]

lemma functionHead_run (next : Next) (s : Pattern.Place) :
    functionHead.run next s =
      blanks.run ((named "type" (.seq (.one isWordChar) (.few isTypeChar 0))).run (headRest.run (finish.run next))) s := rfl

lemma blind_headRest : headRest.Blind := by
  simp [headRest, headEnd, functionName, nestedParams, qualifier, Pattern.all, opt, blanks, Blind]

lemma takes_headRest {gap name behind params tail : Text} (hgap : isBlankLine gap) (hname : functionName.Takes name)
    (hbehind : isBlankLine behind) (hparams : nestedParams.Takes params) (htail : headEnd.Takes tail) :
    headRest.Takes (gap ++ (name ++ (behind ++ ("(" ++ (params ++ (")" ++ tail)))))) := by
  have hblanks : ∀ {x : Text}, isBlankLine x → blanks.Takes x := fun hx => ⟨Nat.zero_le _, isBlankLine_iff.mp hx⟩
  exact ⟨gap, _, rfl, hblanks hgap, name, _, rfl, hname, behind, _, rfl, hblanks hbehind, _, _, rfl, rfl, params, _, rfl, hparams,
    _, _, rfl, rfl, htail⟩

lemma headRest_run (h : headRest.run next s = some e) :
    ∃ gap name behind params tail s', isBlankLine gap ∧ functionName.Takes name ∧ isBlankLine behind ∧
      nestedParams.Takes params ∧ headEnd.Takes tail ∧
      s.After (gap ++ (name ++ (behind ++ ("(" ++ (params ++ (")" ++ tail)))))) s' ∧
      (∃ new, s'.parts = new ++ ("params", params) :: ("name", name) :: s.parts ∧ ∀ q ∈ new, q.1 = "const") ∧ next s' = some e := by
  obtain ⟨gap, s₁, hgap, hafter₁, hparts₁, h⟩ := run_silent (p := blanks) rfl h
  obtain ⟨name, s₂, hname, hafter₂, hparts₂, h⟩ := run_named rfl h
  obtain ⟨behind, s₃, hbehind, hafter₃, hparts₃, h⟩ := run_silent (p := blanks) rfl h
  obtain ⟨_, s₄, rfl, hafter₄, hparts₄, h⟩ := run_silent (p := .lit "(") rfl h
  obtain ⟨params, s₅, hparams, hafter₅, hparts₅, h⟩ := run_named rfl h
  obtain ⟨_, s₆, rfl, hafter₆, hparts₆, h⟩ := run_silent (p := .lit ")") rfl h
  obtain ⟨s', ⟨⟨tail, htail, hafter⟩, new, hnew, hlabels⟩, hnext⟩ := run_goes headEnd h
  refine ⟨gap, name, behind, params, tail, s', isBlankLine_of_takes hgap, hname, isBlankLine_of_takes hbehind, hparams, htail, ?_,
    ⟨new, ?_, fun q hq => ?_⟩, hnext⟩
  · exact hafter₁.trans (hafter₂.trans (hafter₃.trans (hafter₄.trans (hafter₅.trans (hafter₆.trans hafter)))))
  · rw [hnew, hparts₆, hparts₅, hparts₄, hparts₃, hparts₂, hparts₁]
  · have hmem := mem_names_of_labels (hlabels q hq).1
    simpa [headEnd, Pattern.all, opt, blanks, names] using hmem

lemma headType_run (h : (named "type" (.seq (.one isWordChar) (.few isTypeChar 0))).run next s = some e) :
    ∃ c x s', s.After (c :: x) s' ∧ s'.parts = ("type", c :: x) :: s.parts ∧ next s' = some e ∧
      ∀ y z, x = y ++ z → z ≠ [] → ∃ s'', s.After (c :: y) s'' ∧ next s'' = none := by
  simp only [run] at h
  split at h
  · cases h
  rename_i c r hs
  split at h
  case isFalse => cases h
  obtain ⟨k, hk, hbefore, hnext⟩ := fewFrom_skip rfl h
  change k ≤ r.length at hk
  have hplace : ∀ {x z : Text}, r = x ++ z → s.After (c :: x) ((s.step c r).skip x.length) :=
    fun hx => (Pattern.Place.After.step hs).trans (.skip hx)
  have hafter := hplace (take_append_drop k r).symm
  rw [length_take_of_le hk] at hafter
  refine ⟨c, r.take k, _, hafter.withParts _, ?_, hnext, fun y z hy hz => ?_⟩
  · rw [hafter.since, Pattern.Place.parts_skip]
    rfl
  · have hlen : y.length + z.length = k := by
      rw [← length_take_of_le hk, hy, length_append]
    have hpos : 0 < z.length := length_pos_iff.mpr hz
    have hr : r = y ++ (z ++ r.drop k) := by
      rw [← append_assoc, ← hy, take_append_drop]
    exact ⟨_, (hplace hr).withParts _, hbefore y.length (by omega) (Nat.zero_le _)⟩

lemma headRest_isSome {name behind params tail rest : Text} (hname : functionName.Takes name)
    (hbehind : isBlankLine behind) (hparams : nestedParams.Takes params) (htail : headEnd.Takes tail)
    (hend : (rest = [] || rest = ['\n']))
    (hs : s.rest = name ++ (behind ++ ("(" ++ (params ++ (")" ++ tail)))) ++ rest) :
    (headRest.run (finish.run some) s).isSome := by
  have htakes := @takes_headRest [] _ _ _ _ rfl hname hbehind hparams htail
  refine run_isSome headRest blind_headRest htakes hs fun e he => ?_
  have hrest : e.rest = rest := append_cancel_left (he.rest.symm.trans hs)
  rw [run, hrest, if_pos hend]
  rfl

def typePattern : Pattern := .seq (.one isWordChar) (.few isTypeChar 0)

/-- The pieces of a line that matches as a head with a return type. The return type takes no more characters than it has to: behind
none of them a name begins that reaches to the end of the name. -/
structure HeadCut.Typed (c : HeadCut) (m : Match) : Prop where
  lead : isBlankLine c.lead = true
  gap : isBlankLine c.gap = true
  behind : isBlankLine c.behind = true
  type : typePattern.Takes c.type
  name : functionName.Takes c.name
  least : ∀ y z, c.type = y ++ z → y ≠ [] → z ≠ [] → ¬functionName.Takes (z ++ (c.gap ++ c.name))
  typePart : m.part "type" = c.type
  namePart : m.part "name" = c.name
  paramsPart : m.part "params" = c.params

lemma functionHead_typed {line : Text} {m : Match} (h : functionHead.match? line = some m) :
    ∃ c : HeadCut, line = c.line ∧ c.Typed m := by
  have hlabels := labels_part h "type"
  simp only [match?, matchAt?] at h
  obtain ⟨e, he, rfl⟩ := Option.map_eq_some_iff.mp h
  rw [functionHead_run] at he
  obtain ⟨lead, s₁, hlead, hafter₁, hparts₁, he⟩ := run_silent (p := blanks) rfl he
  obtain ⟨c, x, s₂, hafter₂, hparts₂, he, hshorter⟩ := headType_run he
  obtain ⟨gap, name, behind, params, tail, s₃, hgap, hname, hbehind, hparams, htail, hafter₃, ⟨new, hnew, hconst⟩, he⟩ := headRest_run he
  rw [run] at he
  split at he
  case isFalse => cases he
  rename_i hend
  cases he
  have hfind : ∀ n : String, n ≠ "const" → e.parts.find? (·.1 == n) =
      [("params", params), ("name", name), ("type", c :: x)].find? (·.1 == n) := by
    intro n hn
    rw [hnew, hparts₂, hparts₁]
    exact find_behind fun q hq hqn => hn (hqn.symm.trans (hconst q hq))
  have htypePart : Match.part ⟨[], e.since ⟨none, 0, line, []⟩, e.rest, e.parts⟩ "type" = c :: x := by
    simp only [Match.part, Match.part?, hfind "type" (by decide)]
    rfl
  have htype : typePattern.Takes (c :: x) := by
    rw [htypePart] at hlabels
    have hlabel := (hlabels.resolve_left (cons_ne_nil c x)).1
    simpa [typePattern, functionHead, Pattern.all, Pattern.opt, Pattern.blanks, functionName, qualifier, nestedParams, Labels] using hlabel
  refine ⟨⟨lead, c :: x, gap, name, behind, params, tail ++ e.rest⟩, ?_, isBlankLine_of_takes hlead, hgap, hbehind, htype, hname, ?_,
    htypePart, ?_, ?_⟩
  · have hline := (hafter₁.trans (hafter₂.trans hafter₃)).rest
    simpa [HeadCut.line] using hline
  · -- a name that begins earlier would have been read with a shorter return type
    intro y z hyz hy hz hearlier
    cases y with
    | nil => exact hy rfl
    | cons d y =>
      cases hyz
      obtain ⟨s', hafter', hnone⟩ := hshorter y z rfl hz
      have hwhole := hafter'.rest.symm.trans (hafter₂.trans hafter₃).rest
      have hsome := headRest_isSome hearlier hbehind hparams htail hend (s := s') (by simpa using hwhole)
      rw [hnone] at hsome
      cases hsome
  · simp only [Match.part, Match.part?, hfind "name" (by decide)]
    rfl
  · simp only [Match.part, Match.part?, hfind "params" (by decide)]
    rfl

lemma HeadCut.Typed.seam {c : HeadCut} {m : Match} (h : c.Typed m) :
    c.type.length ≤ 1 ∨ (∀ d ∈ c.type.getLast?, isWordChar d = false) ∨ c.gap ≠ [] ∨ "operator".toList <+: c.name := by
  rcases takes_functionName h.name with hplain | hoperator
  case inr => exact .inr (.inr (.inr hoperator))
  rcases eq_nil_or_concat' c.type with hnil | ⟨y, d, hd⟩
  · exact .inl (by rw [hnil]; exact Nat.zero_le 1)
  by_cases hy : y = []
  · exact .inl (by rw [hd, hy]; exact le_refl 1)
  rw [hd, getLast?_concat]
  cases hword : isWordChar d with
  | false => exact .inr (.inl fun d' hd' => Option.some.inj hd' ▸ hword)
  | true =>
    -- a word that is cut in two would have been left to the name
    refine .inr (.inr (.inl fun hnil => h.least y [d] hd hy (cons_ne_nil _ _) ?_))
    rw [hnil]
    exact .inl (takes_plainName_cons hword hplain)

lemma functionHead_cut {line : Text} {m : Match} (h : functionHead.match? line = some m) (isConst : Bool) :
    ∃ c : HeadCut, line = c.line ∧ c.Reads ⟨trim (m.part "type"), m.part "name", trim (m.part "params"), isConst⟩ := by
  obtain ⟨c, hline, hc⟩ := functionHead_typed h
  refine ⟨c, hline, hc.lead, hc.gap, hc.behind, (takes_functionName hc.name).imp_left isNameChar_of_takes_plainName, hc.seam, ?_,
    hc.namePart, ?_⟩
  · rw [hc.typePart]
  · rw [hc.paramsPart]

def constructorEnd : Pattern :=
  .all [.blanks, .opt (.all [.blanks, .lit ":", .blanks, .many (fun c => c != '{' && c != '}') 0]),
    .opt (.named "const" (.lit "const")), .blanks, .lit ['{']]

def constructorName : Pattern := .all [.opt qualifier, .opt (.lit "~"), .many isWordChar 1]

lemma isNameChar_of_takes_constructorName (h : constructorName.Takes x) : ∀ d ∈ x, isNameChar d := by
  obtain ⟨y, _, rfl, hy, z, w, rfl, hz, -, hw⟩ := h
  refine forall_mem_append.mpr ⟨?_, forall_mem_append.mpr ⟨?_, fun d hd => isNameChar_of_isWordChar (hw d hd)⟩⟩
  · rcases hy with hy | rfl
    · exact isNameChar_of_takes_qualifier hy
    · exact nofun
  · rcases hz with rfl | rfl <;> decide

/-- The pieces of a line that matches as the head of a constructor, which has no return type. -/
structure HeadCut.Untyped (c : HeadCut) (m : Match) : Prop where
  lead : isBlankLine c.lead = true
  type : c.type = []
  gap : c.gap = []
  behind : isBlankLine c.behind = true
  name : constructorName.Takes c.name
  namePart : m.part "name" = c.name
  paramsPart : m.part "params" = c.params

lemma constructorHead_untyped {line : Text} {m : Match} (h : constructorHead.match? line = some m) :
    ∃ c : HeadCut, line = c.line ∧ c.Untyped m := by
  obtain ⟨e, he, rfl⟩ := Option.map_eq_some_iff.mp h
  obtain ⟨lead, s₁, hlead, hafter₁, hparts₁, he⟩ := run_silent (p := blanks) rfl he
  obtain ⟨name, s₂, hname, hafter₂, hparts₂, he⟩ := run_named (p := constructorName) rfl he
  obtain ⟨behind, s₃, hbehind, hafter₃, hparts₃, he⟩ := run_silent (p := blanks) rfl he
  obtain ⟨_, s₄, rfl, hafter₄, hparts₄, he⟩ := run_silent (p := .lit "(") rfl he
  obtain ⟨params, s₅, -, hafter₅, hparts₅, he⟩ := run_named (p := .many (· != ')') 0) rfl he
  obtain ⟨_, s₆, rfl, hafter₆, hparts₆, he⟩ := run_silent (p := .lit ")") rfl he
  obtain ⟨s₇, ⟨⟨tail, -, hafter₇⟩, new, hnew, hlabels⟩, he⟩ := run_goes constructorEnd he
  cases he
  have hfind : ∀ n : String, n ≠ "const" → e.parts.find? (·.1 == n) = [("params", params), ("name", name)].find? (·.1 == n) := by
    intro n hn
    rw [hnew, hparts₆, hparts₅, hparts₄, hparts₃, hparts₂, hparts₁]
    refine find_behind fun q hq hqn => hn (hqn.symm.trans ?_)
    have hmem := mem_names_of_labels (hlabels q hq).1
    simpa [constructorEnd, Pattern.all, Pattern.opt, Pattern.blanks, names] using hmem
  refine ⟨⟨lead, [], [], name, behind, params, tail ++ e.rest⟩, ?_, isBlankLine_of_takes hlead, rfl, rfl, isBlankLine_of_takes hbehind,
    hname, ?_, ?_⟩
  · have hline := (hafter₁.trans (hafter₂.trans (hafter₃.trans (hafter₄.trans (hafter₅.trans (hafter₆.trans hafter₇)))))).rest
    simpa [HeadCut.line] using hline
  · simp only [Match.part, Match.part?, hfind "name" (by decide)]
    rfl
  · simp only [Match.part, Match.part?, hfind "params" (by decide)]
    rfl

lemma constructorHead_cut {line : Text} {m : Match} (h : constructorHead.match? line = some m) (isConst : Bool) :
    ∃ c : HeadCut, line = c.line ∧ c.Reads ⟨[], m.part "name", trim (m.part "params"), isConst⟩ := by
  obtain ⟨c, hline, hc⟩ := constructorHead_untyped h
  refine ⟨c, hline, hc.lead, ?_, hc.behind, .inl (isNameChar_of_takes_constructorName hc.name), .inl ?_, ?_, hc.namePart, ?_⟩
  · rw [hc.gap]
    rfl
  · rw [hc.type]
    exact Nat.zero_le 1
  · rw [hc.type]
    rfl
  · rw [hc.paramsPart]

lemma readHead_cases {line : Text} {below : List Joined} {h : Head} (hread : readHead line below = .ok (some h)) :
    constructorHead? line = some h ∨ constructorHead? line = none ∧ functionHead? line = some h := by
  simp only [readHead] at hread
  split at hread
  next head hhead =>
    cases hread
    exact .inl hhead
  next hnone =>
    split at hread
    · cases hread
    next head hhead =>
      split at hread
      · cases hread
        exact .inr ⟨hnone, hhead⟩
      · cases hread

lemma readHead_cut {line : Text} {below : List Joined} {h : Head} (hread : readHead line below = .ok (some h)) :
    ∃ c : HeadCut, line = c.line ∧ c.Reads h := by
  rcases readHead_cases hread with hhead | ⟨-, hhead⟩
  · obtain ⟨m, hm, rfl⟩ := Option.map_eq_some_iff.mp hhead
    exact constructorHead_cut hm _
  · obtain ⟨m, hm, rfl⟩ := Option.map_eq_some_iff.mp hhead
    exact functionHead_cut hm _

end Source

end FunctionDocs
