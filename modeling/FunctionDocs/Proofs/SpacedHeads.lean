import FunctionDocs.Proofs.Elastic
import FunctionDocs.Proofs.Inline
import FunctionDocs.Proofs.Masking
import FunctionDocs.Proofs.Outline

/-!
# Heads in loose texts

The amount of white space in a line does not matter to the head that it holds: loose lines are masked alike, begin with a control
statement alike, and hold the same function, as long as its name is a word and not an operator.
-/

open List

namespace FunctionDocs.Source

open Text Pattern

variable {c : Char} {line line' t t' : Text} {b : Char} {x : Text} {below below' : List Joined}

/-! ## Masks -/

lemma maskFrom_blank (hb : isBlank b) (n : Nat) (held r : Text) :
    maskFrom n 0 held (b :: r) = ⟨b :: (maskFrom n 0 [] r).text, (maskFrom n 0 [] r).parts⟩ := by
  have hopen : (b == '<') = false := beq_eq_false_iff_ne.mpr (ne_of_isBlank hb rfl)
  rw [maskFrom, hopen]
  rfl

lemma maskFrom_held (hb : isBlank b) (n d : Nat) (held r : Text) :
    maskFrom n (d + 1) held (b :: r) = maskFrom n (d + 1) (b :: held) r := by
  have hopen : (b == '<') = false := beq_eq_false_iff_ne.mpr (ne_of_isBlank hb rfl)
  have hclose : (b == '>') = false := beq_eq_false_iff_ne.mpr (ne_of_isBlank hb rfl)
  cases d <;> simp [maskFrom, hopen, hclose]

/-- Loose texts are masked alike. Within brackets the text since the first of them counts too, as it comes back if they are never
closed. -/
lemma maskFrom_loose (h : Loose t t') :
    ∀ n, Loose (maskFrom n 0 [] t).text (maskFrom n 0 [] t').text ∧
      ∀ d held held', Loose (held.reverse ++ t) (held'.reverse ++ t') →
        Loose (maskFrom n (d + 1) held t).text (maskFrom n (d + 1) held' t').text := by
  have hleft : ∀ {n : Nat} {b b₁ : Char} {r u : Text}, isGap b → isGap b₁ → Loose (maskFrom n 0 [] (b₁ :: r)).text u →
      Loose (maskFrom n 0 [] (b :: b₁ :: r)).text u := by
    intro n b b₁ r u hb hb₁ hrest
    rw [maskFrom_blank (isBlank_of_isGap hb)]
    rw [maskFrom_blank (isBlank_of_isGap hb₁)] at hrest ⊢
    exact .left hb hb₁ hrest
  induction h with
  | nil =>
    intro n
    refine ⟨.nil, fun d held held' hheld => ?_⟩
    rwa [append_nil, append_nil] at hheld
  | @solid c r r' hc h ih =>
    intro n
    constructor
    · rw [maskFrom, maskFrom]
      split
      · exact (ih n).2 0 [c] [c] (.solid hc h)
      · exact .solid hc (ih n).1
    · intro d held held' hheld
      have hcons := Loose.reverse_cons hheld
      cases d with
      | zero =>
        simp only [maskFrom]
        split
        · exact (ih n).2 1 _ _ hcons
        · split
          -- both give way to the same placeholder, whatever they held
          · refine (Loose.refl fun hfeed => ?_).append (ih (n + 1)).1
            cases isKeyChar_of_mem_placeholder hfeed
          · exact (ih n).2 0 _ _ hcons
      | succ d =>
        simp only [maskFrom]
        split
        · exact (ih n).2 (d + 2) _ _ hcons
        · split
          · exact (ih n).2 d _ _ hcons
          · exact (ih n).2 (d + 1) _ _ hcons
  | gap hb hb' _ ih =>
    intro n
    refine ⟨?_, fun d held held' hheld => ?_⟩
    · rw [maskFrom_blank (isBlank_of_isGap hb), maskFrom_blank (isBlank_of_isGap hb')]
      exact .gap hb hb' (ih n).1
    · rw [maskFrom_held (isBlank_of_isGap hb), maskFrom_held (isBlank_of_isGap hb')]
      exact (ih n).2 d _ _ (.reverse_cons hheld)
  | left hb hb₁ _ ih =>
    intro n
    refine ⟨hleft hb hb₁ (ih n).1, fun d held held' hheld => ?_⟩
    rw [maskFrom_held (isBlank_of_isGap hb)]
    refine (ih n).2 d _ _ ?_
    rwa [reverse_cons, append_assoc]
  | right hb' hb₁ _ ih =>
    intro n
    refine ⟨(hleft hb' hb₁ (ih n).1.symm).symm, fun d held held' hheld => ?_⟩
    rw [maskFrom_held (isBlank_of_isGap hb')]
    refine (ih n).2 d _ _ ?_
    rwa [reverse_cons, append_assoc]

lemma mask_loose (h : Loose t t') : Loose (mask t).text (mask t').text := (maskFrom_loose h 0).1

lemma mem_mask (hc : isKeyChar c = false) (h : c ∈ (mask t).text) : c ∈ t := (maskedAs_mask t).mem_of_mem hc h

/-! ## Patterns of heads -/

lemma isOperatorChar_of_isBlank (h : isBlank c) : isOperatorChar c = false := by
  have hsolid : ∀ d ∈ ("[]()+-*/<>=!&|^%~" : Text), isBlank d = false := by decide
  rw [isOperatorChar, isWordChar_of_isBlank h, Bool.false_or, ← Bool.not_eq_true, elem_iff]
  intro hmem
  rw [hsolid c hmem] at h
  cases h

lemma elastic_qualifier : qualifier.Elastic := ⟨.inl fun _ => isWordChar_of_isBlank, elastic_lit (by decide)⟩

lemma elastic_functionName : functionName.Elastic := by
  refine ⟨⟨⟨elastic_qualifier, ?_⟩, .inl fun c hc => ?_⟩, elastic_lit (by decide), elastic_blanks,
    .inl fun _ => isOperatorChar_of_isBlank⟩
  · rintro x ⟨y, z, rfl, -, rfl⟩
    rw [solids_append]
    exact append_ne_nil_of_right_ne_nil _ (by decide)
  · simp [isWordChar_of_isBlank hc, ne_of_isBlank hc (d := '~') rfl]

lemma isPlain_of_isBlank (h : isBlank c) : isPlain c := by
  simp [isPlain, ne_of_isBlank h (d := '(') rfl, ne_of_isBlank h (d := ')') rfl]

lemma elastic_nestedParams : nestedParams.Elastic := by
  have hplain : (many isPlain 0).Elastic := .inr ⟨rfl, fun _ => isPlain_of_isBlank⟩
  have hinner : (Pattern.many (· != ')') 0).Elastic := .inr ⟨rfl, fun c hc => by simp [ne_of_isBlank hc (d := ')') rfl]⟩
  refine ⟨hplain, ⟨elastic_lit (by decide), hinner, elastic_lit (by decide), hplain⟩, ?_⟩
  rintro x ⟨y, z, rfl, rfl, -⟩
  rw [solids_append]
  exact append_ne_nil_of_left_ne_nil (by decide) _

lemma elastic_functionHead : functionHead.Elastic :=
  ⟨elastic_blanks, ⟨fun _ => isWordChar_of_isBlank, .inr ⟨rfl, fun c hc => by simp [isTypeChar, hc]⟩⟩, elastic_blanks,
    elastic_functionName, elastic_blanks, elastic_lit (by decide), elastic_nestedParams, elastic_lit (by decide),
    elastic_blanks, elastic_opt (elastic_lit (by decide)), elastic_blanks, elastic_opt (elastic_lit (by decide)),
    elastic_blanks, trivial⟩

lemma elastic_constructorHead : constructorHead.Elastic := by
  have hwords : (Pattern.many isWordChar 1).Elastic := .inl fun _ => isWordChar_of_isBlank
  have hparams : (Pattern.many (· != ')') 0).Elastic := .inr ⟨rfl, fun c hc => by simp [ne_of_isBlank hc (d := ')') rfl]⟩
  have hmembers : (Pattern.many (fun c => c != '{' && c != '}') 0).Elastic :=
    .inr ⟨rfl, fun c hc => by simp [ne_of_isBlank hc (d := '{') rfl, ne_of_isBlank hc (d := '}') rfl]⟩
  exact ⟨elastic_blanks, ⟨elastic_opt elastic_qualifier, elastic_opt (elastic_lit (by decide)), hwords⟩, elastic_blanks,
    elastic_lit (by decide), hparams, elastic_lit (by decide), elastic_blanks,
    elastic_opt ⟨elastic_blanks, elastic_lit (by decide), elastic_blanks, hmembers⟩,
    elastic_opt (elastic_lit (by decide)), elastic_blanks, elastic_lit (by decide)⟩

/-! ## Names -/

lemma solid_of_takes_qualifier (h : qualifier.Takes x) : ∀ c ∈ x, isBlank c = false := by
  obtain ⟨y, z, rfl, ⟨-, hy⟩, rfl⟩ := h
  exact forall_mem_append.mpr ⟨fun c hc => isBlank_of_isWordChar (hy c hc), by decide⟩

lemma solid_of_takes_functionName (h : functionName.Takes x) (hoperator : ¬("operator" : Text) <:+: x) :
    ∀ c ∈ x, isBlank c = false := by
  rcases h with ⟨y, z, rfl, ⟨ys, rfl, hys⟩, -, hz⟩ | ⟨y, z, rfl, rfl, -⟩
  · refine forall_mem_append.mpr ⟨fun c hc => ?_, fun c hc => ?_⟩
    · obtain ⟨q, hq, hc⟩ := mem_flatten.mp hc
      exact solid_of_takes_qualifier (hys q hq) c hc
    · rcases Bool.or_eq_true_iff.mp (hz c hc) with hword | htilde
      · exact isBlank_of_isWordChar hword
      · rw [beq_iff_eq.mp htilde]
        rfl
  · exact absurd (prefix_append _ _).isInfix hoperator

lemma name_alike {p : Pattern} (hp : p.Elastic) {line line' : Text} (h : Loose line line')
    (hname : ∀ x, p.Labels "name" x → x <:+: line ∨ x <:+: line' → ∀ c ∈ x, isBlank c = false) :
    (p.match? line).map (·.part "name") = (p.match? line').map (·.part "name") := by
  have hself : ∀ {t : Text} {m : Match}, p.match? t = some m → t = line ∨ t = line' → solids (m.part "name") = m.part "name" := by
    intro t m hm ht
    rcases labels_part hm "name" with hnil | ⟨hlabel, hpart⟩
    · rw [hnil]
      rfl
    · refine solids_eq_self (hname _ hlabel ?_)
      rcases ht with rfl | rfl
      · exact .inl hpart
      · exact .inr hpart
  have hmatch := match_alike hp h "name"
  generalize hm : p.match? line = x at hmatch ⊢
  generalize hm' : p.match? line' = x' at hmatch ⊢
  cases hmatch with
  | none => rfl
  | some hsolids =>
    rw [hself hm (.inl rfl), hself hm' (.inr rfl)] at hsolids
    exact congrArg some hsolids

lemma functionHead_name (h : Loose line line') (hoperator : ¬("operator" : Text) <:+: line') :
    (functionHead? line).map Head.name = (functionHead? line').map Head.name := by
  have hname := name_alike elastic_functionHead h fun x hx hin => ?_
  · rw [functionHead?, functionHead?, Option.map_map, Option.map_map]
    exact hname
  have htakes : functionName.Takes x := by
    simpa [functionHead, functionName, nestedParams, qualifier, Pattern.all, Labels, opt, blanks] using hx
  refine solid_of_takes_functionName htakes fun hoccurs => hoperator ?_
  rcases hin with hin | hin
  · exact h.infix_solid (by decide) (by decide) (hoccurs.trans hin)
  · exact hoccurs.trans hin

lemma constructorHead_name (h : Loose line line') : (constructorHead? line).map Head.name = (constructorHead? line').map Head.name := by
  have hname := name_alike elastic_constructorHead h fun x hx _ => ?_
  · rw [constructorHead?, constructorHead?, Option.map_map, Option.map_map]
    exact hname
  have htakes : (Pattern.all [.opt qualifier, .opt (.lit "~"), .many isWordChar 1]).Takes x := by
    simpa [constructorHead, qualifier, Pattern.all, Labels, opt, blanks] using hx
  obtain ⟨y, z, rfl, hy, u, w, rfl, hu, -, hw⟩ := htakes
  refine forall_mem_append.mpr ⟨?_, forall_mem_append.mpr ⟨?_, fun c hc => isBlank_of_isWordChar (hw c hc)⟩⟩
  · rcases hy with hy | rfl
    · exact solid_of_takes_qualifier hy
    · exact forall_mem_nil _
  · rcases hu with rfl | rfl <;> decide

/-! ## Lines -/

lemma isControl_loose (h : Loose line line') : isControl line = isControl line' := by
  have hwords : (Pattern.firstOf (controlWords.map .lit)).Elastic := by
    simp only [controlWords, List.map, firstOf]
    refine ⟨?_, ?_, ?_, ?_, ?_, ?_⟩ <;> exact elastic_lit (by decide)
  have hword : ∀ x, (Pattern.firstOf (controlWords.map .lit)).Takes x → x.getLast?.any isWordChar := by
    intro x hx
    simp only [controlWords, List.map, firstOf, Takes] at hx
    rcases hx with rfl | rfl | rfl | rfl | rfl | rfl <;> decide
  have hbefore : ∀ {s e : Pattern.Place}, (Pattern.firstOf (controlWords.map .lit)).Goes s e → e.before.any isWordChar := by
    intro s e hgoes
    obtain ⟨x, hx, hafter⟩ := hgoes.taken
    obtain ⟨c, hlast, hc⟩ := (Option.any_eq_true _ _).mp (hword x hx)
    rw [hafter.before, hlast]
    exact hc
  have hrun : Option.Rel (fun _ _ => True) ((Pattern.all [.blanks, .firstOf (controlWords.map .lit), .edge]).run some ⟨none, 0, line, []⟩)
      ((Pattern.all [.blanks, .firstOf (controlWords.map .lit), .edge]).run some ⟨none, 0, line', []⟩) := by
    refine run_alike .blanks elastic_blanks ⟨h, .nil⟩ fun m m' _ _ hm => ?_
    refine run_alike (.firstOf _) hwords hm fun e e' he he' halike => ?_
    have hedge : e.atEdge = e'.atEdge := by
      rw [Pattern.Place.atEdge, Pattern.Place.atEdge, hbefore he, hbefore he', halike.rest.any_head fun _ => isWordChar_of_isBlank]
    change Option.Rel _ (Pattern.edge.run some e) (Pattern.edge.run some e')
    simp only [run, hedge]
    split
    · exact .some trivial
    · exact .none
  simp only [isControl, matchesAt, match?, matchAt?, Option.isSome_map]
  generalize (Pattern.all _).run some ⟨none, 0, line, []⟩ = x at hrun
  generalize (Pattern.all _).run some ⟨none, 0, line', []⟩ = x' at hrun
  cases hrun <;> rfl

lemma readHead_loose (h : Loose line line') (hoperator : ¬("operator" : Text) <:+: line')
    (hbody : bodyFollows below → bodyFollows below') {o : Option Head}
    (hread : readHead line below = .ok o) : ∃ o', readHead line' below' = .ok o' ∧ o'.map Head.name = o.map Head.name := by
  have hconstructor := constructorHead_name h
  have hfunction := functionHead_name h hoperator
  unfold readHead at hread ⊢
  cases hc : constructorHead? line with
  | some k =>
    rw [hc] at hread hconstructor
    obtain ⟨k', hk', hname⟩ := Option.map_eq_some_iff.mp hconstructor.symm
    cases hread
    exact ⟨some k', by rw [hk'], congrArg some hname⟩
  | none =>
    rw [hc] at hread hconstructor
    rw [Option.map_eq_none_iff.mp hconstructor.symm]
    cases hf : functionHead? line with
    | none =>
      rw [hf] at hread hfunction
      cases hread
      exact ⟨none, by rw [Option.map_eq_none_iff.mp hfunction.symm], rfl⟩
    | some k =>
      rw [hf] at hread hfunction
      obtain ⟨k', hk', hname⟩ := Option.map_eq_some_iff.mp hfunction.symm
      rw [hk']
      dsimp only at hread ⊢
      split at hread
      next hopen =>
        cases hread
        refine ⟨some k', if_pos ?_, congrArg some hname⟩
        rw [Bool.or_eq_true] at hopen ⊢
        rw [← h.trim.endsWith_eq rfl]
        exact hopen.imp_right hbody
      · cases hread

lemma beforeSlashes_of_not_mem (h : '/' ∉ t) : beforeSlashes t = t := by
  induction t with
  | nil => rfl
  | cons c r ih =>
    obtain ⟨hc, hr⟩ := ne_and_not_mem_of_not_mem_cons h
    rw [beforeSlashes, ih hr]
    intro r' hc' _
    exact hc hc'.symm

lemma headText_of_not_mem (h : '/' ∉ t) : headText t = trimRight t := by
  rw [headText, dropInline_of_not_mem h, beforeSlashes_of_not_mem h]

/-- A line without a slash, on which no template begins and no operator is named. -/
@[mk_iff]
structure Ordinary (t : Text) : Prop where
  slash : '/' ∉ t
  template : startsWith (mask t).text "template" = false
  operator : contains (mask t).text "operator" = false

instance (t : Text) : Decidable (Ordinary t) := decidable_of_iff _ (ordinary_iff ..).symm

lemma Ordinary.of_loose (h' : Ordinary t') (h : Loose t t') : Ordinary t := by
  have hmask := mask_loose h
  refine ⟨mt (h.mem_iff rfl).mp h'.slash, ?_, ?_⟩
  · rw [startsWith_eq_false_iff]
    rintro ⟨r, hr⟩
    rw [← hr] at hmask
    obtain ⟨r', hr', -⟩ := hmask.append_solid (by decide)
    exact startsWith_eq_false_iff.mp h'.template ⟨r', hr'.symm⟩
  · rw [contains_eq_false_iff]
    exact mt (hmask.infix_solid (by decide) (by decide)) (contains_eq_false_iff.mp h'.operator)

lemma Ordinary.readTemplate (h : Ordinary t) : (readTemplate (mask t) none).2 = (mask t).text := by
  rw [Source.readTemplate, h.template]
  rfl

lemma Ordinary.headText (h : Ordinary t) : headText (mask t).text = trimRight (mask t).text :=
  headText_of_not_mem fun hmem => h.slash (mem_mask (by decide) hmem)

lemma headOn_loose {j j' : Joined} (h : Loose j.text j'.text) (h' : Ordinary j'.text)
    (hbody : bodyFollows below → bodyFollows below') {o : Option (Text × Text)} (hhead : headOn j below = .ok o) :
    ∃ o', headOn j' below' = .ok o' ∧ o'.map Prod.fst = o.map Prod.fst := by
  have hj := h'.of_loose h
  have hmask := mask_loose h
  unfold headOn at hhead ⊢
  dsimp only at hhead ⊢
  rw [hj.readTemplate, hj.headText, isControl_loose hmask] at hhead
  rw [h'.readTemplate, h'.headText]
  split at hhead
  next hcontrol =>
    cases hhead
    exact ⟨none, by rw [if_pos hcontrol], rfl⟩
  next hcontrol =>
    rw [if_neg hcontrol]
    cases hread : readHead (trimRight (mask j.text).text) below with
    | error e =>
      rw [hread] at hhead
      cases hhead
    | ok found =>
      rw [hread] at hhead
      cases hhead
      have hoperator : ¬("operator" : Text) <:+: trimRight (mask j'.text).text :=
        mt (·.trans ( trimRight_prefix _).isInfix) (contains_eq_false_iff.mp h'.operator)
      obtain ⟨found', hfound', hname⟩ := readHead_loose hmask.trimRight hoperator hbody hread
      rw [hfound']
      refine ⟨_, rfl, ?_⟩
      rw [Option.map_map, Option.map_map]
      exact hname

end FunctionDocs.Source
