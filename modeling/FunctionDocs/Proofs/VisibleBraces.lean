import FunctionDocs.Source.Literal
import FunctionDocs.Proofs.Tokens

/-!
# The braces that are seen

To see the braces of a line, its string literals are emptied, then its character literals, and then its comments are dropped. The
scan from left to right, which finds the tokens of the line one after the other, may see other braces: a double quote in a comment or
in a character literal can open a string that goes on behind it, a character literal can be longer than one character, and on a line
that begins in a comment no literal is emptied. A token is clear if nothing of this happens at it. Up to the first token that is not
clear both see the same braces, so a line is read right exactly if its rest from that token on is.
-/

open List

namespace FunctionDocs.Source

open Text Code

variable {emptied : Bool} {c : Char} {m : Mode} {body rest t : Text} {tok : Token} {n : Nat} {l : Text} {ls : List Text}

/-! ## Emptied literals -/

section Literals

variable {t : Text} {a b x : Char} {body rest : Text}

variable (quote : Char) (size : Text → Option Nat)

/-- How many characters of the rest belong to a literal that is found in the text before it, after `skip` more characters. -/
def overhang (rest : Text) : Nat → Text → Nat
  | skip, [] => skip
  | skip + 1, _ :: t => overhang rest skip t
  | 0, c :: t =>
    if c == quote then
      match size (t ++ rest) with
      | some n => overhang rest n t
      | none => overhang rest 0 t
    else overhang rest 0 t

attribute [local simp] emptyLiteralsAfter overhang

lemma infix_of_ne (hne : a ≠ x) (h : [a, b] <:+: x :: t) : [a, b] <:+: t := by
  rcases infix_cons_iff.mp h with hstart | hin
  · exact absurd (cons_prefix_cons.mp hstart).1 hne
  · exact hin

lemma pair_cons {u : Text} (hhead : t.head? = u.head?) (hin : [a, b] <:+: t → [a, b] <:+: u)
    (h : [a, b] <:+: x :: t) : [a, b] <:+: x :: u := by
  rcases infix_cons_iff.mp h with hstart | hlater
  · rw [cons_prefix_cons] at hstart
    obtain ⟨rfl, hb⟩ := hstart
    obtain ⟨t, rfl⟩ : ∃ r, t = b :: r := ⟨_, hb.choose_spec.symm⟩
    obtain ⟨u, rfl⟩ := head?_eq_some_iff.mp hhead.symm
    exact ⟨[], u, rfl⟩
  · exact infix_cons (hin hlater)

lemma emptyLiteralsAfter_append (rest : Text) (skip : Nat) (t : Text) :
    ∃ part, emptyLiteralsAfter quote size skip (t ++ rest) =
        part ++ emptyLiteralsAfter quote size (overhang quote size rest skip t) rest ∧
      (skip = 0 → ∀ w, (part ++ w).head? = (t ++ w).head?) ∧
      ∀ a b w, a ≠ quote → [a, b] <:+: part ++ w → [a, b] <:+: t ++ w := by
  induction t generalizing skip with
  | nil => exact ⟨[], by cases skip <;> rfl, fun _ _ => rfl, fun _ _ _ _ h => h⟩
  | cons c t ih =>
    cases skip with
    | succ skip =>
      obtain ⟨part, heq, -, hpairs⟩ := ih skip
      exact ⟨part, heq, by simp, fun a b w ha h => infix_cons (hpairs a b w ha h)⟩
    | zero =>
      obtain ⟨part₀, heq₀, hhead, hpairs₀⟩ := ih 0
      have hkept : ∀ a b w, a ≠ quote → [a, b] <:+: (c :: part₀) ++ w → [a, b] <:+: (c :: t) ++ w :=
        fun a b w ha => pair_cons (hhead rfl w) (hpairs₀ a b w ha)
      by_cases hquote : c = quote
      · subst hquote
        cases hsize : size (t ++ rest) with
        | some n =>
          obtain ⟨part, heq, -, hpairs⟩ := ih n
          refine ⟨c :: c :: part, ?_, fun _ _ => rfl, fun a b w ha h => ?_⟩
          · simp [hsize, heq]
          · -- the pair begins with neither of the two quotes that are left of the literal
            exact infix_cons (hpairs a b w ha (infix_of_ne ha (infix_of_ne ha h)))
        | none => exact ⟨c :: part₀, by simp [hsize, heq₀], fun _ _ => rfl, hkept⟩
      · exact ⟨c :: part₀, by simp [hquote, heq₀], fun _ _ => rfl, hkept⟩

lemma emptyLiteralsAfter_nil (skip : Nat) : emptyLiteralsAfter quote size skip [] = [] := by
  cases skip <;> rfl

lemma emptyLiteralsAfter_zero (t : Text) :
    (emptyLiteralsAfter quote size 0 t).head? = t.head? ∧
      ∀ a b, a ≠ quote → [a, b] <:+: emptyLiteralsAfter quote size 0 t → [a, b] <:+: t := by
  obtain ⟨part, heq, hhead, hpairs⟩ := emptyLiteralsAfter_append quote size [] 0 t
  rw [append_nil, emptyLiteralsAfter_nil] at heq
  rw [heq]
  refine ⟨by simpa using hhead rfl [], fun a b ha h => ?_⟩
  simpa using hpairs a b [] ha (by simpa using h)

lemma emptyLiteralsAfter_skip (t rest : Text) :
    emptyLiteralsAfter quote size t.length (t ++ rest) = emptyLiteralsAfter quote size 0 rest := by
  induction t with
  | nil => rfl
  | cons c t ih => exact ih

variable {quote size}

lemma emptyLiteralsAfter_comment (hquote : quote ≠ '*' ∧ quote ≠ '/') (hbody : ¬"*/" <:+: body ++ ['*'])
    (hends : overhang quote size ('*' :: '/' :: rest) 0 body = 0) :
    ∃ part, emptyLiteralsAfter quote size 0 (body ++ '*' :: '/' :: rest) =
        part ++ '*' :: '/' :: emptyLiteralsAfter quote size 0 rest ∧ ¬"*/" <:+: part ++ ['*'] := by
  obtain ⟨part, heq, -, hpairs⟩ := emptyLiteralsAfter_append quote size ('*' :: '/' :: rest) 0 body
  refine ⟨part, ?_, fun h => hbody (hpairs '*' '/' ['*'] (symm hquote.1) h)⟩
  rw [heq, hends]
  simp [symm hquote.1, symm hquote.2]

lemma emptyLiteralsAfter_literal (h : size (body ++ quote :: rest) = some (body.length + 1)) :
    emptyLiteralsAfter quote size 0 (quote :: (body ++ quote :: rest)) = quote :: quote :: emptyLiteralsAfter quote size 0 rest := by
  have hskip := emptyLiteralsAfter_skip quote size (body ++ [quote]) rest
  rw [append_assoc, length_append] at hskip
  simp only [emptyLiteralsAfter, beq_self_eq_true, h]
  exact congrArg _ (congrArg _ hskip)

lemma emptyLiteralsAfter_of_none (h : ∀ p s, t = p ++ quote :: s → size (s ++ rest) = none) :
    emptyLiteralsAfter quote size 0 (t ++ rest) = t ++ emptyLiteralsAfter quote size 0 rest := by
  induction t with
  | nil => rfl
  | cons c t ih =>
    have hrest := ih fun p s heq => h (c :: p) s (by rw [heq]; rfl)
    by_cases hquote : c = quote
    · subst hquote
      simp [h [] t rfl, hrest]
    · simp [hquote, hrest]

end Literals

section Lengths

attribute [local simp] charLength stringLength

lemma stringLength_within (h : Within '"' body) (rest : Text) : stringLength (body ++ '"' :: rest) = some (body.length + 1) := by
  induction h with
  | nil => rfl
  | plain hquote hback hline _ ih => simp [hquote, hback, ih]
  | escaped hline _ ih => simp [hline, ih]

/-- A character literal that stands for one character. -/
def Single (body : Text) : Prop := body.length = 1 ∨ ∃ c, body = ['\\', c]

lemma charLength_within (h : Within '\'' body) (hsingle : Single body) (rest : Text) :
    charLength (body ++ '\'' :: rest) = some (body.length + 1) := by
  rcases hsingle with hlen | ⟨c, rfl⟩
  · obtain ⟨c, rfl⟩ := length_eq_one_iff.mp hlen
    cases h with
    | plain hquote hback => simp [hquote, hback]
  · cases h with
    | plain _ hback => exact absurd rfl hback
    | escaped hline => simp [hline]

lemma charLength_eq_some (h : charLength t = some n) :
    (∃ c r, t = c :: '\'' :: r ∧ c ≠ '\'' ∧ n = 2) ∨ ∃ c r, t = '\\' :: c :: '\'' :: r ∧ n = 3 := by
  fun_cases charLength t with
  | case1 c r hc => simp [hc] at h
  | case2 c r hc => exact .inr ⟨c, r, rfl, by simpa [hc] using h.symm⟩
  | case3 c r hescaped hc => simp [hc] at h
  | case4 c r hescaped hc =>
    simp only [Bool.or_eq_true, beq_iff_eq, not_or] at hc
    exact .inl ⟨c, r, rfl, hc.1, by simpa [hc] using h.symm⟩
  | case5 => simp at h

end Lengths

lemma charLength_of_not_single (hquote : '\'' ∉ body) (hsingle : ¬Single body) (rest : Text) :
    charLength (body ++ '\'' :: rest) = none := by
  rw [Option.eq_none_iff_forall_ne_some]
  intro n h
  match body, charLength_eq_some h with
  | [], .inl ⟨c, r, heq, hc, _⟩ => exact hc (cons.inj heq).1.symm
  | [], .inr ⟨c, r, heq, _⟩ => exact absurd (cons.inj heq).1 (by decide)
  | [_], _ => exact hsingle (.inl rfl)
  | _ :: d :: _, .inl ⟨c, r, heq, _, _⟩ => simp_all
  | [_, d], .inr ⟨c, r, heq, _⟩ => exact hsingle (.inr ⟨d, by simp_all⟩)
  | _ :: _ :: _ :: _, .inr ⟨c, r, heq, _⟩ => simp_all

lemma charLength_le (h : charLength (t ++ '*' :: '/' :: rest) = some n) : n ≤ t.length := by
  match t, charLength_eq_some h with
  | [], .inl ⟨c, r, heq, _, _⟩ => simp at heq
  | [], .inr ⟨c, r, heq, _⟩ => simp at heq
  | [_], .inl ⟨c, r, heq, _, _⟩ => simp at heq
  | [_], .inr ⟨c, r, heq, _⟩ => simp at heq
  | [_, _], .inl ⟨c, r, heq, _, hn⟩ => exact hn.le
  | [_, _], .inr ⟨c, r, heq, _⟩ => simp at heq
  | _ :: _ :: _ :: _, .inl ⟨_, _, _, _, hn⟩ => simp; omega
  | _ :: _ :: _ :: _, .inr ⟨_, _, _, hn⟩ => simp; omega

lemma overhang_charLength (rest : Text) {skip : Nat} {t : Text} (h : skip ≤ t.length) :
    overhang '\'' charLength ('*' :: '/' :: rest) skip t = 0 := by
  induction t generalizing skip with
  | nil => exact Nat.le_zero.mp h
  | cons c t ih =>
    cases skip with
    | succ skip => exact ih (Nat.le_of_succ_le_succ h)
    | zero =>
      rw [overhang]
      split
      · cases hsize : charLength (t ++ '*' :: '/' :: rest) with
        | some n => exact ih (charLength_le hsize)
        | none => exact ih (Nat.zero_le _)
      · exact ih (Nat.zero_le _)

/-! ## Dropped comments -/

attribute [local simp] dropComments

/-- A text in which nothing is seen: it has no brace and opens no comment. -/
structure Dull (t : Text) : Prop where
  braces : braces t = []
  line : ¬"//".toList <:+: t
  block : ¬"/*".toList <:+: t

lemma Dull.nil : Dull [] := ⟨rfl, by decide, by decide⟩

lemma Dull.tail (h : Dull (c :: t)) : Dull t where
  braces := (append_eq_nil_iff.mp ((braces_append [c] t).symm.trans h.braces)).2
  line hin := h.line (infix_cons hin)
  block hin := h.block (infix_cons hin)

lemma dropComments_code (h : c = '/' → t.head? ≠ some '/' ∧ t.head? ≠ some '*') :
    dropComments false (c :: t) = (c :: (dropComments false t).1, (dropComments false t).2) := by
  rw [dropComments]
  · rintro r rfl rfl
    exact (h rfl).2 rfl
  · rintro r rfl rfl
    exact (h rfl).1 rfl

lemma dropComments_dull (hdull : Dull t) (h : rest.head? ≠ some '/' ∧ rest.head? ≠ some '*') :
    dropComments false (t ++ rest) = (t ++ (dropComments false rest).1, (dropComments false rest).2) := by
  induction t with
  | nil => rfl
  | cons c t ih =>
    have hslash : c = '/' → (t ++ rest).head? ≠ some '/' ∧ (t ++ rest).head? ≠ some '*' := by
      rintro rfl
      cases t with
      | nil => exact h
      | cons d t =>
        simp only [cons_append, head?_cons, ne_eq, Option.some.injEq]
        constructor
        · rintro rfl
          exact hdull.line ⟨[], t, rfl⟩
        · rintro rfl
          exact hdull.block ⟨[], t, rfl⟩
    rw [cons_append, dropComments_code hslash, ih hdull.tail]
    rfl

lemma dropComments_inside (h : ¬"*/" <:+: c :: t) : dropComments true (c :: t) = dropComments true t := by
  rw [dropComments]
  rintro r rfl rfl
  exact h ⟨[], r, rfl⟩

lemma dropComments_closed (h : ¬"*/" <:+: body ++ ['*']) (rest : Text) :
    dropComments true (body ++ '*' :: '/' :: rest) = dropComments false rest := by
  induction body with
  | nil => rfl
  | cons c body ih =>
    have hrest := ih fun hin => h (infix_cons hin)
    rw [← hrest, cons_append, dropComments]
    -- a star and a slash at this place would be in the comment already
    rintro r rfl hr
    cases body with
    | nil => cases hr
    | cons d body =>
      obtain ⟨rfl, -⟩ := cons.inj hr
      exact h ⟨[], body ++ ['*'], rfl⟩

lemma dropComments_unclosed (h : ¬"*/" <:+: t) : dropComments true t = ([], true) := by
  induction t with
  | nil => rfl
  | cons c t ih => rw [dropComments_inside h, ih fun hin => h (infix_cons hin)]

/-! ## Clear tokens -/

/-- The code of a text that begins outside of comments, and whether a comment is open behind it. -/
def reading (emptied : Bool) (t : Text) : Text × Bool := dropComments false (if emptied then emptyLiterals t else t)

/-- The token stands before the rest of a line for one who knows comments only. -/
def Bare : Token → Text → Prop
  | .code c, rest => c = '/' → rest.head? ≠ some '/' ∧ rest.head? ≠ some '*'
  | .literal quote body, _ => (quote = '"' ∨ quote = '\'') ∧ Dull body
  | .comment body, _ => ¬"*/".toList <:+: body ++ ['*']
  | .lineComment _, rest => rest = []
  | .openComment text, rest => ¬"*/".toList <:+: text ∧ rest = []

/-- Whether a comment is open behind the token and the rest of its line, if `inBlock` tells so for the rest. -/
def carry : Token → Bool → Bool
  | .openComment _, _ => true
  | _, inBlock => inBlock

lemma dropComments_bare (h : Bare tok rest) :
    braces (dropComments false (tok.text ++ rest)).1 = tok.braces ++ braces (dropComments false rest).1 ∧
      (dropComments false (tok.text ++ rest)).2 = carry tok (dropComments false rest).2 := by
  cases tok with
  | code c =>
    rw [Token.text, singleton_append, dropComments_code h]
    exact ⟨braces_append [c] _, rfl⟩
  | literal quote body =>
    obtain ⟨hquote, hdull⟩ := h
    have hquoted : quote ≠ '/' ∧ quote ≠ '*' ∧ braces [quote] = [] := by rcases hquote with rfl | rfl <;> decide
    have hcode : ∀ t, dropComments false (quote :: t) = (quote :: (dropComments false t).1, (dropComments false t).2) :=
      fun t => dropComments_code fun hslash => absurd hslash hquoted.1
    have hhead : (quote :: rest).head? ≠ some '/' ∧ (quote :: rest).head? ≠ some '*' := by simpa using ⟨hquoted.1, hquoted.2.1⟩
    have htext : (Token.literal quote body).text ++ rest = quote :: (body ++ quote :: rest) := by simp [Token.text]
    rw [htext, hcode, dropComments_dull hdull hhead, hcode]
    refine ⟨?_, rfl⟩
    change braces ([quote] ++ (body ++ ([quote] ++ (dropComments false rest).1))) = _
    rw [braces_append, braces_append, braces_append, hquoted.2.2, hdull.braces]
    rfl
  | comment body =>
    have htext : (Token.comment body).text ++ rest = '/' :: '*' :: (body ++ '*' :: '/' :: rest) := by simp [Token.text]
    have hdropped : dropComments false ('/' :: '*' :: (body ++ '*' :: '/' :: rest)) = dropComments false rest := by
      simp [dropComments_closed h]
    rw [htext, hdropped]
    exact ⟨rfl, rfl⟩
  | lineComment text =>
    obtain rfl := h
    exact ⟨rfl, rfl⟩
  | openComment text =>
    obtain ⟨hopen, rfl⟩ := h
    have hdropped : dropComments false ('/' :: '*' :: text) = ([], true) := by simp [dropComments_unclosed hopen]
    rw [Token.text, append_nil, hdropped]
    exact ⟨rfl, rfl⟩

/-- The token is taken for what it is. Where literals are emptied, no string is opened by a quote in a character literal or goes on
behind a comment that it begins in; and a character literal that does not stand for one character, which is not emptied, is dull, with
no quote that could stand for the beginning of another one. Where literals are not emptied, they are dull. -/
def Clear : Bool → Token → Text → Prop
  | true, .literal quote body, rest =>
    quote = '\'' → (∀ p s, body = p ++ '"' :: s → stringLength (s ++ '\'' :: rest) = none) ∧
      (Single body ∨ Dull body ∧ '\'' ∉ body ∧ charLength (emptyLiteralsAfter '"' stringLength 0 rest) = none)
  | true, .comment body, rest => overhang '"' stringLength ('*' :: '/' :: rest) 0 body = 0
  | false, .literal _ body, _ => Dull body
  | _, _, _ => True

lemma emptyLiterals_cons (hc : c ≠ '"' ∧ c ≠ '\'') (t : Text) : emptyLiterals (c :: t) = c :: emptyLiterals t := by
  simp [emptyLiterals, emptyLiteralsAfter, hc.1, hc.2]

lemma head?_emptyLiterals (t : Text) : (emptyLiterals t).head? = t.head? :=
  (emptyLiteralsAfter_zero _ _ _).1.trans (emptyLiteralsAfter_zero _ _ _).1

lemma pair_of_emptyLiterals {a b : Char} (ha : a ≠ '"' ∧ a ≠ '\'') {t : Text} (h : [a, b] <:+: emptyLiterals t) : [a, b] <:+: t :=
  (emptyLiteralsAfter_zero _ _ t).2 a b ha.1 ((emptyLiteralsAfter_zero _ _ _).2 a b ha.2 h)

lemma emptyLiterals_comment (hbody : ¬"*/" <:+: body ++ ['*'])
    (hends : overhang '"' stringLength ('*' :: '/' :: rest) 0 body = 0) :
    ∃ part, emptyLiterals (body ++ '*' :: '/' :: rest) = part ++ '*' :: '/' :: emptyLiterals rest ∧ ¬"*/" <:+: part ++ ['*'] := by
  obtain ⟨part, heq, hpart⟩ := emptyLiteralsAfter_comment (by decide) hbody hends
  rw [emptyLiterals, heq]
  exact emptyLiteralsAfter_comment (by decide) hpart (overhang_charLength _ (Nat.zero_le _))

lemma emptyLiterals_literal {quote : Char} (hbefore : (Token.literal quote body).Before rest)
    (hclear : Clear true (.literal quote body) rest) :
    ∃ body', emptyLiterals (quote :: (body ++ quote :: rest)) = quote :: (body' ++ quote :: emptyLiterals rest) ∧ Dull body' := by
  obtain ⟨rfl | rfl, hwithin⟩ := hbefore
  · have hstrings := emptyLiteralsAfter_literal (stringLength_within hwithin rest)
    refine ⟨[], ?_, .nil⟩
    rw [emptyLiterals, hstrings]
    simp [emptyLiteralsAfter, emptyLiterals]
  · obtain ⟨hstring, hkind⟩ := hclear rfl
    have hstrings : emptyLiteralsAfter '"' stringLength 0 ('\'' :: (body ++ '\'' :: rest)) =
        '\'' :: (body ++ '\'' :: emptyLiteralsAfter '"' stringLength 0 rest) := by
      simp [emptyLiteralsAfter, emptyLiteralsAfter_of_none hstring]
    rw [emptyLiterals, hstrings]
    by_cases hsingle : Single body
    · exact ⟨[], emptyLiteralsAfter_literal (charLength_within hwithin hsingle _), .nil⟩
    · -- the literal stays, since neither of its quotes is read as the beginning of one
      obtain ⟨hdull, hquote, hrest⟩ := hkind.resolve_left hsingle
      have hinner : ∀ t, emptyLiteralsAfter '\'' charLength 0 (body ++ t) = body ++ emptyLiteralsAfter '\'' charLength 0 t :=
        fun t => emptyLiteralsAfter_of_none fun p s heq => absurd (mem_iff_append.mpr ⟨p, s, heq⟩) hquote
      refine ⟨body, ?_, hdull⟩
      simp [emptyLiteralsAfter, charLength_of_not_single hquote hsingle, hinner, hrest, emptyLiterals]

lemma exists_emptied (hbefore : tok.Before rest) (hclear : Clear true tok rest) :
    ∃ tok' : Token, emptyLiterals (tok.text ++ rest) = tok'.text ++ emptyLiterals rest ∧ Bare tok' (emptyLiterals rest) ∧
      tok'.braces = tok.braces ∧ carry tok' = carry tok := by
  cases tok with
  | code c =>
    obtain ⟨hdouble, hsingle, hslash⟩ := hbefore
    refine ⟨.code c, emptyLiterals_cons ⟨hdouble, hsingle⟩ rest, ?_, rfl, rfl⟩
    rwa [Bare, head?_emptyLiterals]
  | literal quote body =>
    obtain ⟨body', heq, hdull⟩ := emptyLiterals_literal hbefore hclear
    exact ⟨.literal quote body', by simpa [Token.text] using heq, ⟨hbefore.1, hdull⟩, rfl, rfl⟩
  | comment body =>
    obtain ⟨part, heq, hpart⟩ := emptyLiterals_comment hbefore hclear
    refine ⟨.comment part, ?_, hpart, rfl, rfl⟩
    simp [Token.text, emptyLiterals_cons, heq]
  | lineComment text =>
    obtain ⟨-, rfl⟩ := hbefore
    refine ⟨.lineComment (emptyLiterals text), ?_, rfl, rfl, rfl⟩
    simp [Token.text, emptyLiterals_cons, show emptyLiterals [] = [] from rfl]
  | openComment text =>
    obtain ⟨hopen, rfl⟩ := hbefore
    refine ⟨.openComment (emptyLiterals text), ?_, ⟨?_, rfl⟩, rfl, rfl⟩
    · simp [Token.text, emptyLiterals_cons, show emptyLiterals [] = [] from rfl]
    · exact fun hin => hopen (pair_of_emptyLiterals (by decide) hin)

lemma bare_of_clear (hbefore : tok.Before rest) (hclear : Clear false tok rest) : Bare tok rest := by
  cases tok with
  | code c => exact hbefore.2.2
  | literal quote body => exact ⟨hbefore.1, hclear⟩
  | comment body => exact hbefore
  | lineComment text => exact hbefore.2
  | openComment text => exact hbefore

lemma reading_token (hbefore : tok.Before rest) (hclear : Clear emptied tok rest) :
    braces (reading emptied (tok.text ++ rest)).1 = tok.braces ++ braces (reading emptied rest).1 ∧
      (reading emptied (tok.text ++ rest)).2 = carry tok (reading emptied rest).2 := by
  cases emptied with
  | true =>
    obtain ⟨tok', heq, hbare, hbraces, hcarry⟩ := exists_emptied hbefore hclear
    simp only [reading, heq, ← hbraces, ← hcarry]
    exact dropComments_bare hbare
  | false => exact dropComments_bare (bare_of_clear hbefore hclear)

/-! ## Lines -/

/-- The braces of a text that begins outside of comments are seen. -/
def Seen (emptied : Bool) (t : Text) : Prop := braces (reading emptied t).1 = bracesIn .plain t

lemma seen_of_readTo (h : ReadTo (Clear emptied) rest t) : (Seen emptied t ↔ Seen emptied rest) ∧
      ((reading emptied rest).2 = decide ((scan .plain rest).2.nextLine = .block) →
        (reading emptied t).2 = decide ((scan .plain t).2.nextLine = .block)) := by
  induction h with
  | here => exact ⟨.rfl, id⟩
  | @token tok t hbefore hclear _ ih =>
    obtain ⟨hbraces, hopen⟩ := reading_token hbefore hclear
    obtain ⟨hscan, hnext, -⟩ := hbefore.scan_text
    constructor
    · rw [← ih.1, Seen, hbraces, hscan, append_cancel_left_eq]
      rfl
    · intro hrest
      rw [hopen, hnext, ih.2 hrest]
      cases tok <;> rfl

/-- The code of a line, and whether a comment is open at its end. -/
def lineReading (inBlock : Bool) (l : Text) : Text × Bool := dropComments inBlock (if inBlock then l else emptyLiterals l)

lemma codeLinesFrom_cons (inBlock : Bool) (l : Text) (ls : List Text) :
    codeLinesFrom inBlock (l :: ls) = (lineReading inBlock l).1 :: codeLinesFrom (lineReading inBlock l).2 ls := rfl

/-- Where the code of a line begins, if it does, and whether literals are emptied there. -/
def codeFrom : Mode → Text → Option (Bool × Text)
  | .block, l => (cutFirst "*/" l).map fun cut => (false, cut.2)
  | _, l => some (true, l)

lemma line_of_codeFrom (hm : m.AtLine) {t : Text} {emptied : Bool} (h : codeFrom m l = some (emptied, t)) :
    lineReading (decide (m = .block)) l = reading emptied t ∧ bracesIn m l = bracesIn .plain t ∧ (scan m l).2 = (scan .plain t).2 ∧
      t <:+ l := by
  rcases hm with rfl | rfl
  · simp only [codeFrom] at h
    obtain ⟨rfl, rfl⟩ := h
    exact ⟨rfl, rfl, rfl, suffix_refl _⟩
  · obtain ⟨cut, hcut, heq⟩ := Option.map_eq_some_iff.mp h
    obtain ⟨rfl, rfl⟩ := Prod.mk.inj heq
    have hbody : ¬"*/".toList <:+: cut.1 ++ ['*'] := not_infix_before_cut (by decide) hcut
    have hsilent : scan .block (cut.1 ++ "*/".toList) = ([], .plain) := by
      rw [← scan_blockOpen, ← append_assoc, scan_comment hbody]
    have hl : l = (cut.1 ++ "*/") ++ cut.2 := cutFirst_eq_some hcut
    refine ⟨?_, ?_, ?_, ⟨_, hl.symm⟩⟩
    · rw [hl, append_assoc]
      exact dropComments_closed hbody cut.2
    · rw [hl, bracesIn_append, hsilent, bracesIn_of_silent (congrArg Prod.fst hsilent)]
      rfl
    · rw [hl, scan_append, hsilent]

lemma line_of_codeFrom_none (h : codeFrom m l = none) :
    lineReading (decide (m = .block)) l = ([], true) ∧ bracesIn m l = [] ∧ (scan m l).2.nextLine = .block := by
  obtain rfl : m = .block := by
    cases m with
    | block => rfl
    | _ => cases h
  have hopen : ¬"*/" <:+: l := not_infix_of_cutFirst (Option.map_eq_none_iff.mp h)
  obtain ⟨hsilent, hnext, -⟩ := scan_block hopen
  exact ⟨dropComments_unclosed hopen, bracesIn_of_silent hsilent, hnext⟩

/-- The braces of a line are seen: its rest from the first token on that is not clear shows its own. If comments are already lost track of
before the line, it shows the right braces by chance only. -/
def LineSeen (inBlock : Bool) (m : Mode) (l : Text) : Prop :=
  if inBlock = decide (m = .block) then
    ∀ emptied t, codeFrom m l = some (emptied, t) → ∀ (tok : Token) (rest : Text), tok.Before rest → ¬Clear emptied tok rest →
      ReadTo (Clear emptied) (tok.text ++ rest) t → Seen emptied (tok.text ++ rest)
  else braces (lineReading inBlock l).1 = bracesIn m l

lemma seen_nil (emptied : Bool) : Seen emptied [] ∧ (reading emptied []).2 = decide ((scan .plain []).2.nextLine = .block) := by
  cases emptied <;> exact ⟨rfl, rfl⟩

lemma lineSeen_iff (hm : m.AtLine) (hline : '\n' ∉ l) (hclosed : (scan m l).2.inLiteral = false)
    (inBlock : Bool) : braces (lineReading inBlock l).1 = bracesIn m l ↔ LineSeen inBlock m l := by
  rw [LineSeen]
  split
  case isFalse => exact .rfl
  case isTrue hstep =>
    -- both know whether the line begins in a comment, so both start at the same character
    rw [hstep]
    cases hfrom : codeFrom m l with
    | none =>
      obtain ⟨hread, hbraces, -⟩ := line_of_codeFrom_none hfrom
      rw [hread, hbraces]
      exact iff_of_true rfl (by simp)
    | some start =>
      obtain ⟨emptied, t⟩ := start
      obtain ⟨hread, hbraces, hscan, hsuffix⟩ := line_of_codeFrom hm hfrom
      rw [hread, hbraces]
      rw [hscan] at hclosed
      constructor
      · rintro hseen _ _ ⟨⟩ tok rest - - hto
        exact (seen_of_readTo hto).1.mp hseen
      · intro h
        rcases readTo_or (fun hmem => hline (hsuffix.mem hmem)) hclosed with hall | ⟨tok, rest, hbefore, hclear, hto⟩
        · exact (seen_of_readTo hall).1.mpr (seen_nil emptied).1
        · exact (seen_of_readTo hto).1.mpr (h emptied t rfl tok rest hbefore hclear hto)

/-- Every token of the line is clear. -/
def LineClear (m : Mode) (l : Text) : Prop :=
  ∀ emptied t, codeFrom m l = some (emptied, t) → ReadTo (Clear emptied) [] t

lemma line_of_clear (hm : m.AtLine) (h : LineClear m l) :
    braces (lineReading (decide (m = .block)) l).1 = bracesIn m l ∧
      (lineReading (decide (m = .block)) l).2 = decide ((scan m l).2.nextLine = .block) := by
  cases hfrom : codeFrom m l with
  | none =>
    obtain ⟨hread, hbraces, hnext⟩ := line_of_codeFrom_none hfrom
    rw [hread, hbraces, hnext]
    exact ⟨rfl, rfl⟩
  | some start =>
    obtain ⟨emptied, t⟩ := start
    obtain ⟨hread, hbraces, hscan, -⟩ := line_of_codeFrom hm hfrom
    obtain ⟨hseen, hstep⟩ := seen_of_readTo (h emptied t hfrom)
    rw [hread, hbraces, hscan]
    exact ⟨hseen.mpr (seen_nil emptied).1, hstep (seen_nil emptied).2⟩

/-- The braces of each line outside of comments and literals, where the scan carries an open comment over to the next line. -/
def braceLines : Mode → List Text → List Text
  | _, [] => []
  | m, l :: ls => bracesIn m l :: braceLines (scan m l).2.nextLine ls

/-- Every literal of the code is closed on its line. -/
def LiteralsClosed : Mode → List Text → Prop
  | _, [] => True
  | m, l :: ls => (scan m l).2.inLiteral = false ∧ LiteralsClosed (scan m l).2.nextLine ls

instance decidableLiteralsClosed : (m : Mode) → (ls : List Text) → Decidable (LiteralsClosed m ls)
  | _, [] => .isTrue trivial
  | m, l :: ls =>
    have := decidableLiteralsClosed (scan m l).2.nextLine ls
    inferInstanceAs (Decidable ((scan m l).2.inLiteral = false ∧ LiteralsClosed (scan m l).2.nextLine ls))

/-- The braces of every line are seen. -/
def LinesSeen : Bool → Mode → List Text → Prop
  | _, _, [] => True
  | inBlock, m, l :: ls => LineSeen inBlock m l ∧ LinesSeen (lineReading inBlock l).2 (scan m l).2.nextLine ls

/-- Every token of the lines is clear. -/
def LinesClear : Mode → List Text → Prop
  | _, [] => True
  | m, l :: ls => LineClear m l ∧ LinesClear (scan m l).2.nextLine ls

lemma codeLinesFrom_seen_iff (hm : m.AtLine) (hlines : ∀ l ∈ ls, '\n' ∉ l) (hclosed : LiteralsClosed m ls)
    (inBlock : Bool) : (codeLinesFrom inBlock ls).map braces = braceLines m ls ↔ LinesSeen inBlock m ls := by
  induction ls generalizing m inBlock with
  | nil => exact iff_of_true rfl trivial
  | cons l ls ih =>
    obtain ⟨hl, hls⟩ := hclosed
    rw [codeLinesFrom_cons, map_cons, braceLines, cons.injEq, LinesSeen, lineSeen_iff hm (hlines l mem_cons_self) hl,
      ih (atLine_nextLine _) (fun l' hl' => hlines l' (mem_cons_of_mem _ hl')) hls]

lemma codeLinesFrom_of_clear (hm : m.AtLine) (h : LinesClear m ls) :
    (codeLinesFrom (decide (m = .block)) ls).map braces = braceLines m ls := by
  induction ls generalizing m with
  | nil => rfl
  | cons l ls ih =>
    obtain ⟨hbraces, hstep⟩ := line_of_clear hm h.1
    rw [codeLinesFrom_cons, map_cons, hbraces, hstep, ih (atLine_nextLine _) h.2, braceLines]

/-- The lines show their braces exactly if every line does from the first token on that is not clear. In particular they do if every
token is clear. -/
theorem codeLines_braces_iff {ls : List Text} (hlines : ∀ l ∈ ls, '\n' ∉ l) (hclosed : LiteralsClosed .plain ls) :
    ((codeLines ls).map braces = braceLines .plain ls ↔ LinesSeen false .plain ls) ∧
      (LinesClear .plain ls → (codeLines ls).map braces = braceLines .plain ls) :=
  ⟨codeLinesFrom_seen_iff (.inl rfl) hlines hclosed false, fun h => codeLinesFrom_of_clear (.inl rfl) h⟩

lemma readTo_codes (codes : Text) (hcodes : ∀ c ∈ codes, c ≠ '"' ∧ c ≠ '\'' ∧ c ≠ '/')
    (h : ReadTo (Clear emptied) rest t) : ReadTo (Clear emptied) rest (codes ++ t) := by
  induction codes with
  | nil => exact h
  | cons c codes ih =>
    obtain ⟨hdouble, hsingle, hslash⟩ := hcodes c mem_cons_self
    exact @ReadTo.token _ _ (.code c) _ ⟨hdouble, hsingle, fun hc => absurd hc hslash⟩ (by cases emptied <;> trivial)
      (ih fun d hd => hcodes d (mem_cons_of_mem _ hd))

lemma lineClear_of_codeFrom (hfrom : codeFrom m l = some (emptied, t)) (h : ReadTo (Clear emptied) [] t) : LineClear m l := by
  intro emptied' t' hfrom'
  obtain ⟨rfl, rfl⟩ := Prod.mk.inj (Option.some.inj (hfrom.symm.trans hfrom'))
  exact h

def quietLines : List Text :=
  ["f() \x7b // \"\x7d".toList, "s = \"\x7d\"; /* it's".toList, "so */ c = 'x'; \x7b".toList, "c = '\x7b'; \x7d\x7d".toList]

theorem quiet_seen : (∀ l ∈ quietLines, '\n' ∉ l) ∧ LiteralsClosed .plain quietLines ∧
    (codeLines quietLines).map braces = braceLines .plain quietLines ∧
    braceLines .plain quietLines = ["\x7b".toList, [], "\x7b".toList, "\x7d\x7d".toList] := by
  have hclear : LinesClear .plain quietLines := by
    refine ⟨?_, ?_, ?_, ?_, trivial⟩
    · have hcomment : ReadTo (Clear true) [] "// \"\x7d".toList :=
        @ReadTo.token _ _ (.lineComment " \"\x7d".toList) [] ⟨by decide, rfl⟩ trivial .here
      exact lineClear_of_codeFrom rfl (readTo_codes "f() \x7b ".toList (by decide) hcomment)
    · have hcomment : ReadTo (Clear true) [] "/* it's".toList :=
        @ReadTo.token _ _ (.openComment " it's".toList) [] ⟨by decide, rfl⟩ trivial .here
      have hstring : ReadTo (Clear true) [] "\"\x7d\"; /* it's".toList :=
        @ReadTo.token _ _ (.literal '"' "\x7d".toList) _ ⟨.inl rfl, .plain (by decide) (by decide) (by decide) .nil⟩
          (fun hquote => absurd hquote (by decide)) (readTo_codes "; ".toList (by decide) hcomment)
      exact lineClear_of_codeFrom rfl (readTo_codes "s = ".toList (by decide) hstring)
    · have hchar : ReadTo (Clear false) [] "'x'; \x7b".toList :=
        @ReadTo.token _ _ (.literal '\'' "x".toList) _ ⟨.inr rfl, .plain (by decide) (by decide) (by decide) .nil⟩
          ⟨by decide, by decide, by decide⟩ (readTo_codes "; \x7b".toList (by decide) .here)
      exact lineClear_of_codeFrom (by decide) (readTo_codes " c = ".toList (by decide) hchar)
    · have hchar : ReadTo (Clear true) [] "'\x7b'; \x7d\x7d".toList :=
        @ReadTo.token _ _ (.literal '\'' "\x7b".toList) _ ⟨.inr rfl, .plain (by decide) (by decide) (by decide) .nil⟩
          (fun _ => ⟨fun p s heq => absurd (List.mem_iff_append.mpr ⟨p, s, heq⟩) (by decide), .inl (.inl rfl)⟩) (readTo_codes "; \x7d\x7d".toList (by decide) .here)
      exact lineClear_of_codeFrom rfl (readTo_codes "c = ".toList (by decide) hchar)
  have hclosed : LiteralsClosed .plain quietLines := by decide
  exact ⟨by decide, hclosed, (codeLines_braces_iff (by decide) hclosed).2 hclear, by decide⟩

/-- Lines whose braces are not seen: a quote in a character literal opens a string, one in a comment does, a literal holds two characters,
and a literal stands on a line that begins in a comment. -/
def blurredLines : List Text :=
  ["if (c == '\"') \x7b s = \"x\"; \x7d".toList, "/* 5\" */ \x7b /* 6\" */ \x7d".toList, "c = '\x7b\x7d';".toList, "/* a".toList,
    "*/ c = '\x7b';".toList]

theorem blurred_not_seen : (∀ l ∈ blurredLines, '\n' ∉ l) ∧ LiteralsClosed .plain blurredLines ∧
    (codeLines blurredLines).map braces = ["\x7d".toList, "\x7d".toList, "\x7b\x7d".toList, [], "\x7b".toList] ∧
    braceLines .plain blurredLines = ["\x7b\x7d".toList, "\x7b\x7d".toList, [], [], []] := by
  decide

end FunctionDocs.Source
