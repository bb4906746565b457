import FunctionDocs.Proofs.Code

/-!
# The tokens of a line

A line of code is a row of tokens: single characters, literals and comments, the last of which may go on beyond the line. The scan from
left to right finds them one after the other, if every literal is closed on the line, and it sees braces only as tokens of their own.
-/

namespace FunctionDocs.Code

open Text

variable {t body : Text} {quote : Char}

/-! ## Braces -/

/-- The braces of a text, in order. -/
def braces (t : Text) : Text := t.filter fun c => c == '{' || c == '}'

lemma braces_append (t u : Text) : braces (t ++ u) = braces t ++ braces u := List.filter_append _ _

def Mode.braces : Mode → Char → Text
  | .plain, c => Code.braces [c]
  | .slash, c => Code.braces [c]
  | _, _ => []

def bracesIn (m : Mode) : Text → Text
  | [] => []
  | c :: t => m.braces c ++ bracesIn (m.step c).2 t

lemma bracesIn_append (m : Mode) (t u : Text) : bracesIn m (t ++ u) = bracesIn m t ++ bracesIn (scan m t).2 u := by
  induction t generalizing m with
  | nil => rfl
  | cons c t ih => rw [List.cons_append, bracesIn, bracesIn, scan, ih, List.append_assoc]

lemma Mode.braces_sublist (m : Mode) (c : Char) : (m.braces c).Sublist (m.step c).1 := by
  have hblank : isBlank '{' = false ∧ isBlank '}' = false := ⟨rfl, rfl⟩
  cases m <;> simp only [Mode.braces, Code.braces, Mode.step] <;> grind [solid]

lemma bracesIn_sublist (m : Mode) (t : Text) : (bracesIn m t).Sublist (scan m t).1 := by
  induction t generalizing m with
  | nil => exact .refl _
  | cons c t ih => exact (m.braces_sublist c).append (ih _)

lemma bracesIn_of_silent {m : Mode} (h : (scan m t).1 = []) : bracesIn m t = [] := by
  have hsub := bracesIn_sublist m t
  rw [h] at hsub
  exact List.sublist_nil.mp hsub

/-! ## Tokens -/

/-- What stands between the quotes of a literal: a quote or a backslash only behind a backslash, and no line end. -/
inductive Within (quote : Char) : Text → Prop
  | nil : Within quote []
  | plain {c : Char} {t : Text} : c ≠ quote → c ≠ '\\' → c ≠ '\n' → Within quote t → Within quote (c :: t)
  | escaped {c : Char} {t : Text} : c ≠ '\n' → Within quote t → Within quote ('\\' :: c :: t)

/-- A token of a line. -/
inductive Token where
  | code (c : Char)
  | literal (quote : Char) (body : Text)
  | comment (body : Text)
  | lineComment (text : Text)
  /-- A block comment that goes on beyond the line. -/
  | openComment (text : Text)

namespace Token

def text : Token → Text
  | code c => [c]
  | literal quote body => quote :: (body ++ [quote])
  | comment body => '/' :: '*' :: (body ++ ['*', '/'])
  | lineComment text => '/' :: '/' :: text
  | openComment text => '/' :: '*' :: text

def braces : Token → Text
  | code c => Code.braces [c]
  | _ => []

/-- The token stands before the rest of a line. -/
def Before : Token → Text → Prop
  | code c, rest => c ≠ '"' ∧ c ≠ '\'' ∧ (c = '/' → rest.head? ≠ some '/' ∧ rest.head? ≠ some '*')
  | literal quote body, _ => (quote = '"' ∨ quote = '\'') ∧ Within quote body
  | comment body, _ => ¬"*/".toList <:+: body ++ ['*']
  | lineComment text, rest => '\n' ∉ text ∧ rest = []
  | openComment text, rest => ¬"*/".toList <:+: text ∧ rest = []

/-- Where the next line begins, if the rest of this line leads to `m`. -/
def next : Token → Mode → Mode
  | openComment _, _ => .block
  | _, m => m

end Token

def Mode.inLiteral : Mode → Bool
  | .literal _ => true
  | .escape _ => true
  | _ => false

lemma scan_slash (h : t.head? ≠ some '/' ∧ t.head? ≠ some '*') :
    bracesIn .slash t = bracesIn .plain t ∧ (scan .slash t).2.nextLine = (scan .plain t).2.nextLine ∧
      (scan .slash t).2.inLiteral = (scan .plain t).2.inLiteral := by
  cases t with
  | nil => exact ⟨rfl, rfl, rfl⟩
  | cons c t =>
    have hstep : (Mode.slash.step c).2 = (Mode.plain.step c).2 := by
      simp only [List.head?_cons] at h
      simp only [Mode.step]
      grind
    refine ⟨?_, ?_, ?_⟩
    · rw [bracesIn, hstep]
      rfl
    · rw [scan, scan, hstep]
    · rw [scan, scan, hstep]

lemma scan_within (h : Within quote body) :
    (scan (.literal quote) body).2 = .literal quote ∧ bracesIn (.literal quote) body = [] := by
  induction h with
  | nil => exact ⟨rfl, rfl⟩
  | plain hne hback hline _ ih => simpa [scan, bracesIn, Mode.step, Mode.braces, hne, hback, hline] using ih
  | escaped hline _ ih => simpa [scan, bracesIn, Mode.step, Mode.braces, hline] using ih

lemma scan_literal_text (hquote : quote = '"' ∨ quote = '\'') (h : Within quote body) :
    (scan .plain (quote :: (body ++ [quote]))).2 = .plain ∧ bracesIn .plain (quote :: (body ++ [quote])) = [] := by
  obtain ⟨hmode, hnone⟩ := scan_within h
  have hopen : (Mode.plain.step quote).2 = .literal quote ∧ Mode.plain.braces quote = [] := by
    rcases hquote with rfl | rfl <;> exact ⟨rfl, rfl⟩
  have hclose : scan (.literal quote) [quote] = ([quote], .plain) := by
    rcases hquote with rfl | rfl <;> rfl
  constructor
  · rw [scan, hopen.1, scan_append, hmode, hclose]
  · rw [bracesIn, hopen.1, hopen.2, bracesIn_append, hmode, hnone]
    rfl

/-- The scan takes a token for what it is: it sees a brace only if this is the token, and behind the token it goes on as in plain code. -/
lemma Token.Before.scan_text {tok : Token} {rest : Text} (h : tok.Before rest) :
    bracesIn .plain (tok.text ++ rest) = tok.braces ++ bracesIn .plain rest ∧
      (scan .plain (tok.text ++ rest)).2.nextLine = tok.next (scan .plain rest).2.nextLine ∧
      (scan .plain (tok.text ++ rest)).2.inLiteral = (scan .plain rest).2.inLiteral := by
  have hplain : (scan .plain tok.text).2 = .plain → bracesIn .plain (tok.text ++ rest) = bracesIn .plain tok.text ++ bracesIn .plain rest ∧
      (scan .plain (tok.text ++ rest)).2 = (scan .plain rest).2 := by
    intro hmode
    exact ⟨by rw [bracesIn_append, hmode], by rw [scan_append, hmode]⟩
  cases tok with
  | code c =>
    obtain ⟨hdouble, hsingle, hslash⟩ := h
    by_cases hc : c = '/'
    · subst hc
      exact scan_slash (hslash rfl)
    · obtain ⟨hbraces, hscan⟩ := hplain (by simp [Token.text, scan, Mode.step, hc, hdouble, hsingle])
      refine ⟨by rw [hbraces]; simp [Token.text, bracesIn, Mode.braces, Token.braces], ?_, ?_⟩
      · rw [hscan]
        rfl
      · rw [hscan]
  | literal quote body =>
    obtain ⟨hmode, hnone⟩ := scan_literal_text h.1 h.2
    obtain ⟨hbraces, hscan⟩ := hplain hmode
    refine ⟨by rw [hbraces, Token.text, hnone]; rfl, ?_, ?_⟩
    · rw [hscan]
      rfl
    · rw [hscan]
  | comment body =>
    have hsilent : scan .plain (Token.comment body).text = ([], .plain) := by simpa [Token.text] using scan_comment h
    obtain ⟨hbraces, hscan⟩ := hplain (congrArg Prod.snd hsilent)
    refine ⟨by rw [hbraces, bracesIn_of_silent (congrArg Prod.fst hsilent)]; rfl, ?_, ?_⟩
    · rw [hscan]
      rfl
    · rw [hscan]
  | lineComment text =>
    obtain ⟨hline, rfl⟩ := h
    have hsilent : scan .plain (Token.lineComment text).text = ([], .lineComment) := scan_lineComment hline
    rw [List.append_nil]
    exact ⟨bracesIn_of_silent (congrArg Prod.fst hsilent), by rw [hsilent]; rfl, by rw [hsilent]; rfl⟩
  | openComment text =>
    obtain ⟨hclose, rfl⟩ := h
    obtain ⟨hnil, hnext, -⟩ := scan_block hclose
    rw [List.append_nil]
    refine ⟨bracesIn_of_silent hnil, hnext, ?_⟩
    have hinside : ∀ {m : Mode}, m.nextLine = .block → m.inLiteral = false := by
      intro m hm
      cases m with
      | block => rfl
      | star => rfl
      | _ => cases hm
    exact hinside hnext

/-! ## Lines as rows of tokens -/

/-- A text consists of tokens that pass a test, up to some rest of it. -/
inductive ReadTo (test : Token → Text → Prop) (rest : Text) : Text → Prop
  | here : ReadTo test rest rest
  | token {tok : Token} {t : Text} : tok.Before t → test tok t → ReadTo test rest t → ReadTo test rest (tok.text ++ t)

lemma exists_within (hquote : quote = '"' ∨ quote = '\'') (hline : '\n' ∉ t)
    (h : (scan (.literal quote) t).2.inLiteral = false) : ∃ body rest, t = body ++ quote :: rest ∧ Within quote body := by
  induction hlen : t.length using Nat.strongRecOn generalizing t with
  | ind n ih =>
    cases t with
    | nil => cases h
    | cons c t =>
      rw [List.mem_cons, not_or] at hline
      by_cases hback : c = '\\'
      · subst hback
        cases t with
        | nil => rcases hquote with rfl | rfl <;> cases h
        | cons d t =>
          have hd : d ≠ '\n' := fun hd => hline.2 (hd ▸ List.mem_cons_self)
          have hstep : (scan (.literal quote) ('\\' :: d :: t)).2 = (scan (.literal quote) t).2 := by simp [scan, Mode.step, hd]
          rw [hstep] at h
          obtain ⟨body, rest, rfl, hwithin⟩ :=
            ih t.length (by simp at hlen; omega) (fun hmem => hline.2 (List.mem_cons_of_mem _ hmem)) h rfl
          exact ⟨'\\' :: d :: body, rest, rfl, .escaped hd hwithin⟩
      · by_cases hc : c = quote
        · exact ⟨[], t, by rw [hc]; rfl, .nil⟩
        · have hstep : (scan (.literal quote) (c :: t)).2 = (scan (.literal quote) t).2 := by
            simp [scan, Mode.step, hback, hc, Ne.symm hline.1]
          rw [hstep] at h
          obtain ⟨body, rest, rfl, hwithin⟩ := ih t.length (by simp at hlen; omega) hline.2 h rfl
          exact ⟨c :: body, rest, rfl, .plain hc hback (symm hline.1) hwithin⟩

lemma exists_token (hne : t ≠ []) (hline : '\n' ∉ t) (h : (scan .plain t).2.inLiteral = false) :
    ∃ (tok : Token) (rest : Text), t = tok.text ++ rest ∧ tok.Before rest := by
  obtain ⟨c, t, rfl⟩ := List.exists_cons_of_ne_nil hne
  have hrest : '\n' ∉ t := fun hmem => hline (List.mem_cons_of_mem _ hmem)
  by_cases hquote : c = '"' ∨ c = '\''
  · have hopen : (scan .plain (c :: t)).2 = (scan (.literal c) t).2 := by rcases hquote with rfl | rfl <;> rfl
    rw [hopen] at h
    obtain ⟨body, rest, rfl, hwithin⟩ := exists_within hquote hrest h
    exact ⟨.literal c body, rest, by simp [Token.text], hquote, hwithin⟩
  · rw [not_or] at hquote
    by_cases hslash : c = '/' ∧ (t.head? = some '/' ∨ t.head? = some '*')
    · obtain ⟨rfl, hhead⟩ := hslash
      obtain ⟨d, t, rfl⟩ := List.exists_cons_of_ne_nil (show t ≠ [] by rintro rfl; simp at hhead)
      simp only [List.head?_cons, Option.some.injEq] at hhead
      rcases hhead with rfl | rfl
      · exact ⟨.lineComment t, [], by simp [Token.text], fun hmem => hrest (List.mem_cons_of_mem _ hmem), rfl⟩
      · cases hcut : cutFirst "*/" t with
        | none => exact ⟨.openComment t, [], by simp [Token.text], not_infix_of_cutFirst hcut, rfl⟩
        | some cut =>
          exact ⟨.comment cut.1, cut.2, by simp [Token.text, cutFirst_eq_some hcut], not_infix_before_cut (by decide) hcut⟩
    · refine ⟨.code c, t, rfl, hquote.1, hquote.2, fun hc => ?_⟩
      rw [← not_or]
      exact fun hhead => hslash ⟨hc, hhead⟩

lemma readTo_or {test : Token → Text → Prop} (hline : '\n' ∉ t) (h : (scan .plain t).2.inLiteral = false) :
    ReadTo test [] t ∨ ∃ (tok : Token) (rest : Text), tok.Before rest ∧ ¬test tok rest ∧ ReadTo test (tok.text ++ rest) t := by
  induction hlen : t.length using Nat.strongRecOn generalizing t with
  | ind n ih =>
    by_cases hne : t = []
    · exact .inl (hne ▸ .here)
    · obtain ⟨tok, rest, rfl, hbefore⟩ := exists_token hne hline h
      by_cases htest : test tok rest
      · have hshort : rest.length < n := by
          have htext : 0 < tok.text.length := by cases tok <;> simp [Token.text]
          rw [List.length_append] at hlen
          omega
        rw [hbefore.scan_text.2.2] at h
        rcases ih rest.length hshort (fun hmem => hline (List.mem_append_right _ hmem)) h rfl with hall | ⟨tok', rest', hbefore', hfail, hread⟩
        · exact .inl (.token hbefore htest hall)
        · exact .inr ⟨tok', rest', hbefore', hfail, .token hbefore htest hread⟩
      · exact .inr ⟨tok, rest, hbefore, htest, .here⟩

end FunctionDocs.Code
