import FunctionDocs.Proofs.ParamRows
import FunctionDocs.Proofs.Remarks
import FunctionDocs.Proofs.Splitting

/-!
# What a comment gave is said again

A Doxygen comment may describe a parameter under its name, or under its name with a star or an ampersand before it. The
comment that is composed for the function has one line for each parameter, in the order of the signature. Here is exactly when
that line carries what the comment gave: the description has to stand under the bare name, to have a text, and to hold no hint.
-/

open List

namespace FunctionDocs.DocBlock

open Text Pattern

variable {cs : List Clause} {ls : List Text} {q : Parameter} {s : Pattern.Place} {n name p t : Text} {l : Text}

/-! ## Parameters with a type and a name -/

/-- A parameter: its type with the blank or the sign in front of the name, and its name. -/
structure Parameter where
  type : Text
  name : Text

def Parameter.text (q : Parameter) : Text := q.type ++ q.name

/-- A type on one line, set apart from an identifier: it closes its brackets and holds no sign that a default value, a function
pointer or the next parameter begins with. -/
structure Parameter.Proper (q : Parameter) : Prop where
  identifier : isIdentifier q.name = true
  named : q.name ≠ "void"
  nonempty : q.type ≠ []
  begun : ∀ c, q.type.head? = some c → isBlank c = false
  apart : ∀ c, q.type.getLast? = some c → isWordChar c = false ∧ c ≠ ':'
  free : ∀ c ∈ ['=', '(', ','], c ∉ q.type
  paired : Paired q.type
  flat : Flat q.type

lemma Parameter.Proper.word (h : q.Proper) : Word q.name := word_of_isIdentifier h.identifier

lemma Parameter.Proper.mem_text (h : q.Proper) {c : Char} (hc : isWordChar c = false) : c ∈ q.text ↔ c ∈ q.type := by
  rw [text, mem_append]
  refine ⟨fun hm => hm.resolve_right fun hn => ?_, .inl⟩
  rw [h.word.chars c hn] at hc
  cases hc

lemma Parameter.Proper.not_mem_text (h : q.Proper) {c : Char} (hc : c ∈ ['=', '(', ',']) : c ∉ q.text := by
  have hword : ∀ c ∈ ['=', '(', ','], isWordChar c = false := by decide
  exact mt (h.mem_text (hword c hc)).mp (h.free c hc)

lemma Parameter.Proper.trimmed (h : q.Proper) : Trimmed q.text := by
  constructor
  · intro c hc
    rw [text, head?_append_of_ne_nil _ h.nonempty] at hc
    exact h.begun c hc
  · intro c hc
    rw [text, getLast?_append_of_ne_nil _ h.word.nonempty] at hc
    exact isBlank_of_isWordChar (h.word.chars c (mem_of_getLast? hc))

lemma Parameter.Proper.whole (h : q.Proper) : Whole q.text where
  trimmed := h.trimmed
  nonempty := by simp [text, h.nonempty]
  paired := by
    have hcount : ∀ c, isWordChar c = false → q.text.count c = q.type.count c := by
      intro c hc
      have hzero : q.name.count c = 0 := by
        rw [count_eq_zero]
        intro hm
        rw [h.word.chars c hm] at hc
        cases hc
      rw [text, count_append, hzero, Nat.add_zero]
    obtain ⟨hangle, hround, hsquare⟩ := h.paired
    refine ⟨?_, ?_, ?_⟩
    · rw [hcount _ (by decide), hcount _ (by decide), hangle]
    · rw [hcount _ (by decide), hcount _ (by decide), hround]
    · rw [hcount _ (by decide), hcount _ (by decide), hsquare]
  commas := by
    intro i _ hi
    exact absurd (mem_of_getElem? hi) (h.not_mem_text (by decide))

lemma splitDefault_of_not_mem (h : '=' ∉ p) : splitDefault p = (trim p, none) := by
  rw [splitDefault]
  split
  next a b hcut =>
    rw [cutFirst_eq_some hcut] at h
    exact absurd (by simp) h
  · rfl

lemma functionPointer_of_not_mem (h : '(' ∉ t) : functionPointer? t = none := by
  have hnone : functionPointer.match? t = none := by
    refine match_none ?_ h
    rintro x ⟨_, _, rfl, -, _, _, rfl, rfl, -⟩
    simp
  rw [functionPointer?, hnone]
  rfl

/-! ## The last token -/

def isNameChar (c : Char) : Bool := isWordChar c || c == ':'

lemma paramToken_eq : paramToken = .either (.many isNameChar 1) (.either (.many (· == '*') 1) (.many (· == '&') 1)) := rfl

lemma run_many {p : Char → Bool} (s : Pattern.Place) :
    (many p 1).run some s =
      if 1 ≤ (s.rest.takeWhile p).length then some (s.skip (s.rest.takeWhile p).length) else none :=
  manyFrom_eq rfl fun _ _ h => by cases h

lemma since_takeWhile (p : Char → Bool) (s : Pattern.Place) : (s.skip (s.rest.takeWhile p).length).since s = s.rest.takeWhile p := by
  rw [Pattern.Place.since_skip (length_takeWhile_le p s.rest)]
  exact (prefix_iff_eq_take.mp ( takeWhile_prefix p)).symm

lemma token_word (hs : s.rest = n) (hn : Word n) : ∃ m, paramToken.matchAt? s = some m ∧ m.text = n := by
  have htake : s.rest.takeWhile isNameChar = n := by
    rw [hs, takeWhile_eq_self_iff]
    intro c hc
    rw [isNameChar, hn.chars c hc]
    rfl
  have hlen : 1 ≤ n.length := length_pos_iff.mpr hn.nonempty
  have hrun : (Pattern.many isNameChar 1).run some s = some (s.skip n.length) := by
    rw [run_many, htake, if_pos hlen]
  have hmatch : paramToken.run some s = some (s.skip n.length) := by
    rw [paramToken_eq, run, hrun]
  refine ⟨⟨[], (s.skip n.length).since s, (s.skip n.length).rest, (s.skip n.length).parts⟩, ?_, ?_⟩
  · rw [matchAt?, hmatch]
    rfl
  · have hsince := since_takeWhile isNameChar s
    rwa [htake] at hsince

lemma matchesFrom_skipped (p : Pattern) {skip : Nat} {gap t : Text} {s : Pattern.Place} (h : t.length ≤ skip) :
    (p.matchesFrom skip gap t s).1 = [] := by
  induction t generalizing skip s with
  | nil => cases skip <;> rfl
  | cons c r ih =>
    cases skip with
    | zero => simp at h
    | succ skip => exact ih (by simpa using h)

lemma token_length {m : Match} {a : Text} (hs : s.rest = a ++ n) (hn : Word n) (hne : a ≠ [])
    (ha : ∀ c, a.getLast? = some c → isNameChar c = false) (h : paramToken.matchAt? s = some m) : m.text.length ≤ a.length := by
  obtain ⟨htakes, hrest⟩ := matchAt_takes h
  by_contra hlong
  -- a longer token would hold the last character before the name and the first one of it
  obtain ⟨u, hu⟩ : a <+: m.text := prefix_of_prefix_length_le ⟨n, hs.symm⟩ ⟨m.after, hrest.symm⟩ (by omega)
  have hname : n = u ++ m.after := append_cancel_left (hs.symm.trans (by rw [hrest, ← hu, append_assoc]))
  cases u with
  | nil => exact hlong (by rw [← hu, append_nil])
  | cons d u =>
    have hword : isWordChar d := hn.chars d (by rw [hname]; exact mem_cons_self)
    have hd : d ∈ m.text := by rw [← hu]; simp
    have hlast : a.getLast hne ∈ m.text := by rw [← hu]; exact mem_append_left _ (getLast_mem hne)
    rcases htakes with ⟨-, hall⟩ | ⟨-, hall⟩ | ⟨-, hall⟩
    · exact absurd (hall _ hlast) (Bool.eq_false_iff.mp (ha _ (getLast?_eq_some_getLast hne)))
    · rw [beq_iff_eq.mp (hall d hd)] at hword
      exact absurd hword (by decide)
    · rw [beq_iff_eq.mp (hall d hd)] at hword
      exact absurd hword (by decide)

lemma last_token (hn : Word n) {a : Text} (ha : ∀ c, a.getLast? = some c → isNameChar c = false) {skip : Nat}
    (hskip : skip ≤ a.length) (gap : Text) {s : Pattern.Place} (hs : s.rest = a ++ n) :
    ∃ ms x, (paramToken.matchesFrom skip gap (a ++ n) s).1 = ms ++ [x] ∧ x.2.text = n := by
  induction a generalizing skip gap s with
  | nil =>
    obtain ⟨m, hm, htext⟩ := token_word hs hn
    obtain ⟨c, r, rfl⟩ := exists_cons_of_ne_nil hn.nonempty
    obtain rfl : skip = 0 := by simpa using hskip
    have hrest := @matchesFrom_skipped paramToken (m.text.length - 1) [] r (s.step c r) (by simp [htext])
    have hne : m.text.isEmpty = false := by rw [htext]; rfl
    refine ⟨[], (gap.reverse, m), ?_, htext⟩
    simp only [nil_append, matchesFrom, hm, hne, hrest]
    rfl
  | cons c a ih =>
    have hrest : ∀ d, a.getLast? = some d → isNameChar d = false := by
      intro d hd
      cases a with
      | nil => cases hd
      | cons e a => exact ha d (by simpa using hd)
    have hstep : (s.step c (a ++ n)).rest = a ++ n := rfl
    cases skip with
    | succ skip =>
      exact ih hrest (by simpa using hskip) gap hstep
    | zero =>
      rw [cons_append, matchesFrom]
      cases hm : paramToken.matchAt? s with
      | none => exact ih hrest (Nat.zero_le _) _ hstep
      | some m =>
        dsimp only
        split
        · exact ih hrest (Nat.zero_le _) _ hstep
        · have hlen := token_length hs hn (cons_ne_nil c a) ha hm
          have hbefore : m.text.length - 1 ≤ a.length := by
            rw [length_cons] at hlen
            omega
          obtain ⟨ms, x, hms, hx⟩ := ih hrest hbefore [] hstep
          exact ⟨(gap.reverse, m) :: ms, x, by rw [hms]; rfl, hx⟩

lemma paramName_of_not_pointer (h : functionPointer? (splitDefault p).1 = none) :
    paramName p = (((paramToken.findAll (splitDefault p).1).1.map (·.2.text)).reverse.find? isIdentifier).getD [] := by
  unfold paramName
  simp only [h]

lemma Parameter.Proper.paramName (h : q.Proper) : paramName q.text = q.name := by
  have hbare : (splitDefault q.text).1 = q.text := by rw [splitDefault_of_not_mem (h.not_mem_text (by decide)), h.trimmed.trim_eq]
  have hapart : ∀ c, q.type.getLast? = some c → isNameChar c = false := by
    intro c hc
    obtain ⟨hword, hcolon⟩ := h.apart c hc
    simp [isNameChar, hword, hcolon]
  obtain ⟨ms, x, hms, hx⟩ := @last_token q.name h.word q.type hapart 0 (Nat.zero_le _) [] ⟨none, 0, q.text, []⟩ rfl
  have htokens : ((paramToken.findAll q.text).1.map (·.2.text)).reverse = q.name :: (ms.map (·.2.text)).reverse := by
    have hall : (paramToken.findAll q.text).1 = ms ++ [x] := hms
    rw [hall, map_append, reverse_append, ← hx]
    rfl
  rw [paramName_of_not_pointer (by rw [hbare, functionPointer_of_not_mem (h.not_mem_text (by decide))]), hbare, htokens,
    find?_cons_of_pos h.identifier]
  rfl

lemma Parameter.Proper.hints (h : q.Proper) : hints q.text = [] := by
  have hdefault : defaultValue q.text = [] := by rw [defaultValue, splitDefault_of_not_mem (h.not_mem_text (by decide))]; rfl
  have hinner : pointerInner q.text = [] := by
    rw [pointerInner, splitDefault_of_not_mem (h.not_mem_text (by decide)), h.trimmed.trim_eq, functionPointer_of_not_mem (h.not_mem_text (by decide))]
    rfl
  rw [DocBlock.hints, defaultPart, pointerPart, hdefault, hinner]
  rfl

lemma documented_joinWith {qs : List Parameter} (h : ∀ q ∈ qs, q.Proper) :
    documented (joinWith ", " (qs.map Parameter.text)) = qs.map Parameter.text := by
  have hsplit : splitParams (joinWith ", " (qs.map Parameter.text)) = qs.map Parameter.text := by
    cases qs with
    | nil => rfl
    | cons q qs =>
      refine @splitParamsFrom_joinWith q.text (qs.map Parameter.text) (fun p hp => ?_) [] rfl
      rw [← map_cons] at hp
      obtain ⟨q', hq, rfl⟩ := mem_map.mp hp
      exact (h q' hq).whole
  have hfull : ∀ p ∈ qs.map Parameter.text, (!p.isEmpty) := by
    intro p hp
    obtain ⟨q, hq, rfl⟩ := mem_map.mp hp
    simpa using (h q hq).whole.nonempty
  have hnamed : ∀ p ∈ qs.map Parameter.text, (!(paramName p == "void")) := by
    intro p hp
    obtain ⟨q, hq, rfl⟩ := mem_map.mp hp
    rw [(h q hq).paramName]
    simpa using (h q hq).named
  rw [documented, hsplit, filter_eq_self.mpr hfull, filter_eq_self.mpr hnamed]

/-! ## Comments as clauses -/

/-- A line with a tag: that of a parameter, with what stands behind its name, or any other. -/
inductive TagLine where
  | param (gap sign name rest : Text)
  | other (line : Text)

def TagLine.written : TagLine → Text
  | .param gap sign name rest => "@param" ++ (gap ++ (sign ++ (name ++ rest)))
  | .other line => line

/-- A line with a tag and the lines that continue it. -/
structure Clause where
  tag : TagLine
  more : List Text

def Clause.written (c : Clause) : List Text := c.tag.written :: c.more

def commentOf (cs : List Clause) : Text := block ((cs.flatMap Clause.written).map (" * ".toList ++ ·))

/-- A text in which no word, with or without a sign, stands behind white space at its beginning. -/
def Unnamed (t : Text) : Prop :=
  ∀ gap sign name rest : Text, gap ≠ [] → isBlankLine gap = true → sign ∈ [[], ['*'], ['&']] → Word name →
    t ≠ gap ++ (sign ++ (name ++ rest))

/-- A line of a parameter names it behind white space, with a star, an ampersand or no sign; another line with a tag names none. -/
def TagLine.Proper : TagLine → Prop
  | .param gap sign name rest =>
    (gap ≠ [] ∧ isBlankLine gap = true ∧ Flat gap) ∧ sign ∈ [[], ['*'], ['&']] ∧ Word name ∧
      (Flat rest ∧ ∀ c, rest.head? = some c → isWordChar c = false)
  | .other line =>
    Flat line ∧ ¬Tagless (trim line) ∧ (startsWith (trim line) "@param" = true → Unnamed ((trim line).drop 6))

/-- A clause whose further lines have a text and no tag. -/
structure Clause.Proper (c : Clause) : Prop where
  tag : c.tag.Proper
  more : ∀ l ∈ c.more, Flat l ∧ trim l ≠ [] ∧ Tagless (trim l)

def Clause.given? (c : Clause) : Option (Text × List Text) :=
  match c.tag with
  | .param _ sign name rest => some (sign ++ name, ((rest :: c.more).map trim).filter (!·.isEmpty))
  | .other _ => none

/-- What a comment gives under a key: what the last clause with it says. -/
def givenUnder (cs : List Clause) (key : Text) : Option (List Text) :=
  ((cs.filterMap Clause.given?).reverse.find? (·.1 == key)).map (·.2)

/-- The description of a parameter: what the comment gives under its name, or else with a star or an ampersand before it. -/
def description (cs : List Clause) (name : Text) : List Text :=
  ((givenUnder cs name).or ((givenUnder cs ('*' :: name)).or (givenUnder cs ('&' :: name)))).getD []

/-! ## Reading clauses -/

lemma nameAndText_signed {b s : Text} (hb : isBlankLine b) (hne : b ≠ []) (hs : s ∈ [[], ['*'], ['&']]) (hn : Word n)
    (ht : ∀ c, t.head? = some c → isWordChar c = false) :
    nameAndText? ['*', '&'] (b ++ (s ++ (n ++ t))) = some (s ++ n, firstLine (t.dropWhile isBlank)) := by
  refine nameAndText_eq hb hne hn ?_ ht
  simp only [mem_cons, not_mem_nil, or_false] at hs
  rcases hs with rfl | rfl | rfl
  · exact .inl ⟨rfl, hn.unsigned⟩
  · exact .inr ⟨'*', by decide, by decide, rfl⟩
  · exact .inr ⟨'&', by decide, by decide, rfl⟩

lemma linesBehind_trimRight (h : Flat t) : linesBehind (trimRight t) = if (trim t).isEmpty then [] else [trim t] := by
  have hleft : (trimRight t).dropWhile isBlank = trim t := trimLeft_trimRight t
  have hrow := row_trim h
  rw [linesBehind, hleft, firstLine_flat hrow.flat]
  by_cases hne : trim t = []
  · rw [hne]
    rfl
  · rw [ownLines_row hrow hne, if_neg (by simpa using hne)]

lemma sign_append (t : Text) :
    (t.take 1).filter ['*', '&'].contains ∈ ([[], ['*'], ['&']] : List Text) ∧
      t = (t.take 1).filter ['*', '&'].contains ++ t.drop ((t.take 1).filter ['*', '&'].contains).length := by
  cases t with
  | nil => exact ⟨by decide, rfl⟩
  | cons c t =>
    by_cases hc : c ∈ ['*', '&']
    · have hsign : ((c :: t).take 1).filter ['*', '&'].contains = [c] := by simpa using hc
      rw [hsign]
      refine ⟨?_, rfl⟩
      simp only [mem_cons, not_mem_nil, or_false] at hc
      rcases hc with rfl | rfl <;> decide
    · have hsign : ((c :: t).take 1).filter ['*', '&'].contains = [] := by simpa using hc
      rw [hsign]
      exact ⟨mem_cons_self, rfl⟩

lemma nameAndText_unnamed (h : Unnamed t) : nameAndText? ['*', '&'] t = none := by
  unfold nameAndText?
  split
  · rfl
  next hhead =>
    dsimp only
    split
    · rfl
    next hword =>
      obtain ⟨hsign, hbody⟩ := sign_append (t.dropWhile isBlank)
      have hgap : t.takeWhile isBlank ≠ [] := by
        cases t with
        | nil => simp at hhead
        | cons c t =>
          have hc : isBlank c := by simpa using hhead
          rw [takeWhile_cons_of_pos hc]
          exact cons_ne_nil _ _
      generalize ((t.dropWhile isBlank).take 1).filter ['*', '&'].contains = sign at hword hsign hbody
      have hname : Word (((t.dropWhile isBlank).drop sign.length).takeWhile isWordChar) :=
        ⟨fun hnil => hword (isEmpty_iff.mpr hnil), fun c hc => mem_takeWhile_imp hc⟩
      refine (h _ sign _ (((t.dropWhile isBlank).drop sign.length).dropWhile isWordChar) hgap
        (isBlankLine_iff.mpr fun c hc => mem_takeWhile_imp hc) hsign hname ?_).elim
      rw [takeWhile_append_dropWhile, ← hbody, takeWhile_append_dropWhile]

lemma read_other {p : Parts} {part : Part} {row : Text} (htag : ¬Tagless row)
    (hparam : startsWith row "@param" → Unnamed (row.drop 6)) :
    (p.read part row).1.params = p.params ∧ ∀ n, (p.read part row).2 ≠ .param n := by
  fun_cases Parts.read p part row with
  | case2 _ hs name text hnt =>
    rw [nameAndText_unnamed (hparam hs)] at hnt
    cases hnt
  | case10 _ _ _ _ _ hat => exact absurd (by simpa [Tagless] using hat) htag
  | _ => exact ⟨rfl, by rintro n ⟨⟩⟩

lemma continueAll_params {p : Parts} {part : Part} (h : ∀ n, part ≠ .param n) (ls : List Text) :
    (p.continueAll part ls).params = p.params := by
  have hone : ∀ (p : Parts) (l : Text), (p.continueWith part l).params = p.params := by
    intro p l
    cases part with
    | param n => exact absurd rfl (h n)
    | _ => rfl
  induction ls generalizing p with
  | nil => rfl
  | cons l ls ih => exact ih.trans (hone p l)

lemma trim_paramLine {gap sign rest : Text} (hn : Word name) :
    trim (TagLine.written (.param gap sign name rest)) = "@param" ++ (gap ++ (sign ++ (name ++ trimRight rest))) := by
  have hclosed : Closed name := fun c hc => isBlank_of_isWordChar (hn.chars c (mem_of_getLast? hc))
  have hform : ∀ t : Text, "@param" ++ (gap ++ (sign ++ (name ++ t))) = "@param" ++ gap ++ sign ++ name ++ t := by
    simp only [append_assoc, implies_true]
  -- Nothing is trimmed before a tag, and behind the name only white space.
  have htrim : trim ("@param".toList ++ gap ++ sign ++ name ++ rest) = "@param" ++ gap ++ sign ++ name ++ trimRight rest := by
    rw [trim_eq_trimRight (by rintro c ⟨⟩; decide), trimRight_append_of_last (closed_append hn.nonempty hclosed)]
  exact (congrArg trim (hform rest)).trans (htrim.trans (hform _).symm)

lemma readAll_clause {c : Clause} (hc : c.Proper) (p : Parts) (part : Part) :
    (readAll (p, part) (c.written.map trim)).1.params = (c.given?.toList.foldl (fun ns q => setLines q.1 q.2 ns) p.params) := by
  have hmore : ∀ l ∈ c.more.map trim, Tagless l := by
    intro l hl
    obtain ⟨m, hm, rfl⟩ := mem_map.mp hl
    exact (hc.more m hm).2.2
  have htag := hc.tag
  rw [Clause.written, map_cons, readAll_cons]
  cases ht : c.tag with
  | other line =>
    rw [ht] at htag
    obtain ⟨hparams, hpart⟩ := @read_other p part (trim line) htag.2.1 htag.2.2
    have hgiven : c.given? = none := by rw [Clause.given?, ht]
    have hline : TagLine.written (.other line) = line := rfl
    rw [hgiven, hline]
    rw [readAll_tagless hmore]
    exact (continueAll_params hpart _).trans hparams
  | param gap sign name rest =>
    rw [ht] at htag
    obtain ⟨⟨hne, hblank, -⟩, hsign, hname, hrest, hstop⟩ := htag
    have hread : p.read part ("@param" ++ (gap ++ (sign ++ (name ++ trimRight rest)))) =
        ({ p with params := setLines (sign ++ name) (linesBehind (trimRight rest)) p.params }, .param (sign ++ name)) := by
      have hdrop : ("@param".toList ++ (gap ++ (sign ++ (name ++ trimRight rest)))).drop 6 =
          gap ++ (sign ++ (name ++ trimRight rest)) := rfl
      rw [Parts.read, hdrop, nameAndText_signed hblank hne hsign hname fun c hc => hstop c (trimRight_head hc)]
      rfl
    have hlines : (if (trim rest).isEmpty then [] else [trim rest]) ++ c.more.map trim =
        ((rest :: c.more).map trim).filter (!·.isEmpty) := by
      have hfull : (c.more.map trim).filter (!·.isEmpty) = c.more.map trim := by
        refine filter_eq_self.mpr fun l hl => ?_
        obtain ⟨m, hm, rfl⟩ := mem_map.mp hl
        simpa using (hc.more m hm).2.1
      rw [map_cons, filter_cons, hfull]
      cases (trim rest).isEmpty <;> rfl
    have hgiven : c.given? = some (sign ++ name, ((rest :: c.more).map trim).filter (!·.isEmpty)) := by rw [Clause.given?, ht]
    rw [trim_paramLine hname, hread, readAll_tagless hmore, continueAll_param, foldl_addLine, linesBehind_trimRight hrest, hlines,
      hgiven]
    rfl

lemma readAll_clauses (h : ∀ c ∈ cs, c.Proper) (s : Parts × Part) : (readAll s ((cs.flatMap Clause.written).map trim)).1.params =
      (cs.filterMap Clause.given?).foldl (fun ns q => setLines q.1 q.2 ns) s.1.params := by
  induction cs generalizing s with
  | nil => rfl
  | cons c cs ih =>
    obtain ⟨hc, hcs⟩ := forall_mem_cons.mp h
    have hhead : (c :: cs).filterMap Clause.given? = c.given?.toList ++ cs.filterMap Clause.given? := by
      rw [filterMap_cons]
      cases c.given? <;> rfl
    rw [flatMap_cons, map_append, readAll_append, ih hcs, readAll_clause hc, hhead, foldl_append]

lemma find_setAll (qs : List (Text × List Text)) (ns : Notes) (key : Text) :
    (qs.foldl (fun ns q => setLines q.1 q.2 ns) ns).find? (·.1 == key) =
      (qs.reverse.find? (·.1 == key)).or (ns.find? (·.1 == key)) := by
  induction qs generalizing ns with
  | nil => rfl
  | cons q qs ih =>
    obtain ⟨name, ls⟩ := q
    rw [foldl_cons, ih, find_setLines]
    by_cases hname : name = key <;> simp [hname]

lemma TagLine.Proper.flat {t : TagLine} (h : t.Proper) : Flat t.written := by
  cases t with
  | other line => exact h.1
  | param gap sign name rest =>
    obtain ⟨⟨-, -, hgap⟩, hsign, hname, hrest, -⟩ := h
    have hs : Flat sign := by
      simp only [mem_cons, not_mem_nil, or_false] at hsign
      rcases hsign with rfl | rfl | rfl <;> decide
    exact (by decide : Flat "@param".toList).append (hgap.append (hs.append (hname.flat.append hrest)))

lemma Clause.Proper.flat {c : Clause} (h : c.Proper) : ∀ l ∈ c.written, Flat l :=
  forall_mem_cons.mpr ⟨h.tag.flat, fun l hl => (h.more l hl).1⟩

lemma ofLines_commentOf (h : ∀ c ∈ cs, c.Proper) :
    Parts.ofLines (bodyLines (commentOf cs)) = (readAll ({}, .none) ((cs.flatMap Clause.written).map trim)).1 := by
  have hflat : ∀ l ∈ cs.flatMap Clause.written, Flat (" * " ++ l) := by
    intro l hl
    obtain ⟨c, hc, hl⟩ := mem_flatMap.mp hl
    exact (by decide : Flat " * ").append ((h c hc).flat l hl)
  have hrow : ∀ l ∈ cs.flatMap Clause.written, rowsOf (" * " ++ l) = [trim l] := by
    intro l hl
    rw [rowsOf_flat (hflat l hl)]
    exact congrArg (fun x => [x]) (@readRow_star [' '] l rfl (by simp))
  have hrows : ((cs.flatMap Clause.written).map (" * ".toList ++ ·)).flatMap rowsOf = (cs.flatMap Clause.written).map trim := by
    rw [flatMap_map, map_eq_flatMap]
    exact flatMap_congr hrow
  rw [commentOf, ofLines_block, hrows]
  intro p hp
  obtain ⟨l, hl, rfl⟩ := mem_map.mp hp
  exact fed_of_flat (hflat l hl)

lemma docText_commentOf (h : ∀ c ∈ cs, c.Proper) (name : Text) :
    docText (Parts.ofLines (bodyLines (commentOf cs))).texts.params name = ((givenUnder cs name).map (layOut margin)).getD todo := by
  have hparams := readAll_clauses h ({}, .none)
  rw [← ofLines_commentOf h] at hparams
  rw [docText, Parts.texts, find?_map, hparams]
  have hfind := find_setAll (cs.filterMap Clause.given?) [] name
  rw [find?_nil, Option.or_none] at hfind
  have hkey : ((fun n : Text × Text => n.1 == name) ∘ fun n : Text × List Text => (n.1, layOut margin n.2)) = (·.1 == name) := rfl
  rw [hkey, hfind, givenUnder, Option.map_map, Option.map_map]
  rfl

lemma mem_givenUnder (h : ∀ c ∈ cs, c.Proper) {key : Text} {ls : List Text}
    (hls : givenUnder cs key = some ls) : ∀ l ∈ ls, Row l ∧ l ≠ [] := by
  obtain ⟨q, hq, rfl⟩ := Option.map_eq_some_iff.mp hls
  obtain ⟨c, hc, hgiven⟩ := mem_filterMap.mp (mem_reverse.mp (mem_of_find?_eq_some hq))
  have htag := (h c hc).tag
  rw [Clause.given?] at hgiven
  cases ht : c.tag with
  | other line =>
    rw [ht] at hgiven
    cases hgiven
  | param gap sign name rest =>
    rw [ht] at hgiven htag
    cases hgiven
    intro l hl
    rw [mem_filter, mem_map] at hl
    obtain ⟨⟨m, hm, rfl⟩, hne⟩ := hl
    refine ⟨row_trim ?_, by simpa using hne⟩
    rcases mem_cons.mp hm with rfl | hm
    · exact htag.2.2.2.1
    · exact ((h c hc).more m hm).1

/-! ## The lines of a parameter -/

/-- The lines that say what is known of a parameter: its description, or the mark of an open place. -/
def paramRows (name : Text) : List Text → List Text
  | [] => [paramTag name (' ' :: todo)]
  | l :: ls => paramTag name (' ' :: l) :: ls.map (margin ++ ·)

lemma unlines_paramRows (name l : Text) (ls : List Text) :
    unlines (paramRows name (l :: ls)) = paramTag name (' ' :: hung margin (l :: ls)) := by
  have hfirst : ∀ (a b : Text) (r : List Text), unlines ((a ++ b) :: r) = a ++ unlines (b :: r) := by
    intro a b r
    cases r with
    | nil => rfl
    | cons c r => rw [unlines, unlines, joinWith, joinWith, append_assoc, append_assoc, append_assoc]
  have hform : ∀ t, paramTag name (' ' :: t) = paramTag name [' '] ++ t := fun t => (paramTag_append name [' '] t).symm
  rw [paramRows, hform l, hfirst, unlines_margin, hform (hung _ _), hung]

lemma eraseSized_sublist (size : Text → Option Nat) (skip : Nat) (t : Text) : (eraseSized size skip t).Sublist t := by
  fun_induction eraseSized size skip t with
  | case1 => exact Sublist.refl _
  | case2 skip c r ih => exact ih.cons c
  | case3 c r n hn ih => exact ih.cons c
  | case4 c r hn ih => exact ih.cons_cons c

lemma dropHints_sublist (t : Text) : (dropHints t).Sublist t := by
  rw [dropHints_eq]
  exact ( trimRight_prefix _).sublist.trans ((eraseSized_sublist _ 0 _).trans (eraseSized_sublist _ 0 _))

lemma unlines_splitOnChar (t : Text) : unlines (splitOnChar '\n' t) = t := by
  induction hn : t.length using Nat.strongRecOn generalizing t with
  | ind n ih =>
    rcases not_mem_or_split '\n' t with h | ⟨a, b, rfl, ha⟩
    · rw [splitOnChar_of_not_mem h]
      rfl
    · have hb := ih b.length (by rw [← hn]; simp; omega) b rfl
      obtain ⟨l, ls, hl⟩ := exists_cons_of_ne_nil (splitOnChar_ne_nil '\n' b)
      rw [splitOnChar_append_cons, splitOnChar_of_not_mem ha, hl, singleton_append, unlines, joinWith, ← unlines, ← hl, hb,
        append_assoc]
      rfl

lemma length_unlines_le {ms : List Text} (h : ls <+: ms) : (unlines ls).length ≤ (unlines ms).length := by
  obtain ⟨rest, rfl⟩ := h
  cases rest with
  | nil => rw [append_nil]
  | cons r rest =>
    rw [unlines_append_cons, length_append]
    rcases eq_nil_or_concat' ls with rfl | ⟨init, last, rfl⟩
    · exact Nat.zero_le _
    · have hlast := unlines_append_cons init last []
      rw [hlast]
      simp [below]
      omega

lemma paragraphRows_begins (p : Text) : paragraphRows p <+: splitOnChar '\n' p := by
  obtain ⟨l, ls, hl⟩ := exists_cons_of_ne_nil (splitOnChar_ne_nil '\n' p)
  rw [paragraphRows, hl]
  exact cons_prefix_cons.mpr ⟨rfl, takeWhile_prefix _⟩

lemma length_paragraphRows (p : Text) : (unlines (paragraphRows p)).length ≤ p.length := by
  have hle := length_unlines_le (paragraphRows_begins p)
  rwa [unlines_splitOnChar] at hle

lemma paragraphRows_unlines (hl : '\n' ∉ l) (hls : ∀ x ∈ ls, '\n' ∉ x) :
    paragraphRows (unlines (l :: ls.map (margin ++ ·))) = l :: ls.map (margin ++ ·) := by
  have hlines : ∀ x ∈ l :: ls.map (margin ++ ·), '\n' ∉ x := by
    refine forall_mem_cons.mpr ⟨hl, fun x hx => ?_⟩
    obtain ⟨y, hy, rfl⟩ := mem_map.mp hx
    rw [mem_append, not_or]
    exact ⟨by decide, hls y hy⟩
  have hmargin : ∀ x ∈ ls.map (margin ++ ·), startsWith x margin := by
    intro x hx
    obtain ⟨y, -, rfl⟩ := mem_map.mp hx
    exact startsWith_iff.mpr (prefix_append _ _)
  rw [paragraphRows, unlines, splitOnChar_joinWith (by simp) hlines, tail_cons, takeWhile_eq_self_iff.mpr hmargin]
  rfl

lemma paragraphRows_eq_iff (hname : Word name) {ls : List Text} (h : ∀ x ∈ l :: ls, Row x ∧ x ≠ []) :
    paragraphRows (dropHints (paramTag name (' ' :: layOut margin (l :: ls)))) = paramRows name (l :: ls) ↔
      dropHints (unlines (paramRows name (l :: ls))) = unlines (paramRows name (l :: ls)) := by
  have hlay : paramTag name (' ' :: layOut margin (l :: ls)) = unlines (paramRows name (l :: ls)) := by
    rw [layOut_eq_hung margin fun x hx => ⟨(h x hx).1.trimmed, (h x hx).2⟩, unlines_paramRows]
  rw [hlay]
  constructor
  · intro heq
    have hle := length_paragraphRows (dropHints (unlines (paramRows name (l :: ls))))
    rw [heq] at hle
    exact (dropHints_sublist _).eq_of_length_le hle
  · intro heq
    obtain ⟨hl, hls⟩ := forall_mem_cons.mp h
    have hfirst : '\n' ∉ paramTag name (' ' :: l) := (flat_paramTag hname ((by decide : Flat [' ']).append hl.1.flat)).not_mem
    rw [heq]
    exact paragraphRows_unlines hfirst fun x hx => (hls x hx).1.flat.not_mem

/-- The line of a parameter carries what the comment gave: under the bare name it gave a text that holds no hint, or it gave nothing
under any key, or nothing but the mark of an open place. -/
def Carried (cs : List Clause) (name : Text) : Prop :=
  match givenUnder cs name with
  | some ls => ls ≠ [] ∧ dropHints (unlines (paramRows name ls)) = unlines (paramRows name ls)
  | none => description cs name = [] ∨ description cs name = [todo]

instance (cs : List Clause) (name : Text) : Decidable (Carried cs name) :=
  match h : givenUnder cs name with
  | some ls => decidable_of_iff (ls ≠ [] ∧ dropHints (unlines (paramRows name ls)) = unlines (paramRows name ls)) (by rw [Carried, h])
  | none => decidable_of_iff (description cs name = [] ∨ description cs name = [todo]) (by rw [Carried, h])

lemma length_paramTag (name t : Text) : (paramTag name t).length = paramMark.length + (name.length + t.length) :=
  length_append.trans (congrArg (paramMark.length + ·) length_append)

lemma paramTag_inj {u : Text} (h : paramTag name t = paramTag name u) : t = u := append_cancel_left (append_cancel_left h)

lemma paragraphRows_flat (h : Flat p) : paragraphRows p = [p] := by
  rw [paragraphRows, splitOnChar_of_not_mem h.not_mem]
  rfl

lemma rows_eq_iff (h : ∀ c ∈ cs, c.Proper) {name : Text} (hname : Word name) :
    paragraphRows (dropHints (paramTag name (' ' :: ((givenUnder cs name).map (layOut margin)).getD todo))) =
      paramRows name (description cs name) ↔ Carried cs name := by
  cases hg : givenUnder cs name with
  | some ls =>
    have hdescription : description cs name = ls := by rw [description, hg]; rfl
    have hcarried : Carried cs name ↔
        ls ≠ [] ∧ dropHints (unlines (paramRows name ls)) = unlines (paramRows name ls) := by rw [Carried, hg]
    rw [hdescription, hcarried, Option.map_some, Option.getD_some]
    cases ls with
    | nil =>
      -- Under the name stands no text: the line ends behind the name and is too short for the mark of an open place.
      refine iff_of_false (fun heq => ?_) fun hc => hc.1 rfl
      have hle := (length_paragraphRows _).trans (dropHints_sublist (paramTag name (' ' :: layOut margin []))).length_le
      have hrows : unlines (paramRows name []) = paramTag name (' ' :: todo) := rfl
      have hshort : (' ' :: layOut margin []).length < (' ' :: todo).length := by decide
      rw [heq, hrows, length_paramTag, length_paramTag] at hle
      omega
    | cons l ls =>
      rw [paragraphRows_eq_iff hname (mem_givenUnder h hg)]
      exact ⟨fun heq => ⟨cons_ne_nil _ _, heq⟩, And.right⟩
  | none =>
    have hcarried : Carried cs name ↔ description cs name = [] ∨ description cs name = [todo] := by rw [Carried, hg]
    have hkept : dropHints (' ' :: todo) = ' ' :: todo := by
      have hclosed : Closed (' ' :: todo) := by decide
      have happend := dropHints_append (b := ' ' :: todo) (by decide) hclosed []
      have hnil : dropHints [] = [] := rfl
      rwa [hnil, append_nil] at happend
    rw [hcarried, Option.map_none, Option.getD_none, dropHints_paramTag hname, hkept,
      paragraphRows_flat (flat_paramTag hname (by decide))]
    cases description cs name with
    | nil => exact iff_of_true rfl (Or.inl rfl)
    | cons l ls =>
      constructor
      · intro heq
        obtain ⟨hl, hls⟩ := List.cons.inj heq
        obtain ⟨-, rfl⟩ := List.cons.inj (paramTag_inj hl)
        rw [map_eq_nil_iff.mp hls.symm]
        exact .inr rfl
      · rintro (hnil | hone)
        · cases hnil
        · cases hone
          rfl

lemma flat_joinWith {sep : Text} (hsep : Flat sep) (h : ∀ l ∈ ls, Flat l) : Flat (joinWith sep ls) := by
  fun_induction joinWith sep ls with
  | case1 => simp [Flat]
  | case2 t => exact h t mem_cons_self
  | case3 t u r ih =>
    obtain ⟨ht, hr⟩ := forall_mem_cons.mp h
    exact (ht.append hsep).append (ih hr)

lemma head_paragraphRows (hname : Word name) (t : Text) :
    ∃ l, (paragraphRows (dropHints (paramTag name t))).head? = some l ∧ paramTag name [] <+: l := by
  rw [dropHints_paramTag hname]
  obtain ⟨l, ls, hsplit, -, hl, -⟩ := splitOnChar_lines (paramTag name (dropHints t))
  have hflat : '\n' ∉ paramTag name [] := (flat_paramTag hname (by simp [Flat])).not_mem
  have hbegin : paramTag name [] <+: paramTag name (dropHints t) := ⟨dropHints t, paramTag_append name [] _⟩
  exact ⟨l, by rw [paragraphRows, hsplit]; rfl, hl _ hflat hbegin⟩

/-- The comment composed for a function with a Doxygen comment has one line for each parameter, in the order of the signature, and
the line of a parameter says what the comment gave of it exactly when this is carried. -/
theorem compose_paramRows_iff {f : Source.Function} {cs : List Clause} {qs : List Parameter} (hname : Flat f.name)
    (hdoxygen : f.isDoxygen = true) (hcomment : f.comment = commentOf cs) (hcs : ∀ c ∈ cs, c.Proper)
    (hparams : f.params = joinWith ", " (qs.map Parameter.text)) (hqs : ∀ q ∈ qs, q.Proper) :
    ∃ (text : Text) (rows : Text → List Text), compose (Entry.ofFunction f) = .ok text ∧
      paramRowsIn text.lines = qs.map (fun q => rows q.name) ∧
      ∀ q ∈ qs, (∃ l, (rows q.name).head? = some l ∧ paramTag q.name [] <+: l) ∧
        (rows q.name = paramRows q.name (description cs q.name) ↔ Carried cs q.name) := by
  have htrim : trim (commentOf cs) = commentOf cs := trim_block _
  have hne : commentOf cs ≠ [] := List.cons_ne_nil _ _
  have hparamsOf : (Entry.ofFunction f).params.getD [] = joinWith ", " (qs.map Parameter.text) := hparams
  have hdocumented : documented ((Entry.ofFunction f).params.getD []) = qs.map Parameter.text := by
    rw [hparamsOf, documented_joinWith hqs]
  have hone : OneLine (Entry.ofFunction f) := by
    refine ⟨hname, ?_⟩
    rw [hparamsOf]
    refine flat_joinWith (by decide) fun p hp => ?_
    obtain ⟨q, hq, rfl⟩ := List.mem_map.mp hp
    exact (hqs q hq).flat.append (hqs q hq).word.flat
  have hdocs : (saidOf (Entry.ofFunction f)).params = (Parts.ofLines (bodyLines (commentOf cs))).texts.params := by
    have hsaid : saidOf (Entry.ofFunction f) = saidBy f.name (commentOf cs) true := by
      have hdef : saidOf (Entry.ofFunction f) = saidBy f.name (trim f.comment) f.isDoxygen := rfl
      rw [hdef, hcomment, htrim, hdoxygen]
    rw [hsaid, saidBy_doxygen hne]
    split <;> rfl
  have hplain : ∀ p ∈ documented ((Entry.ofFunction f).params.getD []), paramName p ≠ [] ∧ hints p = [] := by
    rw [hdocumented]
    intro p hp
    obtain ⟨q, hq, rfl⟩ := List.mem_map.mp hp
    rw [(hqs q hq).paramName]
    exact ⟨(hqs q hq).word.nonempty, (hqs q hq).hints⟩
  have htrimmed : trim ((Entry.ofFunction f).comment.getD []) ≠ [] := by
    have hdef : (Entry.ofFunction f).comment.getD [] = f.comment := rfl
    rw [hdef, hcomment, htrim]
    exact hne
  have hlines := paramRowsIn_lines hone (congrArg some hdoxygen) htrimmed hplain
  refine ⟨_, fun name => paragraphRows (dropHints (paramTag name (' ' :: ((givenUnder cs name).map (layOut margin)).getD todo))),
    compose_ofFunction f, ?_, fun q hq => ⟨head_paragraphRows (hqs q hq).word _, rows_eq_iff hcs (hqs q hq).word⟩⟩
  rw [hlines, hdocumented, List.map_map]
  refine List.map_congr_left fun q hq => ?_
  have hn := (hqs q hq).paramName
  rw [Function.comp_apply, paramLine, (hqs q hq).hints, List.append_nil, hn, hdocs, docText_commentOf hcs]

/-- A comment that describes one parameter over two lines and another under its name with a star. -/
def signedClauses : List Clause :=
  [⟨.other "@brief copies", []⟩, ⟨.param " " [] "n" " how many", ["  of them"]⟩, ⟨.param " " "*" "source" " where from", []⟩]

/-- The parameters that `signedClauses` are about. -/
def signedParams : List Parameter := [⟨"char *", "source"⟩, ⟨"int ", "n"⟩]

def signedFunction : Source.Function :=
  ⟨"copy", "void", "char *source, int n", false, commentOf signedClauses, true, [], 0, 1, false, none⟩

/-- Both parameters have their line in the order of the signature; what was said under the bare name is said again, and what was said
under the name with a star is not. -/
theorem signed_paramRows :
    (∀ c ∈ signedClauses, c.Proper) ∧ (∀ q ∈ signedParams, q.Proper) ∧
      ∃ (text : Text) (rows : Text → List Text), compose (Entry.ofFunction signedFunction) = .ok text ∧
        paramRowsIn text.lines = [rows "source", rows "n"] ∧
        rows "n" = [" * @param n how many".toList, " *        of them".toList] ∧
        rows "source" ≠ [" * @param source where from".toList] := by
  have hcs : ∀ c ∈ signedClauses, c.Proper := by
    simp only [signedClauses, List.forall_mem_cons]
    refine ⟨⟨⟨by decide, by decide, fun hp => absurd hp (by decide)⟩, by simp⟩, ⟨⟨⟨by decide, by decide, by decide⟩, by decide, by decide, by decide, ?_⟩, ?_⟩,
      ⟨⟨⟨by decide, by decide, by decide⟩, by decide, by decide, by decide, ?_⟩, by simp⟩, by simp⟩
    · rintro c ⟨⟩
      decide
    · exact List.forall_mem_singleton.mpr ⟨by decide, by decide, by decide⟩
    · rintro c ⟨⟩
      decide
  have hqs : ∀ q ∈ signedParams, q.Proper := by
    simp only [signedParams, List.forall_mem_cons]
    refine ⟨⟨by decide, by decide, by decide, ?_, ?_, by decide, by decide, by decide⟩,
      ⟨by decide, by decide, by decide, ?_, ?_, by decide, by decide, by decide⟩, by simp⟩
    all_goals
      rintro c ⟨⟩
      decide
  obtain ⟨text, rows, htext, hrows, hiff⟩ :=
    compose_paramRows_iff (f := signedFunction) (by decide) rfl rfl hcs (by decide : _ = joinWith ", " (signedParams.map _)) hqs
  refine ⟨hcs, hqs, text, rows, htext, hrows, ?_, ?_⟩
  · exact (hiff ⟨"int ", "n"⟩ (by simp [signedParams])).2.mpr (by decide)
  · intro hsource
    exact absurd ((hiff ⟨"char *", "source"⟩ (by simp [signedParams])).2.mp hsource) (by decide)

def starredFunction : Source.Function :=
  ⟨"f", "void", "int *a", false, "/**\n * @brief b\n * @param *a the value\n */", true, [], 0, 1, false, none⟩

/-- What is said under a name with a star is replaced by the mark of an open place. -/
theorem starred_description_lost :
    starredFunction.comment = commentOf [⟨.other "@brief b", []⟩, ⟨.param " " "*" "a" " the value", []⟩] ∧
      compose (Entry.ofFunction starredFunction) = .ok "/**\n * @brief b\n * @param a TODO\n */".toList := by
  decide

end FunctionDocs.DocBlock
