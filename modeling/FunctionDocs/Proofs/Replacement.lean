import FunctionDocs.Proofs.Headers

/-!
# Documentation and the code

The documentation of an entry takes the place of its header. It is one block comment if the closing mark stands only at its end;
put outside of comments it then adds no code, and the blank lines that it takes the place of hold none. So documentation keeps
the code exactly if the header that gave way to it took none with it.
-/

open List

namespace FunctionDocs.Header

open Text Code DocBlock

variable {ls ls' : List Text} {i : Int} {e : Entry}

/-! ## Documentation -/

/-- The entry has a comment made of paragraphs. -/
def Documented (e : Entry) : Prop := ∃ ps, e.doxygen = some (some (block ps)) ∧ ∀ p ∈ ps, Fed p

lemma documented_of_document {content file : Text} {fs : List Source.Function} {es : List Entry}
    (hfound : Source.functionsOf content file = .ok fs) (h : (fs.map Entry.ofFunction).mapM document = .ok es) :
    ∀ e ∈ es, Documented e := by
  intro e he
  obtain ⟨x, hx, hdocument⟩ := mem_of_mapM_ok h e he
  obtain ⟨f, hf, rfl⟩ := mem_map.mp hx
  obtain ⟨hname, hparams⟩ := Source.functionsOf_flat hfound f hf
  have hone : OneLine (.ofFunction f) := ⟨hname, hparams⟩
  rw [document, compose_ofFunction] at hdocument
  cases hdocument
  exact ⟨_, rfl, fun p hp => (mem_paragraphs hone p hp).1.fed⟩

lemma silent_block {ps : List Text} (hfed : ∀ p ∈ ps, Fed p) (h : NoClose (block ps).dropLast) : Silent (block ps).lines := by
  have hshape : block ps = "/*" ++ ('*' :: below ps ++ "\n ") ++ "*/" := by simp [block]
  have hbody : ¬"*/".toList <:+: '*' :: below ps ++ "\n " ++ ['*'] := by
    refine h.not_mem ⟨"/*", [], ?_⟩
    rw [hshape, dropLast_append_of_ne_nil (by decide)]
    simp
  have hscan : scan .plain (block ps) = ([], .plain) := by
    rw [hshape]
    exact scan_comment hbody
  rw [Silent, scanLines]
  rcases feed_lines (fed_block hfed) with hfeed | hfeed
  · rw [hfeed, hscan]
  · rw [hfeed, scan_append, hscan]
    rfl

/-! ## Putting documentation in place -/

/-- The lines with a text put at a position, behind a gap and in place of the blank lines there. -/
def putDoc (ls : List Text) (i : Int) (doc : Text) : Except Failure (List Text) := do
  let gap : List Text :=
    if 2 ≤ i && isFilled ls (i - 2) then [[], []]
    else if 1 ≤ i && isFilled ls (i - 1) then [[]]
    else []
  let comment := gap ++ doc.lines
  let ls := itemsBefore ls i ++ comment ++ itemsFrom ls i
  let after := i + Int.ofNat comment.length
  let next ← skipBlankFrom ls (ls.length + 1) after
  return itemsBefore ls after ++ itemsFrom ls next

lemma skipBlankFrom_split {fuel : Nat} {next : Int} (hi : 0 ≤ i)
    (h : skipBlankFrom ls fuel i = .ok next) : ∃ bs, (∀ l ∈ bs, isBlankLine l) ∧ itemsFrom ls i = bs ++ itemsFrom ls next := by
  induction fuel generalizing i with
  | zero =>
    cases h
    exact ⟨[], by simp, rfl⟩
  | succ fuel ih =>
    rw [skipBlankFrom] at h
    split at h
    · obtain ⟨l, hl, h⟩ := ok_of_bind_ok h
      split at h
      next hblank =>
        obtain ⟨bs, hbs, hrest⟩ := ih (by omega) h
        have hfirst : itemsFrom ls i = l :: itemsFrom ls (i + 1) := by
          rw [Source.lineAt, itemAt?, if_pos hi] at hl
          rw [itemsFrom, itemsFrom, cutPoint, cutPoint, if_pos hi, if_pos (by omega), Int.toNat_add hi (by omega)]
          cases hget : ls[i.toNat]? with
          | none => rw [hget] at hl; cases hl
          | some m =>
            rw [hget] at hl
            cases hl
            obtain ⟨hlt, rfl⟩ := List.getElem?_eq_some_iff.mp hget
            exact drop_eq_getElem_cons hlt
        exact ⟨l :: bs, forall_mem_cons.mpr ⟨hblank, hbs⟩, by rw [hfirst, hrest]; rfl⟩
      · cases h
        exact ⟨[], by simp, rfl⟩
    · cases h
      exact ⟨[], by simp, rfl⟩

lemma shrinks_dropBlank {a bs c : List Text} (hbs : ∀ l ∈ bs, isBlankLine l) (hflat : ∀ l ∈ a ++ bs ++ c, Flat l) :
    Shrinks True (a ++ bs ++ c) (a ++ c) := by
  have hblank := scanLines_blank (atLine_scanLines (.inl rfl) a) hbs
  have hsame : scanLines .plain (a ++ c) = scanLines .plain (a ++ bs ++ c) := by
    rw [scanLines_append, scanLines_append, scanLines_append, hblank, append_nil]
  refine ⟨by rw [hsame], iff_true_intro (by rw [hsame]), fun l hl => hflat l ?_⟩
  rcases mem_append.mp hl with hl | hl <;> simp [hl]

lemma shrinks_putDoc {doc : Text} (hi : -1 ≤ i) (hne : doc.lines ≠ [])
    (houtside : Outside (itemsBefore ls i)) (hdoc : Silent doc.lines) (hflat : ∀ l ∈ ls, Flat l)
    (h : putDoc ls i doc = .ok ls') : Shrinks True ls ls' := by
  rw [putDoc] at h
  generalize hgap : (if (2 ≤ i && isFilled ls (i - 2)) = true then [[], []]
    else if (1 ≤ i && isFilled ls (i - 1)) = true then [[]] else ([] : List Text)) = gap at h
  have hempty : ∀ l ∈ gap, l = [] := by
    rw [← hgap]
    split
    · simp
    · split <;> simp
  obtain ⟨next, hnext, h⟩ := ok_of_bind_ok h
  cases h
  have hwhole : ls = itemsBefore ls i ++ [] ++ itemsFrom ls i := by
    rw [append_nil]
    exact (take_append_drop _ _).symm
  have hcomment : Silent (gap ++ doc.lines) := (silent_blank fun l hl => by rw [hempty l hl]; rfl).append hdoc
  have hput := @shrinks_silent (itemsBefore ls i) [] (gap ++ doc.lines) (itemsFrom ls i) houtside rfl hcomment (fun l hl => ?_)
  · rw [← hwhole] at hput
    have hafter : 0 ≤ i + .ofNat (gap ++ doc.lines).length := by
      have hlength : 0 < (gap ++ doc.lines).length := by
        rw [length_append]
        have := length_pos_iff.mpr hne
        omega
      simp only [Int.ofNat_eq_natCast]
      omega
    obtain ⟨bs, hbs, hsplit⟩ := skipBlankFrom_split hafter hnext
    generalize itemsBefore ls i ++ (gap ++ doc.lines) ++ itemsFrom ls i = mid at *
    generalize i + .ofNat (gap ++ doc.lines).length = after at *
    have hmid : mid = itemsBefore mid after ++ bs ++ itemsFrom mid next := by
      rw [append_assoc, ← hsplit]
      exact (take_append_drop _ _).symm
    have hdrop := @shrinks_dropBlank (itemsBefore mid after) bs (itemsFrom mid next) hbs (by rw [← hmid]; exact hput.flat)
    rw [← hmid] at hdrop
    exact (hput.trans hdrop).congr (iff_of_eq (and_self True))
  · simp only [mem_append] at hl
    rcases hl with (hl | hl | hl) | hl
    · exact hflat l (mem_of_mem_take hl)
    · rw [hempty l hl]
      simp [Flat]
    · exact (mem_lines hl).2
    · exact hflat l (mem_of_mem_drop hl)

/-! ## The documentation of an entry -/

/-- Where the documentation of an entry goes. -/
structure Replacement where
  /-- The position below the header that gives way, if there is one. -/
  old : Option Int
  /-- The lines without this header. -/
  lines : List Text
  place : Int
  doc : Text

/-- What the documentation of an entry needs; `none` if its function is not found. -/
def replacement (ls : List Text) (e : Entry) : Except Failure (Option Replacement) := do
  let name ← e.name!
  let params ← e.params!
  let count ← e.count!
  let start ← lineOf ls name params count .subtraction
  if start = -1 then return none
  let hadHeader ← headerExists ls start
  let left ← if hadHeader then removeHeader ls start else pure ls
  let again := (Source.locate (unlines left) name (some params) count).index?
  let doc ← match ← require "doxygen" e.doxygen with
    | some t => pure t
    | none => .error (.noOperation "NoneType" "splitlines")
  let place ← match (if hadHeader then again else some start) with
    | some i => pure i
    | none => .error (.unplaced .comparison)
  return some ⟨if hadHeader then some start else none, left, insertionPoint left place, doc⟩

lemma replaceFor_eq (ls : List Text) (e : Entry) :
    replaceFor ls e = replacement ls e >>= fun r? =>
      match r? with
      | none => .ok ls
      | some r => putDoc r.lines r.place r.doc := by
  rw [replacement]
  simp only [bind_assoc]
  refine bind_congr fun name => bind_congr fun params => bind_congr fun count => bind_congr fun start => ?_
  by_cases hstart : start = -1
  · rw [if_pos hstart, if_pos hstart]
    rfl
  · rw [if_neg hstart, if_neg hstart]
    simp only [bind_assoc]
    refine bind_congr fun had => ?_
    cases had with
    | false =>
      cases require "doxygen" e.doxygen with
      | error f => rfl
      | ok doc => cases doc <;> rfl
    | true =>
      simp only [if_true, bind_assoc]
      refine bind_congr fun left => bind_congr fun doc => ?_
      cases doc with
      | none => rfl
      | some t =>
        cases (Source.locate (unlines left) name (some params) count).index? <;> rfl

lemma insertionPoint_ge {start : Int} (h : -1 ≤ start) : -1 ≤ insertionPoint ls start := by
  rw [insertionPoint]
  split
  · have hlength := (takeWhile_sublist isBlankLine (l := (ls.take start.toNat).reverse)).length_le
    rw [length_reverse, length_take] at hlength
    simp only [Int.ofNat_eq_natCast]
    omega
  · exact h

/-- What is found of an entry: the header that gives way and the lines without it, a position in these, and its comment. -/
lemma replacement_some {r : Replacement} (h : replacement ls e = .ok (some r)) :
    (r.old = none ∧ r.lines = ls ∨ ∃ start, r.old = some start ∧ removeHeader ls start = .ok r.lines) ∧ -1 ≤ r.place ∧
      e.doxygen = some (some r.doc) := by
  have hindex : ∀ {s : Source.Sighting} {i : Int}, s.index? = some i → -1 ≤ i := by
    intro s i hi
    cases s with
    | line n => cases hi; omega
    | nowhere => cases hi; omega
    | unplaced => cases hi
  obtain ⟨name, -, h⟩ := ok_of_bind_ok h
  obtain ⟨params, -, h⟩ := ok_of_bind_ok h
  obtain ⟨count, -, h⟩ := ok_of_bind_ok h
  obtain ⟨start, hstart, h⟩ := ok_of_bind_ok h
  have hfrom : -1 ≤ start := by
    rw [lineOf] at hstart
    split at hstart
    next i hi =>
      cases hstart
      exact hindex hi
    · cases hstart
  split at h
  · cases h
  · obtain ⟨had, -, h⟩ := ok_of_bind_ok h
    have hrequire : ∀ {d : Option Text}, require "doxygen" e.doxygen = .ok d → e.doxygen = some d := by
      intro d hd
      cases hg : e.doxygen with
      | none => rw [hg] at hd; cases hd
      | some g => rw [hg] at hd; cases hd; rfl
    cases had with
    | false =>
      obtain ⟨left, hleft, h⟩ := ok_of_bind_ok h
      obtain ⟨d, hd, h⟩ := ok_of_bind_ok h
      cases hleft
      cases d with
      | none => cases h
      | some t =>
        cases h
        exact ⟨Or.inl ⟨rfl, rfl⟩, insertionPoint_ge hfrom, hrequire hd⟩
    | true =>
      obtain ⟨left, hleft, h⟩ := ok_of_bind_ok h
      obtain ⟨d, hd, h⟩ := ok_of_bind_ok h
      cases d with
      | none => cases h
      | some t =>
        dsimp only at h
        cases hagain : (Source.locate (unlines left) name (some params) count).index? with
        | none => rw [hagain] at h; cases h
        | some i =>
          rw [hagain] at h
          cases h
          exact ⟨Or.inr ⟨start, rfl, hleft⟩, insertionPoint_ge (hindex hagain), hrequire hd⟩

/-- The documentation of an entry is put outside of comments and does not end before its end, and the header that gives way
begins and ends outside of comments. -/
def ReplacePlaced (ls : List Text) (e : Entry) : Prop :=
  Then (replacement ls e) fun r? => ∀ r ∈ r?, (∀ start ∈ r.old, RemovePlaced ls start) ∧
    Outside (itemsBefore r.lines r.place) ∧ NoClose r.doc.dropLast
  deriving Decidable

/-- The header that gives way to the documentation of an entry takes no code with it. -/
def ReplaceClean (ls : List Text) (e : Entry) : Prop :=
  Then (replacement ls e) fun r? => ∀ r ∈ r?, ∀ start ∈ r.old, RemoveClean ls start
  deriving Decidable

lemma shrinks_replaceFor (hdoc : Documented e) (hflat : ∀ l ∈ ls, Flat l)
    (hplaced : ReplacePlaced ls e) (h : replaceFor ls e = .ok ls') : Shrinks (ReplaceClean ls e) ls ls' := by
  rw [replaceFor_eq] at h
  obtain ⟨r?, hr, h⟩ := ok_of_bind_ok h
  have hclean : ReplaceClean ls e ↔ ∀ r ∈ r?, ∀ start ∈ r.old, RemoveClean ls start := Then.of_ok hr
  replace hplaced := (Then.of_ok hr).mp hplaced
  cases r? with
  | none =>
    cases h
    exact (Shrinks.refl hflat).congr (iff_of_true trivial (hclean.mpr (by simp)))
  | some r =>
    obtain ⟨hremove, houtside, hclose⟩ := hplaced r rfl
    obtain ⟨hold, hplace, hdoxygen⟩ := replacement_some hr
    obtain ⟨ps, hps, hfed⟩ := hdoc
    have hblock : r.doc = block ps := Option.some.inj (Option.some.inj (hdoxygen.symm.trans hps))
    have hne : r.doc.lines ≠ [] := by
      rw [hblock, lines_block hfed]
      simp
    have hsilent : Silent r.doc.lines := by
      rw [hblock] at hclose ⊢
      exact silent_block hfed hclose
    have hleft : Shrinks (∀ start ∈ r.old, RemoveClean ls start) ls r.lines := by
      rcases hold with ⟨hnone, hsame⟩ | ⟨start, hsome, hcut⟩
      · rw [hnone, hsame]
        exact (Shrinks.refl hflat).congr (by simp)
      · rw [hsome] at hremove ⊢
        exact (shrinks_removeHeader hcut hflat (hremove start rfl)).congr (by simp)
    have hput := shrinks_putDoc hplace hne houtside hsilent hleft.flat h
    refine (hleft.trans hput).congr ?_
    rw [hclean]
    simp

end FunctionDocs.Header
