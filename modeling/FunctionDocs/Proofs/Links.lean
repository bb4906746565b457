import FunctionDocs.Proofs.Heads
import FunctionDocs.Proofs.Reports

/-!
# Links of the page

A link of the table of contents and the heading of a section are told by the name of the function. No name that is found in a source
text holds a quote, so the attributes are read back as they were put in. The links lead to the headings in order, but functions that
share a name, such as overloads, share their target as well.
-/

open List

namespace FunctionDocs

/-- The entry of a function, wherever the function stands and whether it is documented or not. -/
def Entry.Reports (e : Entry) (f : Source.Function) : Prop :=
  ∃ (line : Int) (doc : Option Text), e = { Entry.ofFunction f with startLine := some line, doxygen := doc.map some }

namespace Source

open Text Pattern

variable {x : Text}

/-! ## Names without quotes -/

lemma quote_not_mem_of_nameChars (h : ∀ d ∈ x, isNameChar d) : '\'' ∉ x := fun hquote => absurd (h _ hquote) (by decide)

lemma quote_not_mem_functionName (h : functionName.Takes x) : '\'' ∉ x := by
  rcases h with hplain | ⟨_, _, rfl, rfl, b, s, rfl, ⟨-, hb⟩, -, hs⟩
  · exact quote_not_mem_of_nameChars (isNameChar_of_takes_plainName hplain)
  · simp only [mem_append, not_or]
    exact ⟨by decide, fun hquote => absurd (hb _ hquote) (by decide), fun hquote => absurd (hs _ hquote) (by decide)⟩

lemma quote_not_mem_readHead {line : Text} {below : List Joined} {h : Head} (hread : readHead line below = .ok (some h)) :
    '\'' ∉ h.name := by
  rcases readHead_cases hread with hhead | ⟨-, hhead⟩
  · obtain ⟨m, hm, rfl⟩ := Option.map_eq_some_iff.mp hhead
    obtain ⟨c, -, hc⟩ := constructorHead_untyped hm
    rw [hc.namePart]
    exact quote_not_mem_of_nameChars (isNameChar_of_takes_constructorName hc.name)
  · obtain ⟨m, hm, rfl⟩ := Option.map_eq_some_iff.mp hhead
    obtain ⟨c, -, hc⟩ := functionHead_typed hm
    rw [hc.namePart]
    exact quote_not_mem_functionName hc.name

lemma quote_not_mem_name {content file : Text} {fs : List Function} (h : functionsOf content file = .ok fs) :
    ∀ f ∈ fs, '\'' ∉ f.name := by
  refine functionsOf_induct (fun fs => ∀ f ∈ fs, '\'' ∉ f.name) (forall_mem_nil _) ?_ h
  rintro before f hb ⟨j, -, pending, below, head, hhead, hf⟩
  obtain ⟨comment, -, rfl⟩ := Sheet.function_ok hf
  exact forall_mem_append.mpr ⟨hb, forall_mem_singleton.mpr (quote_not_mem_readHead hhead)⟩

end Source

namespace Report.Html

open Text

variable {e : Entry} {f : Source.Function} {opening piece : Text} {name : Text} {c : Char} {fs : List Source.Function}
  {es : List Entry}

/-! ## Attributes of a page -/

/-- The text between an opening and the next quote, if the piece begins with the opening. -/
def quoted (opening piece : Text) : Option Text :=
  if opening.isPrefixOf piece then some ((piece.drop opening.length).takeWhile (· != '\'')) else none

/-- The texts in quotes behind an opening, in the pieces of a document. -/
def attributes (opening : Text) (d : Draft) : List Text := d.filterMap fun p => p.toOption.bind (quoted opening)

def linkOpening : Text := "<li><a href='#"

def headingOpening : Text := "
        <div style='display: flex; align-items: center; justify-content: space-between; margin-top: 15px;'>
            <h2 id='"

/-- The targets of the links, in order. -/
def linkTargets (d : Draft) : List Text := attributes linkOpening d

/-- The ids of the headings, in order. -/
def headingIds (d : Draft) : List Text := attributes headingOpening d

lemma quoted_append {rest : Text} (hname : '\'' ∉ name) (hrest : rest.head? = some '\'') (opening : Text) :
    quoted opening (opening ++ (name ++ rest)) = some name := by
  have hprefix : opening.isPrefixOf (opening ++ (name ++ rest)) := isPrefixOf_iff_prefix.mpr (prefix_append _ _)
  obtain ⟨r, rfl⟩ := head?_eq_some_iff.mp hrest
  rw [quoted, if_pos hprefix, drop_left, (span_ne hname r).1]

lemma quoted_eq_none {d : Char} (i : Nat) (ho : opening[i]? = some c) (hp : piece[i]? = some d) (hne : c ≠ d) :
    quoted opening piece = none := by
  refine if_neg fun hprefix => hne ?_
  obtain ⟨rest, rfl⟩ := isPrefixOf_iff_prefix.mp hprefix
  obtain ⟨hi, -⟩ := List.getElem?_eq_some_iff.mp ho
  rw [getElem?_append_left hi, ho] at hp
  exact Option.some.inj hp

/-- A character of a text that is given as a literal, which need not be decoded for it. -/
lemma getElem_literal {l : List Char} {i : Nat} (h : l[i]? = some c) : (String.ofList l).toList[i]? = some c := by
  rw [String.toList_ofList, h]

lemma attributes_append (opening : Text) (a b : Draft) : attributes opening (a ++ b) = attributes opening a ++ attributes opening b :=
  filterMap_append

lemma attributes_some (h : quoted opening piece = some name) : attributes opening [.ok piece] = [name] := filterMap_cons_some h

lemma attributes_none (h : quoted opening piece = none) (d : Draft) :
    attributes opening (.ok piece :: d) = attributes opening d :=
  filterMap_cons_none h

/-! ## The page of the functions of a text -/

lemma markerOf_reports (h : e.Reports f) (highlight : Bool) : ∃ marker, markerOf highlight e = .ok marker := by
  obtain ⟨line, doc, rfl⟩ := h
  cases doc with
  | none => exact markerOf_ok rfl highlight
  | some t => exact markerOf_ok rfl highlight

lemma name_reports (h : e.Reports f) : e.name! = .ok f.name := by
  obtain ⟨line, doc, rfl⟩ := h
  rfl

lemma tocLine_reports (h : e.Reports f) (highlight : Bool) :
    ∃ rest, rest.head? = some '\'' ∧ tocLine highlight e = .ok (linkOpening ++ (f.name ++ rest)) := by
  obtain ⟨marker, hmarker⟩ := markerOf_reports h highlight
  refine ⟨"'>" ++ ?more, rfl, ?shown⟩
  case shown =>
    unfold tocLine linkOpening
    rw [hmarker, name_reports h]
    simp only [append_assoc]
    rfl

lemma heading_reports (h : e.Reports f) (marker : Marker) :
    ∃ rest, rest.head? = some '\'' ∧ heading marker e = .ok (headingOpening ++ (f.name ++ rest)) := by
  refine ⟨"' style='margin: 0; " ++ ?more, rfl, ?shown⟩
  case shown =>
    unfold heading headingOpening
    rw [name_reports h]
    simp only [append_assoc]
    rfl

lemma linkTargets_toc (h : List.Forall₂ (fun f e => e.Reports f) fs es)
    (hquote : ∀ f ∈ fs, '\'' ∉ f.name) (highlight : Bool) : linkTargets (toc highlight es) = fs.map (·.name) := by
  have hlines : attributes linkOpening (es.map (tocLine highlight)) = fs.map (·.name) := by
    induction h with
    | nil => rfl
    | cons he _ ih =>
      obtain ⟨hhere, hrest⟩ := forall_mem_cons.mp hquote
      obtain ⟨rest, hend, hline⟩ := tocLine_reports he highlight
      rw [map_cons, ← singleton_append, attributes_append, hline, attributes_some (quoted_append hhere hend _), ih hrest]
      rfl
  have hfront : quoted linkOpening "\n    <h2>📚 Table of Content</h2>\n    <ul class=\"toc\">\n" = none :=
    quoted_eq_none 0 (getElem_literal rfl) (getElem_literal rfl) (by decide)
  have hback : quoted linkOpening "</ul>\n" = none := quoted_eq_none 1 (getElem_literal rfl) (getElem_literal rfl) (by decide)
  rw [linkTargets, toc, attributes_append, attributes_append, hlines, attributes_none hfront, attributes_none hback]
  exact append_nil _

set_option maxRecDepth 2000 in
lemma openings_apart : headingOpening[0]? = some '\n' ∧ headingOpening[9]? = some '<' ∧ warning[9]? = some ' ' :=
  ⟨getElem_literal rfl, getElem_literal rfl, getElem_literal rfl⟩

lemma headingIds_tag (h : piece[0]? = some '<') (d : Draft) : headingIds (.ok piece :: d) = headingIds d :=
  attributes_none (quoted_eq_none 0 openings_apart.1 h (by decide)) d

lemma headingIds_comment (i : Nat) (e : Entry) (comment : Text) : headingIds (commentPieces i e comment) = [] := by
  unfold commentPieces Draft.needing
  cases fileNote e with
  | error f => rfl
  | ok note =>
    rw [headingIds_tag rfl, headingIds_tag rfl]
    rfl

lemma headingIds_warning : headingIds [.ok warning] = [] :=
  attributes_none (quoted_eq_none 9 openings_apart.2.1 openings_apart.2.2 (by decide)) []

lemma headingIds_signature (e : Entry) : headingIds [signature e] = [] := by
  unfold signature
  cases e.returnType! with
  | error f => rfl
  | ok returnType =>
    cases e.name! with
    | error f => rfl
    | ok name =>
      cases e.params! with
      | error f => rfl
      | ok params => exact headingIds_tag rfl []

lemma headingIds_function (h : e.Reports f) (hquote : '\'' ∉ f.name) (highlight : Bool) (i : Nat) :
    headingIds (functionPieces highlight i e) = [f.name] := by
  obtain ⟨marker, hmarker⟩ := markerOf_reports h highlight
  obtain ⟨rest, hend, hheading⟩ := heading_reports h marker
  have hfirst : headingIds [heading marker e] = [f.name] := by
    rw [hheading]
    exact attributes_some (quoted_append hquote hend _)
  have hwarning : headingIds (if marker = .pending then [.ok warning] else []) = [] := by
    split
    · exact headingIds_warning
    · rfl
  unfold functionPieces Draft.needing
  rw [hmarker]
  rw [headingIds, attributes_append, attributes_append, attributes_append]
  change headingIds _ ++ headingIds _ ++ headingIds _ ++ headingIds _ = _
  rw [hfirst, hwarning, headingIds_signature]
  split
  · split
    · rfl
    · rw [headingIds_comment]
      rfl
  · rfl

lemma headingIds_functionsFrom (h : Forall₂ (fun f e => e.Reports f) fs es)
    (hquote : ∀ f ∈ fs, '\'' ∉ f.name) (highlight : Bool) (i : Nat) :
    headingIds (functionsFrom highlight i es) = fs.map (·.name) := by
  induction h generalizing i with
  | nil => rfl
  | cons he _ ih =>
    obtain ⟨hhere, hrest⟩ := forall_mem_cons.mp hquote
    have hids := headingIds_function he hhere highlight i
    rw [headingIds] at hids ⊢
    rw [functionsFrom, attributes_append, hids]
    exact congrArg (cons _) (ih hrest (i + 1))

/-- The links of the functions of a text lead to their headings in order. Each leads to its own heading only, exactly if no two
functions share a name. -/
theorem links_own_heading_iff {content file : Text} {fs : List Source.Function} {es : List Entry}
    (hfs : Source.functionsOf content file = .ok fs) (hes : List.Forall₂ (fun f e => e.Reports f) fs es) (highlight : Bool) :
    linkTargets (toc highlight es) = fs.map (·.name) ∧ headingIds (functions highlight es) = fs.map (·.name) ∧
      ((∀ i j, i < fs.length → j < fs.length →
          ((linkTargets (toc highlight es))[i]? = (headingIds (functions highlight es))[j]? ↔ i = j)) ↔
        (fs.map (·.name)).Nodup) := by
  have hquote := Source.quote_not_mem_name hfs
  have htargets := linkTargets_toc hes hquote highlight
  have hids : headingIds (functions highlight es) = fs.map (·.name) := headingIds_functionsFrom hes hquote highlight 0
  refine ⟨htargets, hids, ?_⟩
  rw [htargets, hids, List.nodup_iff_getElem?_ne_getElem?, List.length_map]
  constructor
  · intro hown i j hij hj heq
    exact absurd ((hown i j (hij.trans hj) hj).mp heq) (Nat.ne_of_lt hij)
  · intro hapart i j hi hj
    refine ⟨fun heq => ?_, fun hij => by rw [hij]⟩
    rcases Nat.lt_trichotomy i j with hij | hij | hij
    · exact absurd heq (hapart i j hij hj)
    · exact hij
    · exact absurd heq.symm (hapart j i hij hi)

def apartText : Text := "int f(int a) \x7b\n\x7d\nint A::f(int a) \x7b\n\x7d\n"

/-- The functions of `apartText`. -/
def apartFunctions : List Source.Function :=
  [⟨"f", "int", "int a", false, [], false, [], 0, 1, false, none⟩, ⟨"A::f", "int", "int a", false, [], false, [], 2, 1, false, none⟩]

theorem apart_links :
    Source.functionsOf apartText [] = .ok apartFunctions ∧
      ∀ i j, i < 2 → j < 2 → ((linkTargets (toc true (apartFunctions.map Entry.ofFunction)))[i]? =
        (headingIds (functions true (apartFunctions.map Entry.ofFunction)))[j]? ↔ i = j) :=
  have hfound : Source.functionsOf apartText [] = .ok apartFunctions := by decide
  ⟨hfound, (links_own_heading_iff hfound (.cons ⟨0, none, rfl⟩ (.cons ⟨2, none, rfl⟩ .nil)) true).2.2.mpr (by decide)⟩

def overloadText : Text := "int f(int a) \x7b\n\x7d\nint f(double a) \x7b\n\x7d\n"

/-- The functions of `overloadText`. -/
def overloads : List Source.Function :=
  [⟨"f", "int", "int a", false, [], false, [], 0, 1, false, none⟩, ⟨"f", "int", "double a", false, [], false, [], 2, 1, false, none⟩]

/-- The link of the first overload has the heading of the second one as its target, too. -/
theorem overloads_share_target :
    Source.functionsOf overloadText [] = .ok overloads ∧
      (linkTargets (toc true (overloads.map Entry.ofFunction)))[0]? = (headingIds (functions true (overloads.map Entry.ofFunction)))[1]? := by
  have hfound : Source.functionsOf overloadText [] = .ok overloads := by decide
  have hquote := Source.quote_not_mem_name hfound
  have hentries : List.Forall₂ (fun f e => e.Reports f) overloads (overloads.map Entry.ofFunction) :=
    .cons ⟨0, none, rfl⟩ (.cons ⟨2, none, rfl⟩ .nil)
  refine ⟨hfound, ?_⟩
  rw [linkTargets_toc hentries hquote, functions, headingIds_functionsFrom hentries hquote]
  rfl

end Report.Html

end FunctionDocs
