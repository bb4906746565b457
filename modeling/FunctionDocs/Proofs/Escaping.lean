import FunctionDocs.Proofs.Highlighting
import FunctionDocs.Proofs.Reports
import Mathlib.Algebra.GroupWithZero.Nat

/-!
# Escaped source text

A page shows texts of the source: names, return types, parameters and comments. The escaped page is the one that shows each of them
in escaped form. The signatures of a page are those of the escaped page, but names elsewhere and comments are shown as they are. So
the two are the same only where no name and no comment holds a sign, and semicolons tell them apart: each sign brings one more into
the escaped page.
-/

open List

namespace FunctionDocs.Report.Html

open Text

variable {e : Entry} {es : List Entry} {highlight : Bool}

/-! ## Escaped texts -/

/-- The signs that make markup, with what stands for each in escaped form. -/
def signs : List (Char × Text) := [('<', "&lt;"), ('>', "&gt;"), ('&', "&amp;")]

/-- Quotes may be escaped too. -/
def quotes : List (Char × Text) := [('"', "&quot;"), ('\'', "&#x27;")]

def escapedBy (table : List (Char × Text)) (t : Text) : Text :=
  t.flatMap fun c => ((table.find? (·.1 == c)).map (·.2)).getD [c]

def signCount (t : Text) : Nat := t.countP fun c => signs.any (·.1 == c)

lemma kept_of_not_key {table : List (Char × Text)} {c : Char} (h : c ∉ table.map (·.1)) :
    ((table.find? (·.1 == c)).map (·.2)).getD [c] = [c] := by
  have hnone : table.find? (·.1 == c) = none :=
    find?_eq_none.mpr fun p hp heq => h (mem_map.mpr ⟨p, hp, beq_iff_eq.mp heq⟩)
  rw [hnone]
  rfl

lemma escape_eq_escapedBy (t : Text) : escape t = escapedBy (signs ++ quotes) t := by
  refine congrArg t.flatMap (funext fun c => ?_)
  by_cases hc : c ∈ (signs ++ quotes).map (·.1)
  · simp only [signs, quotes, cons_append, nil_append, map_cons, map_nil, mem_cons, not_mem_nil, or_false] at hc
    rcases hc with rfl | rfl | rfl | rfl | rfl <;> rfl
  · rw [kept_of_not_key hc]
    simp only [signs, quotes, cons_append, nil_append, map_cons, map_nil, mem_cons, not_mem_nil, or_false, not_or] at hc
    simp [hc]

def SignFree (t : Text) : Prop := ∀ c ∈ t, c ∉ ['<', '>', '&']

lemma signCount_eq_zero {t : Text} : signCount t = 0 ↔ SignFree t := by
  rw [signCount, countP_eq_zero]
  simp [signs, SignFree, @eq_comm Char _ '<', @eq_comm Char _ '>', @eq_comm Char _ '&']

lemma escapedBy_of_signFree {t : Text} (h : SignFree t) : escapedBy signs t = t :=
  (flatMap_congr fun c hc => kept_of_not_key (h c hc)).trans (flatMap_singleton' t)

lemma count_escapedBy (t : Text) : (escapedBy signs t).count ';' = t.count ';' + signCount t := by
  have hchar : ∀ c, (((signs.find? (·.1 == c)).map (·.2)).getD [c]).count ';' = [c].count ';' + signCount [c] := by
    intro c
    simp only [signs, signCount, find?_cons]
    grind
  induction t with
  | nil => rfl
  | cons c t ih =>
    rw [escapedBy, flatMap_cons, count_append, hchar, ← escapedBy, ih, signCount, signCount, signCount]
    grind

lemma count_highlightTags (comment : Text) : (highlightTags comment).count ';' = comment.count ';' := by
  rw [highlightTags_eq]
  induction comment using finds_tag.induct with
  | nil => rfl
  | found tag r hne hfound ih =>
    have hopen : (openMark tag).count ';' = 0 := count_eq_zero.mpr (not_mem_around_style (by decide) (by decide) (by decide) tag)
    have hclose : closeMark.count ';' = 0 := by decide
    rw [rewrite_found hne hfound, highlighted_eq, count_append, count_append, count_append, count_append, hopen, hclose, ih]
    omega
  | plain c r hplain ih => rw [rewrite_plain hplain, count_cons, count_cons, ih]

/-! ## The escaped page -/

def escapedEntry (e : Entry) : Entry := { e with name := e.name.map (escapedBy signs) }

def escapedSignature (e : Entry) : Except Failure Text := do
  let returnType ← e.returnType!
  let name ← e.name!
  let params ← e.params!
  let shown := escapedBy (signs ++ quotes)
  return "<div class='code-block'>" ++ shown returnType ++ " " ++ shown name ++ "(" ++ shown params ++ ")</div>
"

def escapedFunctions (highlight : Bool) (i : Nat) : List Entry → Draft
  | [] => []
  | e :: es =>
    Draft.needing (markerOf highlight e) (fun marker =>
      [heading marker (escapedEntry e)] ++ (if marker = .pending then [.ok warning] else []) ++ [escapedSignature e] ++
        match e.doxygen.join with
        | some comment => if comment.isEmpty then [] else commentPieces i e (escapedBy signs comment)
        | none => []) ++ escapedFunctions highlight (i + 1) es

/-! ## Semicolons -/

/-- Both documents can be written, and the second one has `n` more semicolons. -/
def Exceeds (d d' : Draft) (n : Nat) : Prop :=
  ∃ ts ts' : List Text, d = ts.map .ok ∧ d' = ts'.map .ok ∧ ts'.flatten.count ';' = ts.flatten.count ';' + n

lemma Exceeds.append {a a' b b' : Draft} {m n : Nat} (ha : Exceeds a a' m) (hb : Exceeds b b' n) :
    Exceeds (a ++ b) (a' ++ b') (m + n) := by
  obtain ⟨ts, ts', rfl, rfl, ha⟩ := ha
  obtain ⟨us, us', rfl, rfl, hb⟩ := hb
  refine ⟨ts ++ us, ts' ++ us', map_append.symm, map_append.symm, ?_⟩
  rw [flatten_append, flatten_append, count_append, count_append, ha, hb]
  omega

lemma Exceeds.refl (ts : List Text) : Exceeds (ts.map .ok) (ts.map .ok) 0 := ⟨ts, ts, rfl, rfl, rfl⟩

lemma Exceeds.of_count {t t' : Text} {n : Nat} (h : t'.count ';' = t.count ';' + n) : Exceeds [.ok t] [.ok t'] n :=
  ⟨[t], [t'], rfl, rfl, by simpa using h⟩

lemma Exceeds.eq_zero {d d' : Draft} {n : Nat} (h : Exceeds d d' n) (hsame : d.whole = d'.whole) : n = 0 := by
  obtain ⟨ts, ts', rfl, rfl, hcount⟩ := h
  rw [Draft.whole_ok, Draft.whole_ok] at hsame
  rw [Except.ok.inj hsame] at hcount
  omega

lemma exceeds_tocLine (h : e.Complete) (highlight : Bool) :
    Exceeds [tocLine highlight e] [tocLine highlight (escapedEntry e)] (2 * signCount (e.name.getD [])) := by
  obtain ⟨marker, hmarker⟩ := markerOf_complete h highlight
  have hsame : markerOf highlight (escapedEntry e) = .ok marker := hmarker
  obtain ⟨f, line, comment, rfl⟩ := h
  rw [tocLine, tocLine, hmarker, hsame]
  refine .of_count ?_
  simp only [count_append, count_escapedBy, Option.getD, Entry.ofFunction]
  omega

lemma exceeds_heading (h : e.Complete) (marker : Marker) :
    Exceeds [heading marker e] [heading marker (escapedEntry e)] (2 * signCount (e.name.getD [])) := by
  obtain ⟨f, line, comment, rfl⟩ := h
  refine .of_count ?_
  simp only [count_append, count_escapedBy, Option.getD, Entry.ofFunction]
  omega

lemma signature_eq (e : Entry) : signature e = escapedSignature e := by
  rw [signature, escapedSignature, funext escape_eq_escapedBy]

lemma exceeds_commentPieces (h : e.Complete) (i : Nat) (comment : Text) :
    Exceeds (commentPieces i e comment) (commentPieces i e (escapedBy signs comment)) (signCount comment) := by
  obtain ⟨note, hnote⟩ := fileNote_complete h
  rw [commentPieces, commentPieces, hnote]
  refine ⟨[_, _], [_, _], rfl, rfl, ?_⟩
  simp only [flatten_cons, count_append, count_highlightTags, count_escapedBy]
  omega

lemma exceeds_functions (h : ∀ e ∈ es, e.Complete) (highlight : Bool) (i : Nat) :
    Exceeds (functionsFrom highlight i es) (escapedFunctions highlight i es)
      (es.map fun e => 2 * signCount (e.name.getD []) + signCount (e.doxygen.join.getD [])).sum := by
  induction es generalizing i with
  | nil => exact .refl []
  | cons e es ih =>
    obtain ⟨he, hes⟩ := forall_mem_cons.mp h
    obtain ⟨marker, hmarker⟩ := markerOf_complete he highlight
    have hwarning : Exceeds (if marker = .pending then [.ok warning] else []) (if marker = .pending then [.ok warning] else []) 0 := by
      split
      · exact .refl [warning]
      · exact .refl []
    have hsignature : Exceeds [signature e] [escapedSignature e] 0 := by
      rw [← signature_eq]
      obtain ⟨f, line, comment, rfl⟩ := he
      exact .refl [_]
    have hfront := ((exceeds_heading he marker).append hwarning).append hsignature
    rw [functionsFrom, escapedFunctions, functionPieces, hmarker, map_cons, sum_cons]
    refine .append (.append hfront ?_) (ih hes (i + 1))
    have hcomment := exceeds_commentPieces he i
    obtain ⟨f, line, comment, rfl⟩ := he
    change Exceeds (if comment.isEmpty then [] else _) (if comment.isEmpty then [] else _) (signCount comment)
    split
    next hempty =>
      rw [isEmpty_iff.mp hempty]
      exact .refl []
    · exact hcomment comment

lemma exceeds_toc (h : ∀ e ∈ es, e.Complete) (highlight : Bool) :
    Exceeds (toc highlight es) (toc highlight (es.map escapedEntry)) (es.map fun e => 2 * signCount (e.name.getD [])).sum := by
  have hlines : Exceeds (es.map (tocLine highlight)) ((es.map escapedEntry).map (tocLine highlight))
      (es.map fun e => 2 * signCount (e.name.getD [])).sum := by
    induction es with
    | nil => exact .refl []
    | cons e es ih =>
      obtain ⟨he, hes⟩ := forall_mem_cons.mp h
      exact (exceeds_tocLine he highlight).append (ih hes)
  have hall : Exceeds (toc highlight es) (toc highlight (es.map escapedEntry)) (0 + _ + 0) :=
    ((Exceeds.refl [_]).append hlines).append (.refl [_])
  rwa [Nat.zero_add] at hall

/-! ## Pages without signs -/

lemma escaped_of_signFree (h : ∀ name ∈ e.name, SignFree name) : escapedEntry e = e := by
  have hname : e.name.map (escapedBy signs) = e.name := by
    cases hname : e.name with
    | none => rfl
    | some name => exact congrArg some (escapedBy_of_signFree (h name hname))
  rw [escapedEntry, hname]

lemma escapedFunctions_of_signFree
    (h : ∀ e ∈ es, (∀ name ∈ e.name, SignFree name) ∧ ∀ comment ∈ e.doxygen.join, SignFree comment) (i : Nat) :
    escapedFunctions highlight i es = functionsFrom highlight i es := by
  induction es generalizing i with
  | nil => rfl
  | cons e es ih =>
    obtain ⟨⟨hname, hcomment⟩, hes⟩ := forall_mem_cons.mp h
    rw [escapedFunctions, functionsFrom, functionPieces, escaped_of_signFree hname, ← signature_eq, ih hes]
    cases hdoc : e.doxygen.join with
    | none => rfl
    | some comment =>
      dsimp only
      rw [escapedBy_of_signFree (hcomment comment hdoc)]

/-- The whole contents and the whole sections are those of the escaped page exactly if no name and, for the sections, no comment holds a
sign. Return types and parameters may hold any. -/
theorem page_escaped_iff {es : List Entry} (h : ∀ e ∈ es, e.Complete) (highlight : Bool) :
    ((toc highlight es).whole = (toc highlight (es.map escapedEntry)).whole ↔ ∀ e ∈ es, ∀ name ∈ e.name, SignFree name) ∧
      ((functions highlight es).whole = (escapedFunctions highlight 0 es).whole ↔
        ∀ e ∈ es, (∀ name ∈ e.name, SignFree name) ∧ ∀ comment ∈ e.doxygen.join, SignFree comment) := by
  have hfree : ∀ o : Option Text, signCount (o.getD []) = 0 → ∀ t ∈ o, SignFree t := by
    rintro o ho t rfl
    exact signCount_eq_zero.mp ho
  refine ⟨⟨fun hsame e he => ?_, fun hnames => ?_⟩, fun hsame e he => ?_, fun hall => ?_⟩
  · have hzero := (exceeds_toc h highlight).eq_zero hsame
    have hcount := List.sum_eq_zero_iff_forall_eq_nat.mp hzero _ (mem_map_of_mem he)
    exact hfree _ (by omega)
  · have hsame : es.map escapedEntry = es := (map_congr_left fun e he => escaped_of_signFree (hnames e he)).trans (map_id es)
    rw [hsame]
  · have hzero := (exceeds_functions h highlight 0).eq_zero hsame
    have hcounts := List.sum_eq_zero_iff_forall_eq_nat.mp hzero _ (mem_map_of_mem he)
    exact ⟨hfree _ (by omega), hfree _ (by omega)⟩
  · rw [escapedFunctions_of_signFree hall]
    rfl

def reported (f : Source.Function) (comment : Text) : Entry :=
  { Entry.ofFunction f with startLine := some 0, doxygen := some (some comment) }

/-- A function with signs in its types only. -/
def referring : Entry := reported ⟨"first", "const T&", "std::vector<T>& items", false, [], false, "src/a.hpp", 0, 1, false, none⟩
  "/**\n * @brief First item\n */"

theorem referring_escaped :
    (toc true [referring]).whole = (toc true [escapedEntry referring]).whole ∧
      (functions true [referring]).whole = (escapedFunctions true 0 [referring]).whole := by
  obtain ⟨htoc, hfunctions⟩ := @page_escaped_iff [referring] (forall_mem_singleton.mpr ⟨_, _, _, rfl⟩) true
  exact ⟨htoc.mpr (by unfold SignFree; decide), hfunctions.mpr (by unfold SignFree; decide)⟩

/-- An operator with a sign in its name and in its comment. -/
def comparing : Entry := reported ⟨"operator<", "bool", "const A& a", false, [], false, "src/a.cpp", 0, 1, false, none⟩
  "/** @brief a < b */"

theorem comparing_unescaped :
    tocLine false comparing = .ok "<li><a href='#operator<'> operator<</a></li>\n" ∧
      (toc false [comparing]).whole ≠ (toc false [escapedEntry comparing]).whole ∧
      (functions false [comparing]).whole ≠ (escapedFunctions false 0 [comparing]).whole := by
  have hcomplete : ∀ e ∈ [comparing], e.Complete := forall_mem_singleton.mpr ⟨_, _, _, rfl⟩
  refine ⟨rfl, fun hsame => ?_, fun hsame => ?_⟩
  · exact absurd ((exceeds_toc hcomplete false).eq_zero hsame) (by decide)
  · exact absurd ((exceeds_functions hcomplete false 0).eq_zero hsame) (by decide)

end FunctionDocs.Report.Html
