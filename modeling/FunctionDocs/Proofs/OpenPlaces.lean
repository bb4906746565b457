import FunctionDocs.Proofs.Analysis
import FunctionDocs.Proofs.ParamLines

/-!
# The open places of a fresh comment

The comment composed for a function that has none is all open places: the description, one line for each template parameter and
each parameter, and the result. The analysis finds every one of them open, except for a parameter without a name, such as `...`, and
a template parameter that is called by more than a word, such as `N=5`. It takes these two for described.
-/

open List

namespace FunctionDocs.DocBlock

open Text Coverage

variable {w p : Text}

/-! ## The lines of a fresh comment -/

lemma paragraphs_fresh {f : Source.Function} (h : f.comment = []) :
    paragraphs (Entry.ofFunction f) =
      (" * @brief " ++ todoDescription f.name) :: (tparamsOf (Entry.ofFunction f) []).map tparamLine ++
        (documented f.params).map (paramLine []) ++ resultParagraph f.returnType [] := by
  have hsaid : saidOf (.ofFunction f) = ⟨todoDescription f.name, [], [], [], [], []⟩ := by
    simp only [Entry.ofFunction, h]
    rfl
  have hnotes : notesParagraph [] = [] := rfl
  rw [paragraphs, hsaid, paramLines_eq]
  simp only [hnotes, flatMap_nil, append_nil]
  rfl

lemma paramLine_fresh (p : Text) :
    paramLine [] p = ' ' :: ("* @param".toList ++ ' ' :: (paramName p ++ ' ' :: (todo ++ hints p))) := by
  have htag : ∀ t : Text, paramTag (paramName p) t = ' ' :: ("* @param".toList ++ ' ' :: (paramName p ++ t)) := fun _ => rfl
  have hdoc : docText [] (paramName p) = todo := docText_of_not_mem (forall_mem_nil _)
  have hkept : dropHints (paramTag (paramName p) (' ' :: todo)) = paramTag (paramName p) (' ' :: todo) := by
    by_cases hname : paramName p = []
    · rw [hname]
      decide
    · have htodo : Lines [] todo := ⟨by simpa using (by decide : Row todo), by simpa using (by decide : Tagless todo), by simp⟩
      exact (kept_paramText (word_paramName hname) htodo (by decide)).dropHints_eq
  rw [paramLine, hdoc, hkept, paramTag_append, htag]
  rfl

lemma starts_of_sign_within {c : Char} {u v pre rest : Text} (hpre : c ∉ pre) (hrest : c ∉ rest) (hu : ' ' ∉ c :: u)
    (hw : ' ' ∉ w) (h : (c :: u ++ ' ' :: v) <:+: pre ++ (w ++ ' ' :: rest)) : v <+: rest := by
  obtain ⟨a, b, h⟩ := h
  have hword : ∃ x, (x ++ c :: u) ++ ' ' :: (v ++ b) = w ++ ' ' :: rest := by
    have h' : a ++ (c :: (u ++ ' ' :: (v ++ b))) = pre ++ (w ++ ' ' :: rest) := by simpa using h
    rcases append_eq_append_iff.mp h' with ⟨x, rfl, hx⟩ | ⟨x, -, hx⟩
    · cases x with
      | nil => exact ⟨[], by simpa using hx⟩
      | cons d x =>
        obtain rfl := (cons_eq_cons.mp hx).1
        exact absurd (by simp) hpre
    · exact ⟨x, by simpa using hx.symm⟩
  obtain ⟨x, hx⟩ := hword
  by_cases hspace : ' ' ∈ x
  · -- the blank behind the word stands before the sign
    obtain ⟨x₁, x₂, rfl, hx₁⟩ := eq_append_cons_of_mem hspace
    rw [append_assoc, append_assoc, cons_append] at hx
    exact absurd ((cut_unique hx₁ hw hx).2 ▸ by simp) hrest
  · exact ⟨b, (cut_unique (by simp_all) hw hx).2⟩

lemma tparamLine_fresh (hw : ∀ c ∈ w, isBlank c = false) :
    tparamLine (w, todo) = ' ' :: ("* @tparam".toList ++ ' ' :: (w ++ ' ' :: todo)) := by
  have hspace : ' ' ∉ w := fun h => absurd (hw _ h) (by decide)
  have hline : tparamLine (w, todo) = dropHints (" * @tparam ".toList ++ (w ++ ' ' :: todo)) := by
    have htrim : trim todo = todo := by decide
    simp only [tparamLine, htrim]
    simp [todo]
  have hclosed : Closed (" * @tparam ".toList ++ (w ++ ' ' :: todo)) := by
    refine closed_append (by simp) (closed_append (by simp) ?_)
    rintro c ⟨⟩
    decide
  have hunmarked : Unmarked (" * @tparam ".toList ++ (w ++ ' ' :: todo)) :=
    ⟨fun h => absurd (starts_of_sign_within (c := '–') (u := []) (by decide) (by decide) (by decide) hspace h) (by decide),
      fun h => absurd (starts_of_sign_within (c := '(') (u := "internal".toList) (by decide) (by decide) (by decide) hspace h)
        (by decide)⟩
  rw [hline, (hunmarked.kept hclosed).dropHints_eq]
  rfl

lemma openPlace_hints (hp : Flat p) : Trimmed (todo ++ hints p) ∧ Flat (todo ++ hints p) ∧ hasTodo (todo ++ hints p) := by
  refine ⟨⟨?_, ?_⟩, (by decide : Flat todo).append (appendix_hints hp).flat, ?_⟩
  · rintro c ⟨⟩
    decide
  · by_cases hnil : hints p = []
    · rw [hnil]
      decide
    · exact closed_append hnil (closed_hints p)
  · exact contains_iff.mpr (prefix_append todo _).isInfix

lemma trim_tagged {tag n d : Text} (htag : tag.head? = some '*') (hd : Closed d) (hne : d ≠ []) :
    trim (' ' :: (tag ++ ' ' :: (n ++ ' ' :: d))) = tag ++ ' ' :: (n ++ ' ' :: d) := by
  refine trim_blank_cons ⟨?_, ?_⟩
  · rw [head?_append, htag]
    rintro c ⟨⟩
    decide
  · have hlast : tag ++ ' ' :: (n ++ ' ' :: d) = tag ++ ' ' :: (n ++ [' ']) ++ d := by simp
    rw [hlast]
    exact closed_append hne hd

lemma paramLine_open_iff (hp : Flat p) :
    startsWith (trim (paramLine [] p)) "* @param" ∧
      ((describedAs? ((trim (paramLine [] p)).drop 8)).any hasTodo ↔ paramName p ≠ []) := by
  obtain ⟨htrim, hflat, htodo⟩ := openPlace_hints hp
  rw [paramLine_fresh, trim_tagged (by decide) htrim.last (by simp [todo])]
  refine ⟨startsWith_iff.mpr (prefix_append _ _), ?_⟩
  have hblank : ∀ c ∈ paramName p, isBlank c = false := by
    rcases paramName_word p with hnil | hword
    · simp [hnil]
    · exact fun c hc => isBlank_of_isWordChar (hword.chars c hc)
  have hdrop : ("* @param".toList ++ ' ' :: (paramName p ++ ' ' :: (todo ++ hints p))).drop 8 =
      ' ' :: (paramName p ++ ' ' :: (todo ++ hints p)) := rfl
  rw [hdrop, describedAs_open_iff hblank htrim hflat htodo]
  exact ⟨fun h => h.nonempty, word_paramName⟩

lemma tparamLine_open_iff (hw : ∀ c ∈ w, isBlank c = false) :
    startsWith (trim (tparamLine (w, todo))) "* @tparam" ∧
      ((describedAs? ((trim (tparamLine (w, todo))).drop 9)).any hasTodo ↔ Word w) := by
  have htrim : Trimmed todo := ⟨by decide, by decide⟩
  rw [tparamLine_fresh hw, trim_tagged (by decide) htrim.last (by decide)]
  refine ⟨startsWith_iff.mpr (prefix_append _ _), ?_⟩
  have hdrop : ("* @tparam".toList ++ ' ' :: (w ++ ' ' :: todo)).drop 9 = ' ' :: (w ++ ' ' :: todo) := rfl
  rw [hdrop, describedAs_open_iff hw htrim (by decide) (by decide)]

def todoBrief (name : Text) : Text := " * @brief " ++ todoDescription name

lemma todoBrief_open (name : Text) : startsWith (trim (todoBrief name)) "* @brief" ∧ hasTodo (trim (todoBrief name)) := by
  have hform : todoBrief name = ' ' :: ("* @brief ".toList ++ (todo ++ ' ' :: (name ++ " description.".toList))) := rfl
  have hclosed : Closed " description.".toList := by decide
  have hstart : ∀ c, ("* @brief ".toList ++ (todo ++ ' ' :: (name ++ " description.".toList))).head? = some c →
      isBlank c = false := by
        rintro c ⟨⟩
        decide
  have hend : Closed ("* @brief ".toList ++ (todo ++ ' ' :: (name ++ " description.".toList))) :=
    closed_append (by simp) (closed_append (by simp) (closed_append (t := [' ']) (by simp) (closed_append (by simp) hclosed)))
  have htrim := trim_blank_cons ⟨hstart, hend⟩
  rw [hform, htrim]
  refine ⟨startsWith_iff.mpr ⟨_, rfl⟩, contains_iff.mpr ?_⟩
  exact ⟨"* @brief ".toList, _, append_assoc _ _ _⟩

lemma flat_todoBrief {name : Text} (h : Flat name) : Flat (todoBrief name) :=
  (by decide : Flat " * @brief ").append (((by decide : Flat "TODO ").append h).append (by decide))

/-- The template parameters of a function, one by one. -/
def templatePieces (f : Source.Function) : List Text :=
  if f.isTemplate then (f.templateParams.map tparamPieces).getD [] else []

lemma mem_tparamsOf_fresh {f : Source.Function} {n : Text × Text} :
    n ∈ tparamsOf (Entry.ofFunction f) [] ↔ ∃ p ∈ templatePieces f, n = (lastWord p, todo) := by
  cases hf : f.isTemplate with
  | false => simp [tparamsOf, templatePieces, Entry.ofFunction, hf]
  | true =>
    cases ht : f.templateParams with
    | none => simp [tparamsOf, templatePieces, Entry.ofFunction, hf, ht]
    | some t => simpa [tparamsOf, templatePieces, Entry.ofFunction, hf, ht] using mem_openTparams_iff

lemma flat_paramLine_fresh (hp : Flat p) : Flat (paramLine [] p) := by
  rw [paramLine_fresh]
  have hopen : Flat (' ' :: (todo ++ hints p)) := (by decide : Flat [' ']).append (openPlace_hints hp).2.1
  exact (by decide : Flat " * @param ".toList).append ((flat_paramName p).append hopen)

lemma flat_tparamLine_fresh (p : Text) : Flat (tparamLine (lastWord p, todo)) := by
  rw [tparamLine_fresh (not_isBlank_lastWord p)]
  exact (by decide : Flat " * @tparam ".toList).append ((flat_lastWord p).append (by decide))

lemma resultParagraph_fresh (returnType : Text) : ∀ l ∈ resultParagraph returnType [], l = " * @return TODO" := by
  rw [resultParagraph]
  split
  · simp
  · intro l hl
    exact mem_singleton.mp hl

lemma mem_lines_fresh {f : Source.Function} (hname : Flat f.name) (hparams : Flat f.params) (h : f.comment = []) {l : Text} :
    l ∈ (block (paragraphs (Entry.ofFunction f))).lines ↔
      l = "/**".toList ∨ l = todoBrief f.name ∨ (∃ p ∈ templatePieces f, l = tparamLine (lastWord p, todo)) ∨
        (∃ p ∈ documented f.params, l = paramLine [] p) ∨ l ∈ resultParagraph f.returnType [] ∨ l = " */".toList := by
  have hmem : ∀ l, l ∈ paragraphs (Entry.ofFunction f) ↔
      l = todoBrief f.name ∨ (∃ p ∈ templatePieces f, l = tparamLine (lastWord p, todo)) ∨
        (∃ p ∈ documented f.params, l = paramLine [] p) ∨ l ∈ resultParagraph f.returnType [] := by
    intro l
    have htparams : l ∈ (tparamsOf (Entry.ofFunction f) []).map tparamLine ↔
        ∃ p ∈ templatePieces f, l = tparamLine (lastWord p, todo) := by
      constructor
      · intro hl
        obtain ⟨n, hn, rfl⟩ := mem_map.mp hl
        obtain ⟨p, hp, rfl⟩ := mem_tparamsOf_fresh.mp hn
        exact ⟨p, hp, rfl⟩
      · rintro ⟨p, hp, heq⟩
        rw [heq]
        exact mem_map_of_mem (mem_tparamsOf_fresh.mpr ⟨p, hp, rfl⟩)
    have hbrief : " * @brief ".toList ++ todoDescription f.name = todoBrief f.name := rfl
    rw [paragraphs_fresh h, hbrief, mem_append, mem_append, mem_cons, htparams, mem_map]
    simp only [or_assoc, eq_comm]
  have hflat : ∀ l ∈ paragraphs (Entry.ofFunction f), splitOnChar '\n' l = [l] := by
    intro l hl
    refine splitOnChar_of_not_mem (Flat.not_mem ?_)
    rcases (hmem l).mp hl with heq | ⟨p, -, heq⟩ | ⟨p, hp, heq⟩ | hresult
    · rw [heq]
      exact flat_todoBrief hname
    · rw [heq]
      exact flat_tparamLine_fresh p
    · rw [heq]
      exact flat_paramLine_fresh (hparams.of_subset (mem_documented hp).subset)
    · rw [resultParagraph_fresh _ l hresult]
      decide
  have hone : OneLine (Entry.ofFunction f) := ⟨hname, hparams⟩
  rw [lines_block fun p hp => (mem_paragraphs hone p hp).1.fed, flatMap_congr hflat, flatMap_singleton',
    mem_append, mem_cons, hmem, mem_singleton]
  simp only [or_assoc]

lemma kinds_of_mem_lines_fresh {f : Source.Function} (hname : Flat f.name) (hparams : Flat f.params) (h : f.comment = []) {l : Text}
    (hl : l ∈ (block (paragraphs (Entry.ofFunction f))).lines) :
    (startsWith (trim l) "* @param" → ∃ p ∈ documented f.params, l = paramLine [] p) ∧
      (startsWith (trim l) "* @tparam" → ∃ p ∈ templatePieces f, l = tparamLine (lastWord p, todo)) ∧
      (startsWith (trim l) "* @return" → l = " * @return TODO") := by
  have hnot : ∀ {b : Bool} {P : Prop}, b = false → b → P := fun hb h => absurd (hb ▸ h) Bool.false_ne_true
  obtain ⟨hbrief, htparam, hparam⟩ := tags_apart (trim l)
  rcases (mem_lines_fresh hname hparams h).mp hl with heq | heq | ⟨p, hp, heq⟩ | ⟨p, hp, heq⟩ | hresult | heq
  · rw [heq]
    exact ⟨hnot (by decide), hnot (by decide), hnot (by decide)⟩
  · obtain ⟨htparam, hparam, hreturn⟩ := hbrief (heq ▸ (todoBrief_open f.name).1)
    exact ⟨hnot hparam, hnot htparam, hnot hreturn⟩
  · obtain ⟨hparam, hreturn⟩ := htparam (heq ▸ (tparamLine_open_iff (not_isBlank_lastWord p)).1)
    exact ⟨hnot hparam, fun _ => ⟨p, hp, heq⟩, hnot hreturn⟩
  · have htag := heq ▸ (paramLine_open_iff (hparams.of_subset (mem_documented hp).subset)).1
    exact ⟨fun _ => ⟨p, hp, heq⟩, fun h => hnot (htparam h).1 htag, hnot (hparam htag)⟩
  · rw [resultParagraph_fresh _ l hresult]
    exact ⟨hnot (by decide), hnot (by decide), fun _ => rfl⟩
  · rw [heq]
    exact ⟨hnot (by decide), hnot (by decide), hnot (by decide)⟩

/-! ## All open places -/

/-- The analysis of a comment finds its description open, as well as all parameters and template parameters that it documents, and the
result if the comment has a line for it. -/
@[mk_iff]
structure AllOpen (t : Text) : Prop where
  brief : (analyze t).briefOpen = true
  params : (analyze t).paramsOpen = (analyze t).params
  tparams : (analyze t).tparamsOpen = (analyze t).tparams
  result : (analyze t).returnOpen = true ↔ ∃ l ∈ t.lines, startsWith (trim l) "* @return" = true

instance (t : Text) : Decidable (AllOpen t) := decidable_of_iff _ (allOpen_iff ..).symm

/-- The comment of a function of a text that has no comment yet is composed, and the analysis finds all its places open exactly if all
parameters have a name and all template parameters are called by words. -/
theorem compose_allOpen_iff {content file : Text} {fs : List Source.Function} {f : Source.Function}
    (h : Source.functionsOf content file = .ok fs) (hf : f ∈ fs) (hfresh : f.comment = []) :
    ∃ d, compose (Entry.ofFunction f) = .ok d ∧
      (AllOpen d ↔ (∀ p ∈ documented f.params, paramName p ≠ []) ∧ ∀ p ∈ templatePieces f, Word (lastWord p)) := by
  obtain ⟨hname, hparams⟩ := Source.functionsOf_flat h f hf
  have hflat : ∀ p ∈ documented f.params, Flat p := fun p hp => hparams.of_subset (mem_documented hp).subset
  have hmem := fun l => mem_lines_fresh hname hparams hfresh (l := l)
  refine ⟨_, compose_ofFunction f, ?_⟩
  have hbrief : (analyze (block (paragraphs (Entry.ofFunction f)))).briefOpen = true :=
    (briefOpen_iff _).mpr ⟨todoBrief f.name, (hmem _).mpr (Or.inr (Or.inl rfl)), todoBrief_open f.name⟩
  have hresult : (analyze (block (paragraphs (Entry.ofFunction f)))).returnOpen = true ↔
      ∃ l ∈ (block (paragraphs (Entry.ofFunction f))).lines, startsWith (trim l) "* @return" = true := by
    rw [returnOpen_iff]
    constructor
    · rintro ⟨l, hl, htag, -⟩
      exact ⟨l, hl, htag⟩
    · rintro ⟨l, hl, htag⟩
      refine ⟨l, hl, htag, ?_⟩
      rw [(kinds_of_mem_lines_fresh hname hparams hfresh hl).2.2 htag]
      decide
  have hparamsIff : (analyze (block (paragraphs (Entry.ofFunction f)))).paramsOpen =
      (analyze (block (paragraphs (Entry.ofFunction f)))).params ↔ ∀ p ∈ documented f.params, paramName p ≠ [] := by
    rw [paramsOpen_eq_iff]
    constructor
    · intro hopen p hp
      obtain ⟨htag, hiff⟩ := paramLine_open_iff (hflat p hp)
      exact hiff.mp (hopen _ ((hmem _).mpr (Or.inr (Or.inr (Or.inr (Or.inl ⟨p, hp, rfl⟩))))) htag)
    · intro hnamed l hl htag
      obtain ⟨p, hp, heq⟩ := (kinds_of_mem_lines_fresh hname hparams hfresh hl).1 htag
      rw [heq]
      exact (paramLine_open_iff (hflat p hp)).2.mpr (hnamed p hp)
  have htparamsIff : (analyze (block (paragraphs (Entry.ofFunction f)))).tparamsOpen =
      (analyze (block (paragraphs (Entry.ofFunction f)))).tparams ↔ ∀ p ∈ templatePieces f, Word (lastWord p) := by
    rw [tparamsOpen_eq_iff]
    constructor
    · intro hopen p hp
      obtain ⟨htag, hiff⟩ := tparamLine_open_iff (not_isBlank_lastWord p)
      exact hiff.mp (hopen _ ((hmem _).mpr (Or.inr (Or.inr (Or.inl ⟨p, hp, rfl⟩)))) htag)
    · intro hword l hl htag
      obtain ⟨p, hp, heq⟩ := (kinds_of_mem_lines_fresh hname hparams hfresh hl).2.1 htag
      rw [heq]
      exact (tparamLine_open_iff (not_isBlank_lastWord p)).2.mpr (hword p hp)
  exact ⟨fun ha => ⟨hparamsIff.mp ha.params, htparamsIff.mp ha.tparams⟩,
    fun ⟨hp, ht⟩ => ⟨hbrief, hparamsIff.mpr hp, htparamsIff.mpr ht, hresult⟩⟩

def scaledText : Text := "template <typename T>\nT scale(T a, int n = 2, void (*done)(int)) \x7b\n\x7d\n"

/-- The function of `scaledText`. -/
def scaledFunction : Source.Function :=
  ⟨"scale", "T", "T a, int n = 2, void (*done)(int)", false, [], false, [], 1, 1, true, some "<typename T>"⟩

/-- All places of the comment of `scaledFunction` are found open. -/
theorem scaled_allOpen :
    Source.functionsOf scaledText [] = .ok [scaledFunction] ∧
      ∃ d, compose (Entry.ofFunction scaledFunction) = .ok d ∧ AllOpen d := by
  have hfound : Source.functionsOf scaledText [] = .ok [scaledFunction] := by decide
  obtain ⟨d, hd, hiff⟩ := compose_allOpen_iff hfound List.mem_cons_self rfl
  have hnamed : ∀ p ∈ documented scaledFunction.params, paramName p ≠ [] := by decide
  have hword : ∀ p ∈ templatePieces scaledFunction, Word (lastWord p) := by decide
  exact ⟨hfound, d, hd, hiff.mpr ⟨hnamed, hword⟩⟩

def variadicText : Text := "int log(const char* fmt, ...) \x7b\n\x7d\n"

/-- The function of `variadicText`. -/
def variadicFunction : Source.Function :=
  ⟨"log", "int", "const char* fmt, ...", false, [], false, [], 0, 1, false, none⟩

/-- The comment of `variadicFunction`. -/
def variadicComment : Text := "/**\n * @brief TODO log description.\n * @param fmt TODO\n * @param  TODO\n * @return TODO\n */"

/-- The parameter `...` has no name, so its open place is not found: one of two parameters counts as described. -/
theorem variadic_not_allOpen :
    Source.functionsOf variadicText [] = .ok [variadicFunction] ∧
      compose (Entry.ofFunction variadicFunction) = .ok variadicComment ∧
      (analyze variadicComment).params = 2 ∧ (analyze variadicComment).paramsOpen = 1 ∧ ¬AllOpen variadicComment := by
  decide

end FunctionDocs.DocBlock
