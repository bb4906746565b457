import FunctionDocs.Coverage.Stats
import FunctionDocs.Proofs.Analysis
import Mathlib.Algebra.GroupWithZero.Nat

/-!
# Figures of progress

The figures of a documentation are kept as running totals. What they are totals of is said by `Stats.Counts`: how many comments there
are, and how many of their places the analysis does not find open. This determines the figures, so they do not depend on the order of
the comments and add up over several lists; and a comment without the word TODO has no open place, so the functions that are done
are among those with a description, with a result, and with all their parameters described.
-/

open List

namespace FunctionDocs.Coverage

open Text

variable {cs : List Text} {s : Stats} {t : Text} {l : Text} {ds : List Text} {es : List Entry}

/-! ## Places of one comment -/

lemma paramsOpen_le (t : Text) : (analyze t).paramsOpen ≤ (analyze t).params := by
  rw [(counts_analyze t).paramsOpen, (counts_analyze t).params]
  exact countP_mono_left fun l _ h => (Bool.and_eq_true_iff.mp h).1

lemma tparamsOpen_le (t : Text) : (analyze t).tparamsOpen ≤ (analyze t).tparams := by
  rw [(counts_analyze t).tparamsOpen, (counts_analyze t).tparams]
  exact countP_mono_left fun l _ h => (Bool.and_eq_true_iff.mp h).1

lemma hasTodo_of_part {u : Text} (hl : l ∈ t.lines) (hu : u <:+: trim l) (h : hasTodo u) : hasTodo t :=
  contains_iff.mpr ((contains_iff.mp h).trans ((hu.trans (infix_trim l)).trans (infix_of_mem_lines hl)))

lemma hasTodo_of_briefOpen (h : (analyze t).briefOpen) : hasTodo t := by
  obtain ⟨l, hl, -, htodo⟩ := (briefOpen_iff t).mp h
  exact hasTodo_of_part hl (infix_refl _) htodo

lemma hasTodo_of_returnOpen (h : (analyze t).returnOpen) : hasTodo t := by
  obtain ⟨l, hl, -, htodo⟩ := (returnOpen_iff t).mp h
  exact hasTodo_of_part hl (infix_refl _) htodo

lemma infix_describedAs {rest d : Text} (h : describedAs? rest = some d) : d <:+: rest := by
  unfold describedAs? at h
  split at h
  next r =>
    dsimp only at h
    split at h
    · cases h
    · cases h
      exact ((( takeWhile_prefix _).isInfix.trans (dropWhile_suffix _).isInfix).trans
        (dropWhile_suffix _).isInfix).trans (suffix_cons ' ' r).isInfix
  · cases h

lemma hasTodo_of_described {n : Nat} (hl : l ∈ t.lines) (h : (describedAs? ((trim l).drop n)).any hasTodo) : hasTodo t := by
  obtain ⟨d, hd, htodo⟩ := (Option.any_eq_true _ _).mp h
  exact hasTodo_of_part hl ((infix_describedAs hd).trans (drop_suffix _ _).isInfix) htodo

lemma paramsOpen_eq_zero (h : hasTodo t = false) : (analyze t).paramsOpen = 0 ∧ (analyze t).tparamsOpen = 0 := by
  rw [(counts_analyze t).paramsOpen, (counts_analyze t).tparamsOpen]
  constructor <;>
  · refine countP_eq_zero.mpr (forall_mem_map.mpr fun l hl hopen => ?_)
    rw [hasTodo_of_described hl (Bool.and_eq_true_iff.mp hopen).2] at h
    cases h

/-! ## What the figures count -/

/-- The figures are those of the comments: of all functions and of all places, those that are not open. -/
structure Stats.Counts (s : Stats) (comments : List Text) : Prop where
  functions : s.functions = comments.length
  done : s.done + comments.countP hasTodo = comments.length
  brief : s.briefDone + comments.countP (fun c => (analyze c).briefOpen) = comments.length
  result : s.returnDone + comments.countP (fun c => (analyze c).returnOpen) = comments.length
  params : s.params = (comments.map fun c => (analyze c).params).sum
  paramsDone : s.paramsDone + (comments.map fun c => (analyze c).paramsOpen).sum = s.params
  tparams : s.tparams = (comments.map fun c => (analyze c).tparams).sum
  tparamsDone : s.tparamsDone + (comments.map fun c => (analyze c).tparamsOpen).sum = s.tparams

lemma toNat_not_add (b : Bool) : (!b).toNat + (if b = true then 1 else 0) = 1 := by cases b <;> rfl

lemma Stats.Counts.add (h : s.Counts cs) (c : Text) : (s.add c).Counts (c :: cs) := by
  have hparams := paramsOpen_le c
  have htparams := tparamsOpen_le c
  refine ⟨?_, ?_, ?_, ?_, ?_, ?_, ?_, ?_⟩ <;> simp only [Stats.add, length_cons, countP_cons, map_cons, sum_cons]
  · rw [h.functions]
  · have := h.done
    have := toNat_not_add (hasTodo c)
    omega
  · have := h.brief
    have := toNat_not_add (analyze c).briefOpen
    omega
  · have := h.result
    have := toNat_not_add (analyze c).returnOpen
    omega
  · rw [h.params, add_comm]
  · have := h.paramsDone
    omega
  · rw [h.tparams, add_comm]
  · have := h.tparamsDone
    omega

lemma Stats.Counts.perm (h : s.Counts cs) (hperm : cs.Perm ds) : s.Counts ds where
  functions := hperm.length_eq ▸ h.functions
  done := by rw [← hperm.countP_eq, ← hperm.length_eq, h.done]
  brief := by rw [← hperm.countP_eq, ← hperm.length_eq, h.brief]
  result := by rw [← hperm.countP_eq, ← hperm.length_eq, h.result]
  params := by rw [h.params, (hperm.map _).sum_nat]
  paramsDone := by rw [← (hperm.map _).sum_nat, h.paramsDone]
  tparams := by rw [h.tparams, (hperm.map _).sum_nat]
  tparamsDone := by rw [← (hperm.map _).sum_nat, h.tparamsDone]

lemma Stats.Counts.unique {u : Stats} (h : s.Counts cs) (h' : u.Counts cs) : s = u := by
  have hparams : s.params = u.params := h.params.trans h'.params.symm
  have htparams : s.tparams = u.tparams := h.tparams.trans h'.tparams.symm
  obtain ⟨hfunctions, hdone, hbrief, hresult, -, hpdone, -, htdone⟩ := h
  obtain ⟨hfunctions', hdone', hbrief', hresult', -, hpdone', -, htdone'⟩ := h'
  cases s
  cases u
  simp only [mk.injEq] at *
  omega

lemma counts_foldl (cs : List Text) {s : Stats} (h : s.Counts ds) : (cs.foldl Stats.add s).Counts (cs ++ ds) := by
  induction cs generalizing ds s with
  | nil => exact h
  | cons c cs ih => exact (ih (h.add c)).perm perm_middle

lemma counts_ofComments (cs : List Text) : (Stats.ofComments cs).Counts cs := by
  have h := counts_foldl cs (⟨rfl, rfl, rfl, rfl, rfl, rfl, rfl, rfl⟩ : Stats.Counts {} [])
  rwa [append_nil] at h

def Stats.merge (s u : Stats) : Stats where
  functions := s.functions + u.functions
  done := s.done + u.done
  briefDone := s.briefDone + u.briefDone
  tparamsDone := s.tparamsDone + u.tparamsDone
  tparams := s.tparams + u.tparams
  paramsDone := s.paramsDone + u.paramsDone
  params := s.params + u.params
  returnDone := s.returnDone + u.returnDone

lemma Stats.Counts.merge {u : Stats} (h : s.Counts cs) (h' : u.Counts ds) : (s.merge u).Counts (cs ++ ds) := by
  obtain ⟨hfunctions, hdone, hbrief, hresult, hparams, hpdone, htparams, htdone⟩ := h
  obtain ⟨hfunctions', hdone', hbrief', hresult', hparams', hpdone', htparams', htdone'⟩ := h'
  constructor <;>
    simp only [Stats.merge, length_append, countP_append, map_append, sum_append_nat] <;>
    omega

/-! ## Figures that fit together -/

/-- The figures fit together: there are no more done than there are, no function is done whose description or result is open, and if
all functions are done all parameters and template parameters are described. -/
structure Stats.Consistent (s : Stats) : Prop where
  params : s.paramsDone ≤ s.params
  tparams : s.tparamsDone ≤ s.tparams
  done_brief : s.done ≤ s.briefDone
  brief : s.briefDone ≤ s.functions
  done_result : s.done ≤ s.returnDone
  result : s.returnDone ≤ s.functions
  complete : s.done = s.functions → s.paramsDone = s.params ∧ s.tparamsDone = s.tparams

lemma Stats.Counts.consistent (h : s.Counts cs) : s.Consistent := by
  have hbrief : cs.countP (fun c => (analyze c).briefOpen) ≤ cs.countP hasTodo :=
    countP_mono_left fun c _ hc => hasTodo_of_briefOpen hc
  have hresult : cs.countP (fun c => (analyze c).returnOpen) ≤ cs.countP hasTodo :=
    countP_mono_left fun c _ hc => hasTodo_of_returnOpen hc
  obtain ⟨hfunctions, hdone, hbriefDone, hresultDone, -, hparams, -, htparams⟩ := h
  refine ⟨by omega, by omega, by omega, by omega, by omega, by omega, fun hall => ?_⟩
  have hnone : ∀ c ∈ cs, hasTodo c = false := by
    have hzero : cs.countP hasTodo = 0 := by omega
    simpa using countP_eq_zero.mp hzero
  have hparamsZero : (cs.map fun c => (analyze c).paramsOpen).sum = 0 :=
    List.sum_eq_zero_iff_forall_eq_nat.mpr (forall_mem_map.mpr fun c hc => (paramsOpen_eq_zero (hnone c hc)).1)
  have htparamsZero : (cs.map fun c => (analyze c).tparamsOpen).sum = 0 :=
    List.sum_eq_zero_iff_forall_eq_nat.mpr (forall_mem_map.mpr fun c hc => (paramsOpen_eq_zero (hnone c hc)).2)
  omega

/-! ## Figures of entries -/

def documentation (e : Entry) : Text := (e.doxygen.getD none).getD []

lemma commentsOf_eq (h : ∀ e ∈ es, e.doxygen ≠ some none) : commentsOf es = .ok (es.map documentation) := by
  induction es with
  | nil => rfl
  | cons e es ih =>
    obtain ⟨he, hes⟩ := forall_mem_cons.mp h
    have hhead : e.doxygenText (.notSearchable "NoneType") = .ok (documentation e) := by
      rw [Entry.doxygenText, documentation]
      rcases hdoxygen : e.doxygen with _ | _ | t
      · rfl
      · exact absurd hdoxygen he
      · rfl
    have hrest := ih hes
    rw [commentsOf] at hrest ⊢
    rw [mapM_cons, hhead, hrest]
    rfl

lemma ofEntries_eq (h : ∀ e ∈ es, e.doxygen ≠ some none) :
    Stats.ofEntries es = .ok (Stats.ofComments (es.map documentation)) := by
  rw [Stats.ofEntries, commentsOf_eq h]
  rfl

/-- Entries whose documentations are texts have figures. The figures count what the analysis finds and fit together, those of two lists
add up to those of both, and their order does not matter. -/
theorem ofEntries_consistent {es fs : List Entry} (hes : ∀ e ∈ es, e.doxygen ≠ some none) (hfs : ∀ e ∈ fs, e.doxygen ≠ some none) :
    ∃ s u, Stats.ofEntries es = .ok s ∧ Stats.ofEntries fs = .ok u ∧ Stats.ofEntries (es ++ fs) = .ok (s.merge u) ∧
      (∀ es' : List Entry, es'.Perm es → Stats.ofEntries es' = .ok s) ∧ s.Counts (es.map documentation) ∧ s.Consistent := by
  have hcounts := counts_ofComments (es.map documentation)
  refine ⟨_, _, ofEntries_eq hes, ofEntries_eq hfs, ?_, fun es' hperm => ?_, hcounts, hcounts.consistent⟩
  · rw [ofEntries_eq (List.forall_mem_append.mpr ⟨hes, hfs⟩), List.map_append]
    exact congrArg _ ((counts_ofComments _).unique (hcounts.merge (counts_ofComments _)))
  · rw [ofEntries_eq fun e he => hes e (hperm.subset he)]
    exact congrArg _ (((counts_ofComments _).perm (hperm.map documentation)).unique hcounts)

def openEntry : Entry :=
  { doxygen := some (some "/**\n * @brief TODO\n * @param a left\n * @param b TODO\n * @return TODO\n */") }

def doneEntry : Entry := { doxygen := some (some "/**\n * @brief adds\n * @tparam T number\n */") }

def bothFigures : Stats :=
  { functions := 2, done := 1, briefDone := 1, tparamsDone := 1, tparams := 1, paramsDone := 1, params := 2, returnDone := 1 }

/-- The figures of an open and a finished entry fit together and add up. -/
theorem openAndDone_consistent :
    (∀ e ∈ [openEntry], e.doxygen ≠ some none) ∧ (∀ e ∈ [doneEntry], e.doxygen ≠ some none) ∧
      ∃ s u, Stats.ofEntries [openEntry] = .ok s ∧ Stats.ofEntries [doneEntry] = .ok u ∧
        Stats.ofEntries [openEntry, doneEntry] = .ok (s.merge u) ∧ s.merge u = bothFigures ∧ s.Consistent := by
  have hopen : ∀ e ∈ [openEntry], e.doxygen ≠ some none := by decide
  have hdone : ∀ e ∈ [doneEntry], e.doxygen ≠ some none := by decide
  obtain ⟨s, u, hs, hu, hboth, -, -, hconsistent⟩ := ofEntries_consistent hopen hdone
  have hfigures : Stats.ofEntries [openEntry, doneEntry] = .ok bothFigures := by decide +kernel
  exact ⟨hopen, hdone, s, u, hs, hu, hboth, Except.ok.inj (hboth.symm.trans hfigures), hconsistent⟩

end FunctionDocs.Coverage
