import FunctionDocs.Coverage.Analysis
import FunctionDocs.Proofs.Tags

/-!
# What the analysis of a comment finds

The analysis goes through the lines of a comment and counts those with a tag. Each number it gives is the number of lines of one
kind, so all places of a kind are open exactly if every line of that kind is. Behind the tag of a parameter it wants a name made of
word characters; a line without such a name is counted, but never as open.
-/

open List

namespace FunctionDocs.Coverage

open Text

variable {n d : Text}

/-! ## What the analysis counts -/

lemma tags_clash {l a b : Text} (ha : startsWith l a) (hb : startsWith l b) (hab : ¬a <+: b) (hba : ¬b <+: a) : False :=
  ( prefix_or_prefix_of_prefix (startsWith_iff.mp ha) (startsWith_iff.mp hb)).elim hab hba

lemma tags_apart (l : Text) :
    (startsWith l "* @brief" →
      startsWith l "* @tparam" = false ∧ startsWith l "* @param" = false ∧ startsWith l "* @return" = false) ∧
    (startsWith l "* @tparam" → startsWith l "* @param" = false ∧ startsWith l "* @return" = false) ∧
    (startsWith l "* @param" → startsWith l "* @return" = false) := by
  refine ⟨fun h => ⟨?_, ?_, ?_⟩, fun h => ⟨?_, ?_⟩, fun h => ?_⟩ <;>
    exact Bool.eq_false_iff.mpr fun h' => tags_clash h h' (by decide) (by decide)

/-- The findings are those of the lines: whether a description or a result is open, and how many places of the other kinds there are
and are open. -/
structure Analysis.Counts (a : Analysis) (ls : List Text) : Prop where
  briefOpen : a.briefOpen = ls.any fun l => startsWith l "* @brief" && hasTodo l
  returnOpen : a.returnOpen = ls.any fun l => startsWith l "* @return" && hasTodo l
  params : a.params = ls.countP (startsWith · "* @param")
  paramsOpen : a.paramsOpen = ls.countP fun l => startsWith l "* @param" && (describedAs? (l.drop 8)).any hasTodo
  tparams : a.tparams = ls.countP (startsWith · "* @tparam")
  tparamsOpen : a.tparamsOpen = ls.countP fun l => startsWith l "* @tparam" && (describedAs? (l.drop 9)).any hasTodo

lemma Analysis.Counts.addLine {a : Analysis} {ls : List Text} (h : a.Counts ls) (l : Text) : (a.addLine l).Counts (ls ++ [l]) := by
  obtain ⟨hbrief, htparam, hparam⟩ := tags_apart l
  constructor <;> simp only [any_append, any_cons, any_nil, Bool.or_false, countP_append, countP_singleton, ← h.briefOpen,
    ← h.returnOpen, ← h.params, ← h.paramsOpen, ← h.tparams, ← h.tparamsOpen, Analysis.addLine] <;> (repeat' split) <;> simp_all

lemma counts_analyze (t : Text) : (analyze t).Counts (t.lines.map trim) := by
  have hrun : ∀ (ls : List Text) {a : Analysis} {ks : List Text}, a.Counts ks →
      (ls.foldl (fun a l => a.addLine (trim l)) a).Counts (ks ++ ls.map trim) := by
    intro ls
    induction ls with
    | nil => simp
    | cons l ls ih => exact fun h => by simpa using ih (h.addLine (trim l))
  exact @hrun t.lines _ [] ⟨rfl, rfl, rfl, rfl, rfl, rfl⟩

lemma countP_and_eq_iff {ls : List Text} (p q : Text → Bool) :
    (ls.countP fun l => p l && q l) = ls.countP p ↔ ∀ l ∈ ls, p l → q l := by
  have hfilter : (ls.countP fun l => p l && q l) = (ls.filter p).countP q := by
    rw [countP_filter]
    simp only [Bool.and_comm]
  rw [hfilter, countP_eq_length_filter (p := p), countP_eq_length]
  simp only [mem_filter, and_imp]

section Findings

variable (t : Text)

lemma briefOpen_iff : (analyze t).briefOpen ↔ ∃ l ∈ t.lines, startsWith (trim l) "* @brief" ∧ hasTodo (trim l) := by
  simp [(counts_analyze t).briefOpen]

lemma returnOpen_iff : (analyze t).returnOpen ↔ ∃ l ∈ t.lines, startsWith (trim l) "* @return" ∧ hasTodo (trim l) := by
  simp [(counts_analyze t).returnOpen]

lemma paramsOpen_eq_iff :
    (analyze t).paramsOpen = (analyze t).params ↔
      ∀ l ∈ t.lines, startsWith (trim l) "* @param" → (describedAs? ((trim l).drop 8)).any hasTodo := by
  rw [(counts_analyze t).paramsOpen, (counts_analyze t).params, countP_and_eq_iff, forall_mem_map]

lemma tparamsOpen_eq_iff :
    (analyze t).tparamsOpen = (analyze t).tparams ↔
      ∀ l ∈ t.lines, startsWith (trim l) "* @tparam" → (describedAs? ((trim l).drop 9)).any hasTodo := by
  rw [(counts_analyze t).tparamsOpen, (counts_analyze t).tparams, countP_and_eq_iff, forall_mem_map]

end Findings

/-! ## Names that the analysis reads -/

lemma describedAs_of_word (hn : DocBlock.Word n) (hd : Trimmed d) (hflat : Flat d) :
    describedAs? (' ' :: (n ++ ' ' :: d)) = some d := by
  obtain ⟨htake, hdrop⟩ := span_append (b := ' ' :: d) hn.chars (by rintro _ ⟨⟩; decide)
  have htext : (' ' :: d).dropWhile isBlank = d := (span_append (a := [' ']) (by decide) hd.head).2
  have hend : (' ' :: d).head?.any isBlank := rfl
  rw [describedAs?, htake, hdrop, htext, takeWhile_ne hflat.not_mem, hend]
  simp [hn.nonempty]

lemma describedAs_of_not_word (hblank : ∀ c ∈ n, isBlank c = false) (hn : ¬DocBlock.Word n) :
    describedAs? (' ' :: (n ++ ' ' :: d)) = none := by
  rw [describedAs?, if_pos]
  rw [Bool.or_eq_true, List.isEmpty_iff]
  by_cases hnil : n = []
  · left
    rw [hnil]
    rfl
  · -- the first character that is not of a word stands in the name, so it is no blank
    have hall : ¬∀ c ∈ n, isWordChar c := fun h => hn ⟨hnil, h⟩
    have hdrop : n.dropWhile isWordChar ≠ [] := fun h => hall (List.dropWhile_eq_nil_iff.mp h)
    obtain ⟨c, r, hcr⟩ := exists_cons_of_ne_nil hdrop
    rw [dropWhile_append, hcr]
    have hc : isBlank c = false := hblank c ((dropWhile_suffix _).subset (hcr ▸ List.mem_cons_self))
    simp [hc]

lemma describedAs_open_iff (hblank : ∀ c ∈ n, isBlank c = false) (hd : Trimmed d) (hflat : Flat d)
    (htodo : hasTodo d) :
    (describedAs? (' ' :: (n ++ ' ' :: d))).any hasTodo ↔ DocBlock.Word n := by
  by_cases hn : DocBlock.Word n
  · rw [describedAs_of_word hn hd hflat]
    exact iff_of_true htodo hn
  · rw [describedAs_of_not_word hblank hn]
    exact iff_of_false Bool.false_ne_true hn

end FunctionDocs.Coverage
