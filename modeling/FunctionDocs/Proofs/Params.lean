import FunctionDocs.DocBlock.Params
import FunctionDocs.Proofs.Erase
import FunctionDocs.Proofs.Tags

/-!
# Parameters are parts of their list

The parameters of a list, their names, their default values and the parameters of function pointers are made of characters of
the list.
-/

open List

namespace FunctionDocs.DocBlock

open Text Pattern

lemma infix_of_mem_splitParamsFrom {t p : Text} :
    ∀ {d : Depths} {current : Text}, p ∈ splitParamsFrom d current t → p <:+: current.reverse ++ t := by
  induction t with
  | nil =>
    intro d current h
    simp only [splitParamsFrom] at h
    split at h
    · cases h
    · rw [mem_singleton.mp h]
      simpa using infix_trim current.reverse
  | cons c r ih =>
    intro d current h
    simp only [splitParamsFrom] at h
    split at h
    · rcases mem_cons.mp h with rfl | h
      · exact (infix_trim _).trans (prefix_append _ _).isInfix
      · exact (ih h).trans ((suffix_cons c r).trans (suffix_append _ _)).isInfix
    · simpa using ih h

lemma infix_of_mem_splitParams {t p : Text} (h : p ∈ splitParams t) : p <:+: t := infix_of_mem_splitParamsFrom h

lemma infix_splitDefault_bare (p : Text) : (splitDefault p).1 <:+: p := by
  rw [splitDefault]
  split
  next a b hcut =>
    rw [cutFirst_eq_some hcut, append_assoc]
    exact (infix_trim a).trans (prefix_append _ _).isInfix
  · exact infix_trim p

lemma infix_splitDefault_default {p d : Text} (h : (splitDefault p).2 = some d) : d <:+: p := by
  rw [splitDefault] at h
  split at h
  next a b hcut =>
    cases h
    rw [cutFirst_eq_some hcut]
    exact (infix_trim b).trans (suffix_append _ _).isInfix
  · cases h

lemma trimmed_default {p d : Text} (h : (splitDefault p).2 = some d) : Trimmed d := by
  rw [splitDefault] at h
  split at h
  · cases h
    exact trimmed_trim _
  · cases h

lemma infix_functionPointer {t name inner : Text} (h : functionPointer? t = some (name, inner)) : inner <:+: t := by
  obtain ⟨m, hm, hp⟩ := Option.map_eq_some_iff.mp h
  cases hp
  exact infix_part hm "params"

lemma functionPointer_shape {t name inner : Text} (h : functionPointer? t = some (name, inner)) : Word name ∧ ')' ∉ inner := by
  obtain ⟨m, hm, hp⟩ := Option.map_eq_some_iff.mp h
  obtain ⟨e, he, rfl⟩ := Option.map_eq_some_iff.mp hm
  -- The pattern falls into what stands before the name, the name, what stands before the parameters, and these.
  obtain ⟨-, s₁, -, -, hs₁, h₁⟩ := run_silent (p := .all [.few (· != '\n') 0, .lit "(*", .blanks]) rfl he
  obtain ⟨k, hk, hklen, hword, h₂⟩ := manyFrom_skip h₁
  obtain ⟨-, s₂, -, -, hs₂, h₃⟩ := run_silent (p := .all [.blanks, .lit ")", .blanks, .lit "("]) rfl h₂
  obtain ⟨j, hjlen, hbefore, h₄⟩ := fewFrom_skip rfl h₃
  have hclose : ∀ s : Place, (all [.lit ")"]).run some s = if startsWith s.rest ")" then some (s.skip 1) else none := fun _ => rfl
  have hparts : e.parts = [("params", s₂.rest.take j), ("name", s₁.rest.take k)] := by
    rw [hclose] at h₄
    split at h₄
    · cases h₄
      rw [Place.parts_skip, Place.since_skip hjlen, Place.parts_skip, hs₂, Place.since_skip hklen, Place.parts_skip, hs₁]
    · cases h₄
  have hname : name = s₁.rest.take k ∧ inner = s₂.rest.take j := by
    simp only [Match.part, Match.part?, hparts] at hp
    cases hp
    exact ⟨rfl, rfl⟩
  rw [hname.1, hname.2]
  refine ⟨⟨fun hnil => ?_, hword⟩, fun hmem => ?_⟩
  · have hlen := congrArg List.length hnil
    rw [length_take, length_nil] at hlen
    omega
  · obtain ⟨i, hi, hget⟩ := mem_iff_getElem.mp hmem
    rw [length_take] at hi
    have hrest : startsWith (s₂.rest.drop i) ")" := by
      rw [getElem_take] at hget
      rw [drop_eq_getElem_cons (by omega), hget]
      rfl
    have hnone := hbefore i (by omega) (by omega)
    rw [hclose, Place.rest_skip, if_pos hrest] at hnone
    cases hnone

lemma isWordChar_of_isAsciiLetter {c : Char} (h : isAsciiLetter c) : isWordChar c := by
  simp [isWordChar, h]

lemma word_of_isIdentifier {t : Text} (h : isIdentifier t) : Word t := by
  cases t with
  | nil => cases h
  | cons c r =>
    simp only [isIdentifier, Bool.and_eq_true, Bool.or_eq_true, beq_iff_eq, all_eq_true] at h
    refine ⟨by simp, fun x hx => ?_⟩
    rcases mem_cons.mp hx with rfl | hx
    · rcases h.1 with h | rfl
      · exact isWordChar_of_isAsciiLetter h
      · rfl
    · exact h.2 x hx

lemma word_of_find_isIdentifier (ws : List Text) : (ws.find? isIdentifier).getD [] = [] ∨ Word ((ws.find? isIdentifier).getD []) := by
  cases hf : ws.find? isIdentifier with
  | none => exact .inl rfl
  | some name => exact .inr (word_of_isIdentifier (find?_some hf))

lemma paramName_word (p : Text) : paramName p = [] ∨ Word (paramName p) := by
  rw [paramName]
  split
  next name inner hp =>
    exact .inr (functionPointer_shape hp).1
  · exact word_of_find_isIdentifier _

lemma flat_paramName (p : Text) : Flat (paramName p) := by
  rcases paramName_word p with h | h
  · rw [h]
    simp [Flat]
  · exact h.flat

end FunctionDocs.DocBlock
