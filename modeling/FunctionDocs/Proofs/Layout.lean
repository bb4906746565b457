import FunctionDocs.DocBlock.Compose
import FunctionDocs.Proofs.Tags

/-!
# Texts that hang below a star

In a block comment every line below the first begins with a blank and a star. A text hangs if all its lines but the first begin
so; a text with this property may stand anywhere in a row of a comment. The texts that lines are laid out into hang, and so do
several of them one below the other as long as only one is not empty.
-/

open List

namespace FunctionDocs.DocBlock

open Text

variable {ls : List Text} {t u : Text} {α : Type} {p : List α} {sep margin : Text}

/-! ## Stretches across a separator -/

lemma infix_of_head_not_mem {c : Char} {m a b : Text} (hc : c ∉ a) (h : c :: m <:+: a ++ b) : c :: m <:+: b := by
  induction a with
  | nil => exact h
  | cons d a ih =>
    rw [mem_cons, not_or] at hc
    rw [cons_append, infix_cons_iff] at h
    rcases h with h | h
    · obtain ⟨y, hy⟩ := h
      exact absurd (cons.inj hy).1 hc.1
    · exact ih hc.2 h

lemma infix_append_cons_iff {a b : List α} {s : α} (hs : s ∉ p) : p <:+: a ++ s :: b ↔ p <:+: a ∨ p <:+: b := by
  constructor
  · rintro ⟨x, y, h⟩
    rw [append_assoc, append_eq_append_iff] at h
    rcases h with ⟨z, ha, hb⟩ | ⟨z, hx, hb⟩
    · rw [append_eq_append_iff] at hb
      rcases hb with ⟨w, hz, -⟩ | ⟨w, hp, hw⟩
      · left
        exact ⟨x, w, by rw [ha, hz, append_assoc]⟩
      · cases w with
        | nil =>
          rw [append_nil] at hp
          left
          exact ⟨x, [], by rw [ha, hp, append_nil]⟩
        | cons c w =>
          cases hw
          exact absurd (by rw [hp]; simp) hs
    · cases z with
      | nil =>
        cases p with
        | nil => exact .inl nil_infix
        | cons c p =>
          cases hb
          exact absurd mem_cons_self hs
      | cons c z =>
        cases hb
        right
        exact ⟨z, y, append_assoc z p y⟩
  · rintro (h | h)
    · exact h.trans (prefix_append _ _).isInfix
    · exact h.trans ((suffix_cons s b).trans (suffix_append _ _)).isInfix

lemma prefix_append_cons_iff {a b : List α} {s : α} (hs : s ∉ p) : p <+: a ++ s :: b ↔ p <+: a := by
  constructor
  · rintro ⟨y, h⟩
    rw [append_eq_append_iff] at h
    rcases h with ⟨w, ha, -⟩ | ⟨w, hp, hw⟩
    · exact ⟨w, ha.symm⟩
    · cases w with
      | nil => exact ⟨[], by simp [hp]⟩
      | cons c w =>
        cases hw
        exact absurd (by rw [hp]; simp) hs
  · intro h
    exact h.trans (prefix_append _ _)

lemma not_mem_or_split (c : Char) (t : Text) : c ∉ t ∨ ∃ a b, t = a ++ c :: b ∧ c ∉ a := by
  by_cases h : c ∈ t
  · obtain ⟨a, b, h, ha⟩ := eq_append_cons_of_mem h
    exact .inr ⟨a, b, h, ha⟩
  · exact .inl h

/-! ## Hanging texts -/

/-- Every line of the text but the first begins with a blank and a star. -/
def Hanging (t : Text) : Prop := ∀ a b, t = a ++ '\n' :: b → [' ', '*'] <+: b

lemma hanging_of_flat (h : Flat t) : Hanging t := by
  rintro a b rfl
  exact absurd (by simp) h.not_mem

lemma Hanging.append (ht : Hanging t) (hu : Hanging u) : Hanging (t ++ u) := by
  intro a b h
  rw [append_eq_append_iff] at h
  rcases h with ⟨z, ha, hb⟩ | ⟨z, htz, hz⟩
  · exact hu z b hb
  · cases z with
    | nil => exact hu [] b hz.symm
    | cons c z =>
      cases hz
      exact (ht a z htz).trans (prefix_append _ _)

lemma hanging_cons_iff : Hanging ('\n' :: t) ↔ [' ', '*'] <+: t ∧ Hanging t := by
  constructor
  · intro h
    exact ⟨h [] t rfl, fun a b hab => h ('\n' :: a) b (by rw [hab]; rfl)⟩
  · rintro ⟨hp, h⟩ a b hab
    cases a with
    | nil => cases hab; exact hp
    | cons c a =>
      cases hab
      exact h a b rfl

lemma Hanging.cut {r : Text} (h : Hanging (t ++ r)) (hlast : ∀ c, t.getLast? = some c → isBlank c = false) : Hanging t := by
  rintro a b rfl
  have hp := h a (b ++ r) (by simp)
  match b with
  | [] => exact absurd (hlast '\n' (by simp)) (by decide)
  | [c] =>
    obtain ⟨u, hu⟩ := hp
    cases hu
    exact absurd (hlast ' ' (by simp)) (by decide)
  | c :: d :: b =>
    obtain ⟨u, hu⟩ := hp
    cases hu
    exact ⟨b, rfl⟩

lemma Hanging.of_suffix (h : Hanging t) (hs : u <:+ t) : Hanging u := by
  obtain ⟨v, rfl⟩ := hs
  intro a b hab
  exact h (v ++ a) b (by rw [hab, append_assoc])

lemma Hanging.trimRight (h : Hanging t) : Hanging (trimRight t) := by
  obtain ⟨r, -, hr⟩ := trimRight_split t
  rw [hr] at h
  exact h.cut fun c hc => trimRight_last hc

lemma Hanging.trim (h : Hanging t) : Hanging (trim t) := by
  obtain ⟨l, -, hl⟩ := trimLeft_split t
  exact (h.of_suffix ⟨l, hl.symm⟩).trimRight

lemma forall_splitOnChar_iff : (∀ l ∈ splitOnChar '\n' t, [' ', '*'] <+: l) ↔ [' ', '*'] <+: t ∧ Hanging t := by
  induction hn : t.length using Nat.strongRecOn generalizing t with
  | ind n ih =>
    rcases not_mem_or_split '\n' t with h | ⟨a, b, rfl, ha⟩
    · rw [splitOnChar_of_not_mem h]
      simp only [mem_singleton, forall_eq]
      refine ⟨fun hp => ⟨hp, ?_⟩, And.left⟩
      rintro a b rfl
      exact absurd (by simp) h
    · have ihb := @ih b.length (by rw [← hn]; simp; omega) b rfl
      rw [splitOnChar_append_cons, splitOnChar_of_not_mem ha, singleton_append, forall_mem_cons, ihb,
        prefix_append_cons_iff (by decide), ← hanging_cons_iff]
      refine and_congr_right fun _ => ⟨fun h => ?_, fun h => h.of_suffix (suffix_append _ _)⟩
      refine .append ?_ h
      rintro x y rfl
      exact absurd (by simp) ha

/-! ## Line feeds only -/

/-- No character of the text but the line feed ends a line. -/
def Fed (t : Text) : Prop := ∀ c ∈ t, isLineEnd c = true → c = '\n'
  deriving Decidable

lemma fed_of_flat (h : Flat t) : Fed t := by
  intro c hc he
  rw [h c hc] at he
  cases he

lemma Fed.of_subset (h : Fed t) (hs : u ⊆ t) : Fed u := fun c hc => h c (hs hc)

lemma Fed.append (ht : Fed t) (hu : Fed u) : Fed (t ++ u) := by
  intro c hc
  exact (mem_append.mp hc).elim (ht c) (hu c)

lemma fed_cons (h : Fed t) : Fed ('\n' :: t) := by
  intro c hc he
  rcases mem_cons.mp hc with rfl | hc
  · rfl
  · exact h c hc he

lemma joinWith_fed (hsep : Fed sep) (h : ∀ l ∈ ls, Fed l) : Fed (joinWith sep ls) := by
  fun_induction joinWith sep ls with
  | case1 => exact fed_of_flat (by simp [Flat])
  | case2 t => exact h t mem_cons_self
  | case3 t u r ih =>
    obtain ⟨ht, hr⟩ := forall_mem_cons.mp h
    exact (ht.append hsep).append (ih hr)

/-! ## Laid out lines -/

lemma joinWith_hanging (hsep : Hanging sep) (h : ∀ l ∈ ls, Hanging l) : Hanging (joinWith sep ls) := by
  fun_induction joinWith sep ls with
  | case1 => exact hanging_of_flat (by simp [Flat])
  | case2 t => exact h t mem_cons_self
  | case3 t u r ih =>
    obtain ⟨ht, hr⟩ := forall_mem_cons.mp h
    exact (ht.append hsep).append (ih hr)

lemma unlines_margin (margin l : Text) (ls : List Text) :
    unlines (l :: ls.map (margin ++ ·)) = joinWith ('\n' :: margin) (l :: ls) := by
  induction ls generalizing l with
  | nil => rfl
  | cons m ls ih =>
    have ih := ih m
    rw [unlines] at ih ⊢
    rw [joinWith, ← ih]
    cases ls <;> simp [joinWith]

lemma layOut_cons (margin l : Text) (ls : List Text) :
    layOut margin (l :: ls) = trim (joinWith ('\n' :: margin) ((l :: ls).map trim)) := by
  rw [map_cons, ← unlines_margin, map_map]
  rfl

lemma layOut_hanging (hm : [' ', '*'] <+: margin) (hflat : Flat margin) (h : ∀ l ∈ ls, Row l) : Hanging (layOut margin ls) := by
  cases ls with
  | nil => exact hanging_of_flat (by simp [layOut, Flat])
  | cons l ls =>
    rw [layOut_cons]
    refine (joinWith_hanging (hanging_cons_iff.mpr ⟨hm, hanging_of_flat hflat⟩) ?_).trim
    intro t ht
    obtain ⟨m, hm, rfl⟩ := mem_map.mp ht
    exact hanging_of_flat (row_trim (h m hm).flat).flat

lemma layOut_fed (hflat : Flat margin) (h : ∀ l ∈ ls, Row l) : Fed (layOut margin ls) := by
  cases ls with
  | nil => exact fed_of_flat (by simp [layOut, Flat])
  | cons l ls =>
    rw [layOut_cons]
    refine (joinWith_fed (fed_cons (fed_of_flat hflat)) ?_).of_subset (trim_subset _)
    intro t ht
    obtain ⟨m, hm, rfl⟩ := mem_map.mp ht
    exact fed_of_flat (row_trim (h m hm).flat).flat

lemma trimmed_layOut (margin : Text) (ls : List Text) : Trimmed (layOut margin ls) := by
  cases ls with
  | nil => exact trimmed_nil
  | cons l ls => exact trimmed_trim _

/-! ## One text below the other -/

lemma below_cons (l : Text) (ls : List Text) : below (l :: ls) = '\n' :: l ++ below ls := by simp [below]

lemma below_append (ls ms : List Text) : below (ls ++ ms) = below ls ++ below ms := by simp [below]

/-- Lines around one of them: those above, each with its line feed, and those below. -/
lemma unlines_append_cons (ls : List Text) (x : Text) (ms : List Text) :
    unlines (ls ++ x :: ms) = (ls.flatMap (· ++ ['\n'])) ++ x ++ below ms := by
  induction ls with
  | nil =>
    rw [nil_append]
    induction ms generalizing x with
    | nil => simp [unlines, joinWith, below]
    | cons m ms ih =>
      have ih := ih m
      rw [unlines] at ih ⊢
      rw [joinWith, ih, below_cons]
      simp
  | cons l ls ih =>
    rw [unlines] at ih ⊢
    rw [cons_append]
    cases h : ls ++ x :: ms with
    | nil => simp at h
    | cons m ns => rw [joinWith, ← h, ih]; simp

lemma trim_append_of_not_blank {s : Char} (ht : isBlankLine t = false) (hu : isBlankLine u = false) :
    ∃ t' u' r, trim (t ++ s :: u) = t' ++ s :: u' ∧ u = u' ++ r ∧ isBlankLine r := by
  obtain ⟨r, hr, hru⟩ := trimRight_split u
  refine ⟨trimLeft t, trimRight u, r, ?_, hru, hr⟩
  rw [trim, trimLeft_append_of_not_blank ht, ← singleton_append, ← append_assoc, trimRight_append_of_not_blank hu, append_assoc,
    singleton_append]

lemma hanging_unlines_iff {ns : List Text} (htrim : ∀ n ∈ ns, Trimmed n) (hhang : ∀ n ∈ ns, Hanging n) :
    Hanging (trim (unlines ns)) ↔ (ns.filter (!·.isEmpty)).length ≤ 1 := by
  have hblank : ∀ ls : List Text, (∀ l ∈ ls, ¬(!l.isEmpty)) → isBlankLine (ls.flatMap (· ++ ['\n'])) ∧ isBlankLine (below ls) := by
    intro ls hls
    have hnil : ∀ l ∈ ls, l = [] := fun l hl => by simpa using hls l hl
    constructor <;> rw [isBlankLine_iff] <;> intro c hc
    · obtain ⟨l, hl, hc⟩ := mem_flatMap.mp hc
      rw [hnil l hl, nil_append, mem_singleton] at hc
      exact hc ▸ rfl
    · obtain ⟨l, hl, hc⟩ := mem_flatMap.mp hc
      rw [hnil l hl, mem_singleton] at hc
      exact hc ▸ rfl
  cases hf : ns.filter (!·.isEmpty) with
  | nil =>
    have hall := filter_eq_nil_iff.mp hf
    have htrimmed : trim (unlines ns) = [] := by
      rw [trim_eq_nil_iff]
      cases ns with
      | nil => rfl
      | cons n ns =>
        obtain ⟨hn, hns⟩ := forall_mem_cons.mp hall
        have hn : n = [] := by simpa using hn
        have h := unlines_append_cons [] n ns
        rw [nil_append] at h
        rw [h, hn]
        exact (hblank ns hns).2
    rw [htrimmed]
    exact iff_of_true (hanging_of_flat (by simp [Flat])) (by simp)
  | cons x rest =>
    obtain ⟨l₁, l₂, rfl, hl₁, hx, hl₂⟩ := filter_eq_cons_iff.mp hf
    have hxtrim : Trimmed x := htrim x (by simp)
    cases rest with
    | nil =>
      have hl₂ := filter_eq_nil_iff.mp hl₂
      rw [unlines_append_cons, trim_of_split (hblank l₁ hl₁).1 hxtrim (hblank l₂ hl₂).2]
      exact iff_of_true (hhang x (by simp)) (by simp)
    | cons y rest =>
      obtain ⟨m₁, m₂, rfl, hm₁, hy, -⟩ := filter_eq_cons_iff.mp hl₂
      have hytrim : Trimmed y := htrim y (by simp)
      refine iff_of_false (fun hh => ?_) (by simp)
      have hxb : isBlankLine x = false := by
        cases x with
        | nil => cases hx
        | cons c x => simp [isBlankLine, hxtrim.cons]
      cases y with
      | nil => cases hy
      | cons c y =>
        -- The second text that is not empty begins a line, and it begins with neither blank nor star margin.
        have hsplit : unlines (l₁ ++ x :: (m₁ ++ (c :: y) :: m₂)) =
            (l₁.flatMap (· ++ ['\n']) ++ x ++ below m₁) ++ '\n' :: (c :: y ++ below m₂) := by
          rw [unlines_append_cons, below_append, below_cons]
          simp
        have hA : isBlankLine (l₁.flatMap (· ++ ['\n']) ++ x ++ below m₁) = false := by
          rw [← Bool.not_eq_true, isBlankLine_append, isBlankLine_append]
          simp [hxb]
        have hB : isBlankLine (c :: y ++ below m₂) = false := by
          simp [isBlankLine, hytrim.cons]
        obtain ⟨a, b, r, htrimmed, hbr, hr⟩ := trim_append_of_not_blank hA hB
        rw [hsplit] at hh
        obtain ⟨u, hu⟩ := hh a b htrimmed
        rw [← hu] at hbr
        have hc : c = ' ' := by simpa using congrArg List.head? hbr
        exact absurd hytrim.cons (by rw [hc]; decide)

end FunctionDocs.DocBlock
