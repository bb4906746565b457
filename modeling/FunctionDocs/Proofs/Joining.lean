import FunctionDocs.Proofs.Text
import FunctionDocs.Source.Joined

/-!
# Where joined lines come from

Lines are joined one after the other, and a joined line is split into pieces afterwards. Before the split the joined lines tile the
lines of the source: each comes from a run of lines, the next one from the run that follows, and no line is left out. The pieces of a
joined line keep its run, and none of them is blank.
-/

open List

namespace FunctionDocs.Source

open Text

variable {j k : Joined} {js : List Joined} {hi i lo : Nat}

/-! ## One more line -/

lemma beginLine_range (i : Nat) (l : Text) :
    (∀ j, beginLine i l = .inl j → j.first = i ∧ j.last = i) ∧ ∀ o, beginLine i l = .inr o → o.first = i ∧ o.last = i := by
  simp only [beginLine]
  refine ⟨fun j hj => ?_, fun o ho => ?_⟩ <;> split at * <;> grind

lemma absorb_range {o o' : OpenLine} {l : Text} (h : o.absorb? i l = some o') : o'.first = o.first ∧ o'.last = i := by
  simp only [OpenLine.absorb?] at h
  split at h
  · cases h
  · cases h
    exact ⟨rfl, rfl⟩

/-- What one more line can do: complete the open declaration, go on with it, or end it and stand for itself or open another one. -/
lemma joinFrom_cons (i : Nat) (pending : Option OpenLine) (l : Text) (ls : List Text) :
    (∃ o ∈ pending, ∃ o', o.absorb? i l = some o' ∧ joinFrom i pending (l :: ls) = o'.close :: joinFrom (i + 1) none ls) ∨
    (∃ o ∈ pending, ∃ o', o.absorb? i l = some o' ∧ joinFrom i pending (l :: ls) = joinFrom (i + 1) (some o') ls) ∨
    (∃ j, beginLine i l = .inl j ∧
      joinFrom i pending (l :: ls) = (pending.map OpenLine.close).toList ++ j :: joinFrom (i + 1) none ls) ∨
    ∃ o, beginLine i l = .inr o ∧
      joinFrom i pending (l :: ls) = (pending.map OpenLine.close).toList ++ joinFrom (i + 1) (some o) ls := by
  rw [joinFrom]
  cases hbind : pending.bind (·.absorb? i l) with
  | some o' =>
    obtain ⟨o, ho, habsorb⟩ := Option.bind_eq_some_iff.mp hbind
    cases hcomplete : o'.isComplete with
    | true => exact .inl ⟨o, ho, o', habsorb, if_pos hcomplete⟩
    | false => exact .inr (.inl ⟨o, ho, o', habsorb, if_neg (by simp [hcomplete])⟩)
  | none =>
    cases hbegin : beginLine i l with
    | inl j => exact .inr (.inr (.inl ⟨j, rfl, rfl⟩))
    | inr o => exact .inr (.inr (.inr ⟨o, rfl, rfl⟩))

lemma forall_joinFrom {φ : Joined → Prop} {ψ : Nat → OpenLine → Prop} {χ : Nat → Text → Prop}
    (hbegin : ∀ i l, χ i l → (∀ j, beginLine i l = .inl j → φ j) ∧ ∀ o, beginLine i l = .inr o → ψ (i + 1) o)
    (habsorb : ∀ i l o o', χ i l → ψ i o → o.absorb? i l = some o' → ψ (i + 1) o') (hclose : ∀ i o, ψ i o → φ o.close)
    {ls : List Text} {i : Nat} {pending : Option OpenLine} (hls : ∀ k l, ls[k]? = some l → χ (i + k) l)
    (hpending : ∀ o ∈ pending, ψ i o) : ∀ j ∈ joinFrom i pending ls, φ j := by
  induction ls generalizing i pending with
  | nil =>
    intro j hj
    cases pending with
    | none => cases hj
    | some o =>
      rw [mem_singleton.mp hj]
      exact hclose i o (hpending o rfl)
  | cons l ls ih =>
    have hl : χ i l := hls 0 l rfl
    have hrest : ∀ {pending : Option OpenLine}, (∀ o ∈ pending, ψ (i + 1) o) → ∀ j ∈ joinFrom (i + 1) pending ls, φ j :=
      ih fun k x hx => by
        have hk := hls (k + 1) x (by simpa using hx)
        rwa [← Nat.add_assoc, Nat.add_right_comm] at hk
    have hended : ∀ j ∈ (pending.map OpenLine.close).toList, φ j := by
      intro j hj
      obtain ⟨o, ho, rfl⟩ := Option.map_eq_some_iff.mp (Option.mem_toList.mp hj)
      exact hclose i o (hpending o ho)
    rcases joinFrom_cons i pending l ls with ⟨o, ho, o', hab, heq⟩ | ⟨o, ho, o', hab, heq⟩ | ⟨j, hb, heq⟩ | ⟨o, hb, heq⟩ <;> rw [heq]
    · exact forall_mem_cons.mpr ⟨hclose _ _ (habsorb i l o o' hl (hpending o ho) hab), hrest (by simp)⟩
    · exact hrest (by simpa using habsorb i l o o' hl (hpending o ho) hab)
    · exact forall_mem_append.mpr ⟨hended, forall_mem_cons.mpr ⟨(hbegin i l hl).1 j hb, hrest (by simp)⟩⟩
    · exact forall_mem_append.mpr ⟨hended, hrest (by simpa using (hbegin i l hl).2 o hb)⟩

/-! ## Joined lines tile the lines -/

/-- The joined lines come from the lines from `lo` up to but not including `hi`, each from a run of lines that begins where the one
before ends. -/
def Tiles (hi : Nat) : Nat → List Joined → Prop
  | lo, [] => lo = hi
  | lo, j :: js => j.first = lo ∧ lo ≤ j.last ∧ Tiles hi (j.last + 1) js

lemma Tiles.le (h : Tiles hi lo js) : lo ≤ hi := by
  induction js generalizing lo with
  | nil => exact le_of_eq h
  | cons j js ih =>
    obtain ⟨-, hlast, hrest⟩ := h
    have := ih hrest
    omega

lemma Tiles.bounds (h : Tiles hi lo js) : ∀ j ∈ js, lo ≤ j.first ∧ j.first ≤ j.last ∧ j.last < hi := by
  induction js generalizing lo with
  | nil => nofun
  | cons j js ih =>
    obtain ⟨hfirst, hlast, hrest⟩ := h
    have hle := hrest.le
    refine forall_mem_cons.mpr ⟨by omega, fun k hk => ?_⟩
    have := ih hrest k hk
    omega

lemma Tiles.apart (h : Tiles hi lo js) : js.Pairwise fun a b => a.last < b.first := by
  induction js generalizing lo with
  | nil => exact .nil
  | cons j js ih =>
    obtain ⟨-, -, hrest⟩ := h
    exact .cons (fun k hk => (hrest.bounds k hk).1) (ih hrest)

lemma Tiles.covers (h : Tiles hi lo js) (hlo : lo ≤ i) (hhi : i < hi) : ∃ j ∈ js, j.first ≤ i ∧ i ≤ j.last := by
  induction js generalizing lo with
  | nil =>
    have hnone : lo = hi := h
    omega
  | cons j js ih =>
    obtain ⟨hfirst, -, hrest⟩ := h
    by_cases hi : i ≤ j.last
    · exact ⟨j, mem_cons_self, by omega, hi⟩
    · obtain ⟨k, hk, hcover⟩ := ih hrest (by omega)
      exact ⟨k, mem_cons_of_mem _ hk, hcover⟩

def openFrom (i : Nat) (pending : Option OpenLine) : Nat := (pending.map OpenLine.first).getD i

lemma Tiles.ended {pending : Option OpenLine} (hpending : ∀ o ∈ pending, o.first ≤ o.last ∧ o.last + 1 = i) (h : Tiles hi i js) :
    Tiles hi (openFrom i pending) ((pending.map OpenLine.close).toList ++ js) := by
  cases pending with
  | none => exact h
  | some o =>
    obtain ⟨hle, hnext⟩ := hpending o rfl
    exact ⟨rfl, hle, (hnext ▸ h : Tiles hi (o.last + 1) js)⟩

lemma tiles_joinFrom {ls : List Text} {i : Nat} {pending : Option OpenLine}
    (hpending : ∀ o ∈ pending, o.first ≤ o.last ∧ o.last + 1 = i) :
    Tiles (i + ls.length) (openFrom i pending) (joinFrom i pending ls) := by
  induction ls generalizing i pending with
  | nil =>
    have hnil : joinFrom i pending [] = (pending.map OpenLine.close).toList ++ [] := by rw [joinFrom, append_nil]
    rw [hnil]
    exact Tiles.ended hpending (show i = i + 0 from rfl)
  | cons l ls ih =>
    have hlen : i + (l :: ls).length = i + 1 + ls.length := by rw [length_cons]; omega
    have hnext : Tiles (i + 1 + ls.length) (i + 1) (joinFrom (i + 1) none ls) := @ih (i + 1) none (by simp)
    rw [hlen]
    rcases joinFrom_cons i pending l ls with ⟨o, ho, o', hab, heq⟩ | ⟨o, ho, o', hab, heq⟩ | ⟨j, hb, heq⟩ | ⟨o, hb, heq⟩ <;> rw [heq]
    · obtain ⟨hfirst, hlast⟩ := absorb_range hab
      obtain ⟨hle, hprev⟩ := hpending o ho
      cases ho
      exact ⟨hfirst, show o.first ≤ o'.last by omega, (hlast ▸ hnext : Tiles _ (o'.last + 1) _)⟩
    · obtain ⟨hfirst, hlast⟩ := absorb_range hab
      obtain ⟨hle, hprev⟩ := hpending o ho
      cases ho
      have hopen : Tiles _ o'.first _ := @ih (i + 1) (some o') (fun q hq => by cases hq; omega)
      rw [hfirst] at hopen
      exact hopen
    · obtain ⟨hfirst, hlast⟩ := (beginLine_range i l).1 j hb
      exact .ended hpending ⟨hfirst, hlast.ge, (hlast ▸ hnext : Tiles _ (j.last + 1) _)⟩
    · obtain ⟨hfirst, hlast⟩ := (beginLine_range i l).2 o hb
      have hopen : Tiles _ o.first _ := @ih (i + 1) (some o) (fun q hq => by cases hq; omega)
      rw [hfirst] at hopen
      exact Tiles.ended hpending hopen

lemma tiles_lines (ls : List Text) : Tiles ls.length 0 (joinFrom 0 none ls) := by
  have h := @tiles_joinFrom ls 0 none (by simp)
  rwa [Nat.zero_add] at h

/-! ## Pieces of a joined line -/

/-- The pieces that a joined line is split into: its definitions, and of each the head and the body. -/
def Joined.pieces (j : Joined) : List Joined := j.splitDefinitions.flatMap Joined.splitBody

lemma joinLines_eq_flatMap (ls : List Text) : joinLines ls = (joinFrom 0 none ls).flatMap Joined.pieces := flatMap_assoc

lemma range_splitDefinitions (hk : k ∈ j.splitDefinitions) : k.first = j.first ∧ k.last = j.last := by
  obtain ⟨t, -, rfl⟩ := mem_map.mp hk
  exact ⟨rfl, rfl⟩

lemma range_splitBody (hk : k ∈ j.splitBody) : k.first = j.first ∧ k.last = j.last := by
  rw [Joined.splitBody] at hk
  split at hk
  · rcases mem_cons.mp hk with rfl | hk
    · exact ⟨rfl, rfl⟩
    · rw [mem_singleton.mp hk]
      exact ⟨rfl, rfl⟩
  · rw [mem_singleton.mp hk]
    exact ⟨rfl, rfl⟩

lemma isBlankLine_of_mem {t : Text} {c : Char} (hmem : c ∈ t) (hc : isBlank c = false) : isBlankLine t = false := by
  refine Bool.eq_false_iff.mpr fun hblank => ?_
  rw [isBlankLine_iff.mp hblank c hmem] at hc
  cases hc

lemma not_blank_splitDefinitions (hk : k ∈ j.splitDefinitions) : isBlankLine k.text = false := by
  obtain ⟨t, ht, rfl⟩ := mem_map.mp hk
  obtain ⟨htrim, hne⟩ := mem_filter.mp ht
  obtain ⟨p, -, rfl⟩ := mem_map.mp htrim
  refine Bool.eq_false_iff.mpr fun hblank => ?_
  have hnil : trim p = [] := (trimmed_trim p).trim_eq ▸ trim_eq_nil_iff.mpr hblank
  rw [hnil] at hne
  cases hne

lemma not_blank_splitBody (hj : isBlankLine j.text = false) (hk : k ∈ j.splitBody) : isBlankLine k.text = false := by
  rw [Joined.splitBody] at hk
  split at hk
  · rcases mem_cons.mp hk with rfl | hk
    · exact isBlankLine_of_mem (c := '{') (by simp) rfl
    · rw [mem_singleton.mp hk]
      exact isBlankLine_of_mem (c := '}') (by simp) rfl
  · rw [mem_singleton.mp hk]
    exact hj

lemma mem_pieces (hk : k ∈ j.pieces) : (k.first = j.first ∧ k.last = j.last) ∧ isBlankLine k.text = false := by
  obtain ⟨d, hd, hk⟩ := mem_flatMap.mp hk
  obtain ⟨hfirst, hlast⟩ := range_splitDefinitions hd
  obtain ⟨hfirst', hlast'⟩ := range_splitBody hk
  exact ⟨⟨hfirst'.trans hfirst, hlast'.trans hlast⟩, not_blank_splitBody (not_blank_splitDefinitions hd) hk⟩

/-- The lines that result from joining and splitting are not blank, and each comes from a run of lines of the source. Two of them come
from the same run, or the first one from a run that ends above the other. -/
theorem joinLines_ranges (ls : List Text) :
    ((joinLines ls).map Joined.first).length = ((joinLines ls).map Joined.text).length ∧
    ((joinLines ls).map Joined.last).length = ((joinLines ls).map Joined.text).length ∧
    (∀ j ∈ joinLines ls, isBlankLine j.text = false ∧ j.first ≤ j.last ∧ j.last < ls.length) ∧
    (joinLines ls).Pairwise fun a b => (a.first = b.first ∧ a.last = b.last) ∨ a.last < b.first := by
  have htiles := tiles_lines ls
  refine ⟨by simp, by simp, ?_, ?_⟩
  · intro k hk
    rw [joinLines_eq_flatMap] at hk
    obtain ⟨j, hj, hk⟩ := List.mem_flatMap.mp hk
    obtain ⟨⟨hfirst, hlast⟩, hblank⟩ := mem_pieces hk
    obtain ⟨-, hle, hlt⟩ := htiles.bounds j hj
    rw [hfirst, hlast]
    exact ⟨hblank, hle, hlt⟩
  · rw [joinLines_eq_flatMap, List.pairwise_flatMap]
    refine ⟨fun j _ => List.pairwise_of_forall_mem_list fun a ha b hb => Or.inl ?_, htiles.apart.imp fun {j k} hapart a ha b hb => ?_⟩
    · obtain ⟨⟨hfirst, hlast⟩, -⟩ := mem_pieces ha
      obtain ⟨⟨hfirst', hlast'⟩, -⟩ := mem_pieces hb
      exact ⟨hfirst.trans hfirst'.symm, hlast.trans hlast'.symm⟩
    · obtain ⟨⟨-, hlast⟩, -⟩ := mem_pieces ha
      obtain ⟨⟨hfirst, -⟩, -⟩ := mem_pieces hb
      rw [hlast, hfirst]
      exact Or.inr hapart

end FunctionDocs.Source
