import FunctionDocs.Proofs.Erase
import FunctionDocs.Proofs.Functions
import FunctionDocs.Proofs.Joining

/-!
# The head of a function lies on one line

Joining lines, masking brackets and reading a head only move characters of the lines about and add blanks, braces and
placeholders. So the name and the parameters of a function hold no line end, whatever the text.
-/

open List

namespace FunctionDocs.Source

open Text

variable {i : Nat} {line t : Text} {ls : List Text} {j j' : Joined}

/-! ## Joined lines -/

lemma flat_trim (h : Flat t) : Flat (trim t) := h.of_subset (trim_subset t)

lemma flat_beforeComment (h : Flat t) : Flat (beforeComment t) := by
  simp only [beforeComment]
  split
  next m hm =>
    exact h.of_subset (Subset.trans (trimRight_subset _) (Pattern.search_before hm).subset)
  · exact h

lemma dropInline_subset (t : Text) : dropInline t ⊆ t := by
  have hsub : ∀ skip t, dropInlineAfter skip t ⊆ t := by
    intro skip t
    fun_induction dropInlineAfter skip t with
    | case1 => exact Subset.refl _
    | case2 skip c r ih => exact subset_cons_of_subset c ih
    | case3 c r n hn ih => exact subset_cons_of_subset c ih
    | case4 c r hn ih => exact cons_subset_cons c ih
  exact hsub 0 t

lemma flat_dropInline (h : Flat t) : Flat (dropInline t) := h.of_subset (dropInline_subset t)

lemma flat_beginLine (h : Flat line) : (∀ j, beginLine i line = .inl j → Flat j.text) ∧ ∀ o, beginLine i line = .inr o → Flat o.text := by
  have ht := flat_trim h
  simp only [beginLine]
  constructor
  · intro j hj
    split at hj
    · cases hj; exact h
    · split at hj
      · split at hj
        · cases hj
        · cases hj; exact ht
      · cases hj; exact h
  · intro o ho
    split at ho
    · cases ho
    · split at ho
      · split at ho
        · cases ho; exact ht
        · cases ho
      · cases ho

lemma flat_absorb {o o' : OpenLine} (ho : Flat o.text) (hl : Flat line) (h : o.absorb? i line = some o') : Flat o'.text := by
  simp only [OpenLine.absorb?] at h
  split at h
  · cases h
  · cases h
    refine .append (.append ?_ (by simp [Flat, isLineEnd])) (flat_trim hl)
    split
    · exact flat_beforeComment ho
    · exact ho

lemma flat_joinFrom {pending : Option OpenLine} (hls : ∀ l ∈ ls, Flat l)
    (hp : ∀ o ∈ pending, Flat o.text) : ∀ j ∈ joinFrom i pending ls, Flat j.text := by
  refine @forall_joinFrom (fun j => Flat j.text) (fun _ o => Flat o.text) (fun _ l => Flat l) ?_ ?_ ?_ ls i pending ?_ hp
  · exact fun _ _ hl => flat_beginLine hl
  · exact fun _ _ _ _ hl ho => flat_absorb ho hl
  · exact fun _ _ ho => ho
  · exact fun _ l hl => hls l (mem_of_getElem? hl)

lemma flat_closePieces {ps : List Text} (h : ∀ p ∈ ps, Flat p) : ∀ p ∈ closePieces ps, Flat p := by
  fun_induction closePieces ps with
  | case1 => exact h
  | case2 p => exact h
  | case3 p ps hps ih =>
    intro q hq
    rcases mem_cons.mp hq with rfl | hq
    · exact (h p mem_cons_self).append (by simp [Flat, isLineEnd])
    · exact ih (fun x hx => h x (mem_cons_of_mem _ hx)) q hq

lemma flat_splitDefinitions (h : Flat j.text) (hj : j' ∈ j.splitDefinitions) : Flat j'.text := by
  simp only [Joined.splitDefinitions, mem_map, mem_filter] at hj
  obtain ⟨t, ⟨⟨p, hp, rfl⟩, -⟩, rfl⟩ := hj
  refine flat_trim (flat_closePieces ?_ p hp)
  intro q hq
  exact (flat_trim (flat_dropInline h)).of_subset (Pattern.mem_split hq)

lemma flat_headAndBody {head body : Text} (h : Flat t) (hb : headAndBody? t = some (head, body)) : Flat head ∧ Flat body := by
  simp only [headAndBody?] at hb
  split at hb
  · split at hb
    next a b hcut =>
      rw [cutFirst_eq_some hcut, append_assoc, flat_append, flat_append] at h
      split at hb
      · split at hb
        · cases hb
          exact ⟨flat_trim h.1, flat_trim ((flat_trim h.2.2).of_subset (dropLast_subset _))⟩
        · cases hb
      · cases hb
    · cases hb
  · cases hb

lemma flat_splitBody (h : Flat j.text) (hj : j' ∈ j.splitBody) : Flat j'.text := by
  simp only [Joined.splitBody] at hj
  split at hj
  next head body hb =>
    obtain ⟨hhead, hbody⟩ := flat_headAndBody h hb
    rcases mem_cons.mp hj with rfl | hj
    · exact hhead.append (by simp [Flat, isLineEnd])
    · rw [mem_singleton] at hj
      subst hj
      exact hbody.append (by simp [Flat, isLineEnd])
  · rw [mem_singleton] at hj
    exact hj ▸ h

lemma flat_joinLines (h : ∀ l ∈ ls, Flat l) : ∀ j ∈ joinLines ls, Flat j.text := by
  intro j hj
  simp only [joinLines, mem_flatMap] at hj
  obtain ⟨j₂, ⟨j₁, hj₁, hj₂⟩, hj⟩ := hj
  exact flat_splitBody (flat_splitDefinitions (flat_joinFrom h (by simp) j₁ hj₁) hj₂) hj

/-! ## Masked lines -/

lemma flat_placeholder (n : Nat) : Flat (placeholder n) :=
  ((by simp [Flat, isLineEnd] : Flat "__TPL").append (flat_ofNat n)).append (by simp [Flat, isLineEnd])

/-- The text of a masked line and all that it stands for lie on one line. -/
structure Masked.OneLine (m : Masked) : Prop where
  text : Flat m.text
  parts : ∀ part ∈ m.parts, Flat part.2

lemma oneLine_maskFrom : ∀ {n depth : Nat} {held : Text}, Flat held → Flat t → (maskFrom n depth held t).OneLine := by
  induction t with
  | nil =>
    intro n depth held hheld _
    exact ⟨hheld.of_subset (reverse_subset.mpr (Subset.refl _)), by simp [maskFrom]⟩
  | cons c r ih =>
    intro n depth held hheld ht
    have hc : Flat [c] := ht.of_subset (by simp)
    have hr : Flat r := ht.of_subset (subset_cons_self c r)
    have hnil : Flat [] := by simp [Flat]
    cases depth with
    | zero =>
      simp only [maskFrom]
      split
      · exact ih hc hr
      · obtain ⟨htext, hparts⟩ := @ih n 0 [] hnil hr
        exact ⟨hc.append htext, hparts⟩
    | succ depth =>
      have hcons : Flat (c :: held) := hc.append hheld
      cases depth with
      | zero =>
        simp only [maskFrom]
        split
        · exact ih hcons hr
        · split
          · obtain ⟨htext, hparts⟩ := @ih (n + 1) 0 [] hnil hr
            refine ⟨(flat_placeholder n).append htext, fun part hpart => ?_⟩
            rcases mem_cons.mp hpart with rfl | hpart
            · exact hcons.of_subset (reverse_subset.mpr (Subset.refl _))
            · exact hparts part hpart
          · exact ih hcons hr
      | succ depth =>
        simp only [maskFrom]
        split
        · exact ih hcons hr
        · split
          · exact ih hcons hr
          · exact ih hcons hr

lemma oneLine_mask (h : Flat line) : (mask line).OneLine := oneLine_maskFrom (by simp [Flat]) h

lemma Masked.OneLine.restore {m : Masked} (hm : m.OneLine) {t : Text} (ht : Flat t) : Flat (m.restore t) := by
  obtain ⟨text, parts⟩ := m
  have hparts : ∀ part ∈ parts, Flat part.2 := hm.parts
  clear hm
  induction parts generalizing t with
  | nil => exact ht
  | cons part parts ih =>
    refine ih ?_ fun p hp => hparts p (mem_cons_of_mem _ hp)
    intro c hc
    rcases mem_replaceAll hc with hc | hc
    · exact hparts part mem_cons_self c hc
    · exact ht c hc

/-! ## Heads -/

lemma readTemplate_subset (m : Masked) (pending : PendingTemplate) : (readTemplate m pending).2 ⊆ m.text := by
  unfold readTemplate
  split
  · split
    · exact Pattern.erase_subset _ _
    · exact Subset.refl _
  · exact Subset.refl _

lemma beforeSlashes_subset (t : Text) : beforeSlashes t ⊆ t := by
  fun_induction beforeSlashes t with
  | case1 => exact Subset.refl _
  | case2 => exact nil_subset _
  | case3 c r _ ih => exact cons_subset_cons c ih

lemma headText_subset (t : Text) : headText t ⊆ t :=
  Subset.trans (trimRight_subset _) (Subset.trans (beforeSlashes_subset _) (dropInline_subset t))

lemma flat_readHead {below : List Joined} {h : Head} (hl : Flat line)
    (hh : readHead line below = .ok (some h)) : Flat h.name ∧ Flat h.params := by
  have hpart : ∀ {p : Pattern} {m : Pattern.Match} (name : String), p.match? line = some m → Flat (m.part name) :=
    fun name hm => hl.of_subset (Pattern.infix_part hm name).subset
  have hctor : ∀ h', constructorHead? line = some h' → Flat h'.name ∧ Flat h'.params := by
    intro h' hc
    obtain ⟨m, hm, rfl⟩ := Option.map_eq_some_iff.mp hc
    exact ⟨hpart _ hm, flat_trim (hpart _ hm)⟩
  have hfun : ∀ h', functionHead? line = some h' → Flat h'.name ∧ Flat h'.params := by
    intro h' hc
    obtain ⟨m, hm, rfl⟩ := Option.map_eq_some_iff.mp hc
    exact ⟨hpart _ hm, flat_trim (hpart _ hm)⟩
  simp only [readHead] at hh
  split at hh
  next h' hc =>
    cases hh
    exact hctor _ hc
  · split at hh
    · cases hh
    next h' hf =>
      split at hh
      · cases hh
        exact hfun _ hf
      · cases hh

lemma functionsOf_flat {content file : Text} {fs : List Function} (h : functionsOf content file = .ok fs) :
    ∀ f ∈ fs, Flat f.name ∧ Flat f.params := by
  refine functionsOf_induct (fun fs => ∀ f ∈ fs, Flat f.name ∧ Flat f.params) (by simp) ?_ h
  rintro before f hb ⟨j, hj, pending, below, head, hhead, hf⟩
  intro g hg
  rcases mem_append.mp hg with hg | hg
  · exact hb g hg
  · rw [mem_singleton] at hg
    subst hg
    have hj : Flat j.text := flat_joinLines (fun l hl => (mem_lines hl).2) j hj
    have hm := oneLine_mask hj
    obtain ⟨hname, hparams⟩ := flat_readHead
      (hm.text.of_subset (Subset.trans (headText_subset _) (readTemplate_subset _ pending))) hhead
    obtain ⟨comment, -, rfl⟩ := Sheet.function_ok hf
    exact ⟨hname, hm.restore hparams⟩

end FunctionDocs.Source
