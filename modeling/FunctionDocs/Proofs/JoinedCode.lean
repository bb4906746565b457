import FunctionDocs.Proofs.Inline
import FunctionDocs.Proofs.Layout
import FunctionDocs.Proofs.Spacing

/-!
# Code that joining keeps

Lines are trimmed when they are joined, a joined line is cut behind closing braces, and a body is put apart from its head. Where no
comment begins, all of this moves white space only: the pieces of a joined line, one after the other, hold the characters of the lines
it comes from, and a line that no piece comes from is blank.
-/

open List

namespace FunctionDocs.Pattern

variable {m : Match} {p : Pattern} {t : Text}

/-! ## Texts around and inside matches -/

lemma matchesFrom_flatten (p : Pattern) (t : Text) :
    ∀ (skip : Nat) (gap : Text) (s : Place), s.rest = t →
      ((p.matchesFrom skip gap t s).1.map fun x => x.1 ++ x.2.text).flatten ++ (p.matchesFrom skip gap t s).2 =
        gap.reverse ++ t.drop skip := by
  induction t with
  | nil =>
    simp [matchesFrom]
  | cons c r ih =>
    intro skip gap s hs
    cases skip with
    | succ skip => exact ih skip gap (s.step c r) rfl
    | zero =>
      have hpass : ((p.matchesFrom 0 (c :: gap) r (s.step c r)).1.map fun x => x.1 ++ x.2.text).flatten ++
          (p.matchesFrom 0 (c :: gap) r (s.step c r)).2 = gap.reverse ++ c :: r := by
        rw [ih 0 (c :: gap) (s.step c r) rfl, reverse_cons, append_assoc]
        rfl
      rw [matchesFrom]
      cases hm : p.matchAt? s with
      | none => exact hpass
      | some m =>
        by_cases hempty : m.text.isEmpty
        · rw [drop_zero]
          simpa only [hempty, if_true] using hpass
        · have hrest := (matchAt_takes hm).2.symm
          obtain ⟨d, u, htext⟩ := exists_cons_of_ne_nil (mt isEmpty_iff.mpr hempty)
          rw [hs, htext, cons_append, cons.injEq] at hrest
          obtain ⟨rfl, rfl⟩ := hrest
          have hafter := ih (m.text.length - 1) [] (s.step d (u ++ m.after)) rfl
          simp only [htext, length_cons, Nat.add_sub_cancel, drop_left] at hafter
          simp only [htext, isEmpty_cons, Bool.false_eq_true, if_false, length_cons, Nat.add_sub_cancel, map_cons,
            flatten_cons, append_assoc, hafter]
          rfl

lemma replace_text (p : Pattern) (t : Text) : p.replace Match.text t = t :=
  matchesFrom_flatten p t 0 [] ⟨none, 0, t, []⟩ rfl

lemma mem_matchesFrom {x : Text × Match} :
    ∀ {skip : Nat} {gap : Text} {s : Place}, x ∈ (p.matchesFrom skip gap t s).1 → ∃ s', p.matchAt? s' = some x.2 := by
  induction t with
  | nil =>
    intro skip gap s hx
    simp [matchesFrom] at hx
  | cons c r ih =>
    intro skip gap s hx
    cases skip with
    | succ skip => exact ih hx
    | zero =>
      rw [matchesFrom] at hx
      cases hm : p.matchAt? s with
      | none => exact ih (by simpa only [hm] using hx)
      | some m =>
        simp only [hm] at hx
        split at hx
        · exact ih hx
        · rcases mem_cons.mp hx with rfl | hx
          · exact ⟨s, hm⟩
          · exact ih hx

lemma searchFrom_matchAt :
    ∀ {seen : Text} {s : Place}, s.rest = t → p.searchFrom seen t s = some m → ∃ s', s'.rest <:+ t ∧ (p.matchAt? s').isSome := by
  induction t with
  | nil =>
    intro seen s hs h
    obtain ⟨m', hm', -⟩ := Option.map_eq_some_iff.mp h
    exact ⟨s, hs ▸ suffix_refl _, by rw [hm']; rfl⟩
  | cons c r ih =>
    intro seen s hs h
    rw [searchFrom] at h
    cases hm : p.matchAt? s with
    | some m' => exact ⟨s, hs ▸ suffix_refl _, by rw [hm]; rfl⟩
    | none =>
      rw [hm] at h
      obtain ⟨s', hsuffix, hmatch⟩ := ih rfl h
      exact ⟨s', hsuffix.trans (suffix_cons c r), hmatch⟩

end FunctionDocs.Pattern

namespace FunctionDocs.Source

open Text Pattern

variable {j : Joined} {ls : List Text} {i : Nat} {l t : Text} {u : Text} {first last : Nat}

/-! ## Lines without comments -/

/-- No comment begins in the text. -/
@[mk_iff]
structure Unmarked (t : Text) : Prop where
  slashes : ¬"//".toList <:+: t
  block : ¬"/*".toList <:+: t

instance (t : Text) : Decidable (Unmarked t) := decidable_of_iff _ (unmarked_iff ..).symm

lemma Unmarked.of_infix (h : Unmarked t) (hu : u <:+: t) : Unmarked u :=
  ⟨fun hm => h.slashes (hm.trans hu), fun hm => h.block (hm.trans hu)⟩

lemma Unmarked.join (ht : Unmarked t) (hu : Unmarked u) : Unmarked (t ++ " " ++ u) := by
  have hshape : t ++ " " ++ u = t ++ ' ' :: u := append_assoc t [' '] u
  rw [hshape]
  refine ⟨fun hm => ?_, fun hm => ?_⟩
  · exact ((DocBlock.infix_append_cons_iff (by decide)).mp hm).elim ht.slashes hu.slashes
  · exact ((DocBlock.infix_append_cons_iff (by decide)).mp hm).elim ht.block hu.block

lemma Unmarked.beforeComment_eq (h : Unmarked t) : beforeComment t = t := by
  rw [beforeComment]
  cases hsearch : (firstOf [.lit "//", .lit "/*"]).search? t with
  | none => rfl
  | some m =>
    obtain ⟨s, hsuffix, hmatch⟩ := @searchFrom_matchAt _ _ t [] ⟨none, 0, t, []⟩ rfl hsearch
    simp only [matchAt?, firstOf, run, Option.isSome_map] at hmatch
    by_cases hslashes : "//".toList.isPrefixOf s.rest
    · exact absurd (( isPrefixOf_iff_prefix.mp hslashes).isInfix.trans hsuffix.isInfix) h.slashes
    · by_cases hblock : "/*".toList.isPrefixOf s.rest
      · exact absurd (( isPrefixOf_iff_prefix.mp hblock).isInfix.trans hsuffix.isInfix) h.block
      · simp only [if_neg hslashes, if_neg hblock, Option.isSome_none, Bool.false_eq_true] at hmatch

lemma Unmarked.dropInline_eq (h : Unmarked t) : dropInline t = t := by
  induction t with
  | nil => rfl
  | cons c r ih =>
    have hr : Unmarked r := h.of_infix (suffix_cons c r).isInfix
    rw [dropInline_cons]
    cases hlen : inlineLength (c :: r) with
    | none => exact congrArg (c :: ·) (ih hr)
    | some n =>
      obtain ⟨x, hx, -⟩ := inlineLength_eq_some hlen
      have hopen : "/*" <+: c :: r := ⟨x ++ "*/" ++ (c :: r).drop n, by simpa only [append_assoc] using hx.symm⟩
      exact absurd hopen.isInfix h.block

/-! ## Pieces of a joined line -/

lemma solids_definitionBreak {s : Pattern.Place} {m : Match} (h : definitionBreak.matchAt? s = some m) : solids m.text = ['}'] := by
  obtain ⟨⟨_, _, htext, rfl, w, _, rfl, ⟨-, hblank⟩, rfl⟩, -⟩ := matchAt_takes h
  rw [htext, append_nil, solids_append, solids_eq_nil_iff.mpr (isBlankLine_iff.mpr hblank)]
  rfl

lemma closePieces_append (ps : List Text) (last : Text) : closePieces (ps ++ [last]) = ps.map (· ++ ['}']) ++ [last] := by
  induction ps with
  | nil => rfl
  | cons p ps ih =>
    obtain ⟨q, qs, hq⟩ := exists_cons_of_ne_nil (show ps ++ [last] ≠ [] by simp)
    rw [cons_append, hq, closePieces, ← hq, ih]
    · rfl
    · simp

lemma solids_closePieces (t : Text) : solids (closePieces (definitionBreak.split t)).flatten = solids t := by
  have hpieces : ∀ x ∈ (definitionBreak.findAll t).1, solids (x.1 ++ ['}']) = solids (x.1 ++ x.2.text) := by
    intro x hx
    obtain ⟨s, hs⟩ := mem_matchesFrom hx
    rw [solids_append, solids_append, solids_definitionBreak hs]
    rfl
  calc solids (closePieces (definitionBreak.split t)).flatten
      = ((definitionBreak.findAll t).1.map fun x => solids (x.1 ++ ['}'])).flatten ++ solids (definitionBreak.findAll t).2 := by
        rw [split, closePieces_append, flatten_append, solids_append, solids_flatten, map_map, map_map]
        simp only [flatten_cons, flatten_nil, append_nil]
        rfl
    _ = ((definitionBreak.findAll t).1.map fun x => solids (x.1 ++ x.2.text)).flatten ++ solids (definitionBreak.findAll t).2 := by
        rw [map_congr_left hpieces]
    _ = solids (definitionBreak.replace Match.text t) := by
        rw [Pattern.replace, solids_append, solids_flatten, map_map]
        rfl
    _ = solids t := by rw [replace_text]

lemma solids_splitDefinitions (h : Unmarked j.text) : solids (j.splitDefinitions.flatMap Joined.text) = solids j.text := by
  have htexts : j.splitDefinitions.flatMap Joined.text =
      ((closePieces (definitionBreak.split (trim (dropInline j.text)))).map trim).flatten := by
    rw [Joined.splitDefinitions, flatMap_map, ← flatten_filter_not_isEmpty]
    exact flatMap_id
  have htrim : ∀ ps : List Text, solids (ps.map trim).flatten = solids ps.flatten := by
    intro ps
    rw [solids_flatten, map_map, map_congr_left fun p _ => Function.comp_apply.trans (solids_trim p), ← solids_flatten]
  rw [htexts, htrim, solids_closePieces, solids_trim, h.dropInline_eq]

lemma solids_splitBody (j : Joined) : solids (j.splitBody.flatMap Joined.text) = solids j.text := by
  rw [Joined.splitBody]
  split
  next head body hsplit =>
    simp only [headAndBody?] at hsplit
    split at hsplit
    · split at hsplit
      next before tail hcut =>
        split at hsplit
        next hend =>
          split at hsplit
          · cases hsplit
            obtain ⟨u, hu⟩ := endsWith_iff.mp hend
            have hbody : (trim tail).dropLast = u := by rw [← hu, dropLast_concat]
            have hcode : solids tail = solids u ++ ['}'] := by rw [← solids_trim, ← hu, solids_append]; rfl
            rw [cutFirst_eq_some hcut, hbody]
            simp only [flatMap_cons, flatMap_nil, append_nil, solids_append, solids_trim, hcode]
            rfl
          · cases hsplit
        · cases hsplit
      · cases hsplit
    · cases hsplit
  · simp

lemma solids_pieces (h : Unmarked j.text) : solids (j.pieces.flatMap Joined.text) = solids j.text := by
  rw [Joined.pieces, flatMap_assoc, ← solids_splitDefinitions h, solids, filter_flatMap, solids, filter_flatMap]
  exact flatMap_congr fun d _ => solids_splitBody d

/-! ## Joined lines and the lines they come from -/

def linesBetween (ls : List Text) (first last : Nat) : List Text := (ls.drop first).take (last + 1 - first)

lemma linesBetween_self (hl : ls[i]? = some l) : linesBetween ls i i = [l] := by
  obtain ⟨hi, rfl⟩ := List.getElem?_eq_some_iff.mp hl
  rw [linesBetween, drop_eq_getElem_cons hi, show i + 1 - i = 1 by omega]
  rfl

lemma linesBetween_succ (hle : first ≤ last) (hl : ls[last + 1]? = some l) :
    linesBetween ls first (last + 1) = linesBetween ls first last ++ [l] := by
  have hlen : last + 1 + 1 - first = (last + 1 - first) + 1 := by omega
  have hget : (ls.drop first)[last + 1 - first]? = some l := by
    rw [getElem?_drop, show first + (last + 1 - first) = last + 1 by omega, hl]
  rw [linesBetween, hlen, take_add_one, hget]
  rfl

lemma mem_linesBetween (hl : ls[i]? = some l) (hfirst : first ≤ i) (hlast : i ≤ last) : l ∈ linesBetween ls first last := by
  refine mem_of_getElem? (i := i - first) ?_
  rw [linesBetween, getElem?_take_of_lt (by omega), getElem?_drop, show first + (i - first) = i by omega, hl]

/-- The text holds no comment, and it holds the code of the lines from the first to the last of two. -/
structure Carries (ls : List Text) (t : Text) (first last : Nat) : Prop where
  unmarked : Unmarked t
  code : solids t = solids (linesBetween ls first last).flatten

lemma carries_begin (hl : ls[i]? = some l) (hmark : Unmarked l) : (∀ j, beginLine i l = .inl j → Carries ls j.text j.first j.last) ∧
      ∀ o, beginLine i l = .inr o → Carries ls o.text o.first o.last := by
  have hwhole : Carries ls l i i := ⟨hmark, by rw [linesBetween_self hl, flatten_singleton]⟩
  have htrim : Carries ls (trim l) i i := ⟨hmark.of_infix (infix_trim l), (solids_trim l).trans hwhole.code⟩
  simp only [beginLine]
  refine ⟨fun j hj => ?_, fun o ho => ?_⟩
  · split at hj
    · cases hj
      exact hwhole
    · split at hj
      · split at hj
        · cases hj
        · cases hj
          exact htrim
      · cases hj
        exact hwhole
  · split at ho
    · cases ho
    · split at ho
      · split at ho
        · cases ho
          exact htrim
        · cases ho
      · cases ho

lemma Carries.absorb {o o' : OpenLine} (h : Carries ls o.text o.first o.last) (hle : o.first ≤ o.last)
    (hl : ls[o.last + 1]? = some l) (hmark : Unmarked l) (habsorb : o.absorb? (o.last + 1) l = some o') :
    Carries ls o'.text o'.first o'.last := by
  simp only [OpenLine.absorb?, h.unmarked.beforeComment_eq, ite_self] at habsorb
  split at habsorb
  · cases habsorb
  · cases habsorb
    refine ⟨h.unmarked.join (hmark.of_infix (infix_trim l)), ?_⟩
    rw [linesBetween_succ hle hl, solids_append, solids_append, h.code, solids_trim]
    simp [solids, isBlank]

lemma carries_joinFrom (h : ∀ l ∈ ls, Unmarked l) : ∀ j ∈ joinFrom 0 none ls, Carries ls j.text j.first j.last := by
  refine @forall_joinFrom (fun j => Carries ls j.text j.first j.last)
    (fun i o => Carries ls o.text o.first o.last ∧ o.first ≤ o.last ∧ o.last + 1 = i)
    (fun i l => ls[i]? = some l ∧ Unmarked l) ?_ ?_ ?_ ls 0 none ?_ (by simp)
  · rintro i l ⟨hl, hmark⟩
    obtain ⟨hdone, hopen⟩ := carries_begin hl hmark
    refine ⟨hdone, fun o ho => ⟨hopen o ho, ?_⟩⟩
    obtain ⟨hfirst, hlast⟩ := (beginLine_range i l).2 o ho
    omega
  · rintro i l o o' ⟨hl, hmark⟩ ⟨hcarries, hle, rfl⟩ hab
    obtain ⟨hfirst, hlast⟩ := absorb_range hab
    exact ⟨hcarries.absorb hle hl hmark hab, by omega, by omega⟩
  · exact fun i o ho => ho.1
  · intro k l hl
    rw [Nat.zero_add]
    exact ⟨hl, h l (mem_of_getElem? hl)⟩

lemma filter_joinLines (hj : j ∈ joinFrom 0 none ls) : (joinLines ls).filter (fun k => k.first = j.first ∧ k.last = j.last) = j.pieces := by
  have htiles := tiles_lines ls
  obtain ⟨before, after, hsplit⟩ := append_of_mem hj
  have hapart := htiles.apart
  have hbounds := htiles.bounds
  rw [hsplit, pairwise_append, pairwise_cons] at hapart
  obtain ⟨-, ⟨hafter, -⟩, hbefore⟩ := hapart
  have hother : ∀ js : List Joined, (∀ k ∈ js, k.first ≠ j.first) →
      (js.flatMap Joined.pieces).filter (fun k => k.first = j.first ∧ k.last = j.last) = [] := by
    intro js hjs
    refine filter_eq_nil_iff.mpr fun p hp => ?_
    obtain ⟨k, hk, hp⟩ := mem_flatMap.mp hp
    have hfirst : p.first = k.first := (mem_pieces hp).1.1
    have := hjs k hk
    simp only [decide_eq_true_eq]
    omega
  have hown : j.pieces.filter (fun k => k.first = j.first ∧ k.last = j.last) = j.pieces :=
    filter_eq_self.mpr fun p hp => decide_eq_true (mem_pieces hp).1
  have hle := (hbounds j hj).2.1
  rw [joinLines_eq_flatMap, hsplit, flatMap_append, flatMap_cons, filter_append, filter_append, hown,
    hother before fun k hk => ?_, hother after fun k hk => ?_, nil_append, append_nil]
  · have := hafter k hk
    omega
  · have hlt := hbefore k hk j mem_cons_self
    have := hbounds k (by rw [hsplit]; exact mem_append_left _ hk)
    omega

/-- Lines in which no comment begins keep their code: what comes from the lines of a range holds, but for white space, the characters of
these lines in their order, and a line that nothing comes from is blank. -/
theorem joinLines_code_kept {ls : List Text} (h : ∀ l ∈ ls, Unmarked l) :
    (∀ k ∈ joinLines ls, solids (((joinLines ls).filter fun j => j.first = k.first ∧ j.last = k.last).flatMap Joined.text) =
      solids (linesBetween ls k.first k.last).flatten) ∧
    ∀ i l, ls[i]? = some l → (∀ k ∈ joinLines ls, ¬(k.first ≤ i ∧ i ≤ k.last)) → isBlankLine l = true := by
  have hcarries := carries_joinFrom h
  constructor
  · intro k hk
    rw [joinLines_eq_flatMap] at hk
    obtain ⟨j, hj, hk⟩ := List.mem_flatMap.mp hk
    obtain ⟨⟨hfirst, hlast⟩, -⟩ := mem_pieces hk
    rw [hfirst, hlast, filter_joinLines hj, solids_pieces (hcarries j hj).unmarked]
    exact (hcarries j hj).code
  · intro i l hl hnone
    obtain ⟨hi, -⟩ := List.getElem?_eq_some_iff.mp hl
    obtain ⟨j, hj, hfirst, hlast⟩ := (tiles_lines ls).covers (Nat.zero_le i) hi
    -- a joined line with a piece would cover the line, so it has none and holds no code
    have hpieces : j.pieces = [] := by
      refine List.eq_nil_iff_forall_not_mem.mpr fun k hk => ?_
      obtain ⟨⟨hkfirst, hklast⟩, -⟩ := mem_pieces hk
      refine hnone k ?_ ⟨by omega, by omega⟩
      rw [joinLines_eq_flatMap]
      exact List.mem_flatMap.mpr ⟨j, hj, hk⟩
    have hcode : solids (linesBetween ls j.first j.last).flatten = [] := by
      rw [← (hcarries j hj).code, ← solids_pieces (hcarries j hj).unmarked, hpieces]
      rfl
    rw [solids_flatten, List.flatten_eq_nil_iff] at hcode
    exact solids_eq_nil_iff.mp (hcode _ (List.mem_map_of_mem (mem_linesBetween hl hfirst hlast)))

def spreadLines : List Text :=
  ["int add(int a,", "        int b) \x7b", "  return a / b;", "\x7d", "", "int f() \x7b return 1; \x7d int g() \x7b return 2; \x7d"]

/-- The two definitions on the last of `spreadLines` are put on four lines that hold its code, and nothing comes from the blank line. -/
theorem spread_code_kept :
    (∀ l ∈ spreadLines, Unmarked l) ∧
      (⟨"int f() \x7b", 5, 5⟩ : Joined) ∈ joinLines spreadLines ∧ (⟨"return 2; \x7d", 5, 5⟩ : Joined) ∈ joinLines spreadLines ∧
      solids (((joinLines spreadLines).filter fun j => j.first = 5 ∧ j.last = 5).flatMap Joined.text) =
        solids (linesBetween spreadLines 5 5).flatten ∧
      (∀ k ∈ joinLines spreadLines, ¬(k.first ≤ 4 ∧ 4 ≤ k.last)) ∧ isBlankLine [] = true := by
  have hmarks : ∀ l ∈ spreadLines, Unmarked l := by decide
  have hfirst : (⟨"int f() \x7b", 5, 5⟩ : Joined) ∈ joinLines spreadLines := by decide
  have hlast : (⟨"return 2; \x7d", 5, 5⟩ : Joined) ∈ joinLines spreadLines := by decide
  have hnone : ∀ k ∈ joinLines spreadLines, ¬(k.first ≤ 4 ∧ 4 ≤ k.last) := by decide
  obtain ⟨hcode, hblank⟩ := joinLines_code_kept hmarks
  exact ⟨hmarks, hfirst, hlast, hcode _ hfirst, hnone, hblank 4 [] rfl hnone⟩

end FunctionDocs.Source
