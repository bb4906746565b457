import FunctionDocs.Proofs.Sighting
import FunctionDocs.Proofs.Text

/-!
# The results of a search

What the search for a definition returns, number by number and for given parameters. The declarations of a name begin on visible lines
that follow each other, so the lines that are returned follow each other as well; but a definition that is closed on one line is
counted a second time, without a line. Each declaration that is returned was compared with the wanted parameters, except that an
empty parameter list is taken for any when the head of the declaration takes several lines.
-/

open List

namespace FunctionDocs.Source

open Text

variable {d : Declaration} {params : Option Text} {content name : Text} {i : Nat}

/-! ## The lines of declarations -/

lemma visibleFrom_sublist (i : Nat) (inComment : Bool) (ls : List Text) :
    ((visibleFrom i inComment ls).map (·.1)).Sublist (range' i ls.length) := by
  induction ls generalizing i inComment with
  | nil => exact nil_sublist _
  | cons l ls ih =>
    simp only [visibleFrom]
    split
    · exact (ih _ _).cons i
    · split
      · exact (ih _ _).cons i
      · split
        · exact (ih _ _).cons i
        · exact (ih _ _).cons_cons i

lemma mem_visibleFrom {inComment : Bool} {ls : List Text} {v : Nat × Text} (h : v ∈ visibleFrom i inComment ls) :
    i ≤ v.1 ∧ ∃ l, ls[v.1 - i]? = some l ∧ v.2 = trim l := by
  induction ls generalizing i inComment with
  | nil => cases h
  | cons l ls ih =>
    have hnext : ∀ {inComment : Bool}, v ∈ visibleFrom (i + 1) inComment ls →
        i ≤ v.1 ∧ ∃ k, (l :: ls)[v.1 - i]? = some k ∧ v.2 = trim k := by
      intro inComment hv
      obtain ⟨hle, k, hk, htrim⟩ := ih hv
      refine ⟨by omega, k, ?_, htrim⟩
      rw [show v.1 - i = v.1 - (i + 1) + 1 by omega, getElem?_cons_succ, hk]
    simp only [visibleFrom] at h
    split at h
    · exact hnext h
    · split at h
      · exact hnext h
      · split at h
        · exact hnext h
        · rcases mem_cons.mp h with rfl | h
          · exact ⟨le_refl i, l, by simp, rfl⟩
          · exact hnext h

lemma declarationsFrom_sublist (name : Text) (pending : Option (Nat × Text)) (vs : List (Nat × Text)) :
    ((declarationsFrom name pending vs).map Declaration.first).Sublist ((pending.map (·.1)).toList ++ vs.map (·.1)) := by
  induction vs generalizing pending with
  | nil => cases pending <;> exact nil_sublist _
  | cons v vs ih =>
    obtain ⟨i, bare⟩ := v
    cases pending with
    | none =>
      simp only [declarationsFrom]
      split
      · split
        · exact (ih none).cons_cons i
        · exact ih (some (i, bare))
      · exact (ih none).cons i
    | some q =>
      obtain ⟨start, buffer⟩ := q
      simp only [declarationsFrom]
      split
      · exact ((ih none).cons i).cons_cons start
      · exact (ih (some (start, buffer ++ " " ++ bare))).trans (((Sublist.refl _).cons i).cons_cons start)

def declarations (content name : Text) : List Declaration := declarationsFrom name none (visibleFrom 0 false content.lines)

lemma declarations_increasing (content name : Text) :
    ((declarations content name).map Declaration.first).Sublist (range content.lines.length) := by
  rw [range_eq_range']
  exact (declarationsFrom_sublist name none _).trans (visibleFrom_sublist 0 false content.lines)

/-! ## Counting -/

/-- A declaration has the wanted parameters, or counts as if it had: on several lines an empty parameter list stands for any. -/
def Declaration.fits (params : Option Text) (d : Declaration) : Bool :=
  params.all fun p => (d.isSpread && p.isEmpty) || sameParams p (paramSignature d.text)

/-- A definition that fits is counted once more, without its line. -/
def Declaration.isRecounted (name : Text) (params : Option Text) (d : Declaration) : Bool :=
  !d.isSpread && (closedDefinition name).matchesAt d.text && params.all (sameParams · (paramSignature []))

lemma sightings_eq (name : Text) (params : Option Text) (d : Declaration) :
    d.sightings name params =
      if d.fits params then .line d.first :: (if d.isRecounted name params then [.unplaced] else []) else [] := by
  rw [Declaration.sightings, Declaration.fits, Declaration.isRecounted]
  cases d.isSpread with
  | true => simp
  | false =>
    simp only [Bool.false_eq_true, if_false, Bool.false_and, Bool.false_or]
    split
    · cases (closedDefinition name).matchesAt d.text <;> simp
    · rfl

lemma pick_eq_getElem (n : Nat) (ss : List Sighting) : pick (n + 1 : Nat) ss = (ss[n]?).getD .nowhere := by
  induction ss generalizing n with
  | nil => rfl
  | cons s ss ih =>
    cases n with
    | zero => rfl
    | succ n =>
      have hn : ¬((n + 1 + 1 : Nat) : Int) = 1 := by omega
      have hs : ((n + 1 + 1 : Nat) : Int) - 1 = (n + 1 : Nat) := by omega
      rw [pick, if_neg hn, hs, ih, getElem?_cons_succ]

lemma lowerAfter_eq_nil_iff {before : Option Char} {t : Text} : lowerAfter before t = [] ↔ t = [] := by
  cases t with
  | nil => exact iff_of_true rfl rfl
  | cons c r =>
    refine iff_of_false ?_ (cons_ne_nil c r)
    simp only [lowerAfter]
    split
    · exact cons_ne_nil _ _
    · split <;> exact cons_ne_nil _ _

lemma sameParams_nil_iff {P : Text} : sameParams (normalizeSignature P) (paramSignature []) ↔ canonicalSignature P = [] := by
  have hempty : toLower (normalizeSignature (paramSignature [])) = [] := rfl
  rw [sameParams, hempty, beq_iff_eq, eq_comm]
  exact lowerAfter_eq_nil_iff

/-- A definition that is counted twice: it is closed on one line and has the wanted parameters, which are any or none. -/
structure Declaration.CountedTwice (name : Text) (params : Option Text) (d : Declaration) : Prop where
  oneLine : d.isSpread = false
  closed : (closedDefinition name).matchesAt d.text = true
  fits : d.fits (params.map normalizeSignature) = true
  free : ∀ P ∈ params, canonicalSignature P = []

lemma countedTwice_iff :
    d.CountedTwice name params ↔ d.fits (params.map normalizeSignature) ∧ d.isRecounted name (params.map normalizeSignature) := by
  have hfree : (params.map normalizeSignature).all (sameParams · (paramSignature [])) ↔
      ∀ P ∈ params, canonicalSignature P = [] := by
    cases params with
    | none => simp
    | some P => simp [sameParams_nil_iff]
  rw [Declaration.isRecounted, Bool.and_eq_true, Bool.and_eq_true, hfree, Bool.not_eq_true']
  exact ⟨fun h => ⟨h.fits, ⟨h.oneLine, h.closed⟩, h.free⟩, fun ⟨hfits, ⟨hone, hclosed⟩, hfree⟩ => ⟨hone, hclosed, hfits, hfree⟩⟩

lemma unplaced_mem_sightings :
    .unplaced ∈ sightings content name params ↔ ∃ d ∈ declarations content name, d.CountedTwice name params := by
  have hone : ∀ d : Declaration, .unplaced ∈ d.sightings name (params.map normalizeSignature) ↔ d.CountedTwice name params := by
    intro d
    rw [sightings_eq, countedTwice_iff]
    cases d.fits (params.map normalizeSignature) <;> cases d.isRecounted name (params.map normalizeSignature) <;> simp
  rw [sightings, mem_flatMap]
  simp only [hone]
  rfl

lemma sightings_of_once (h : ∀ d ∈ declarations content name, ¬d.CountedTwice name params) :
    sightings content name params =
      ((declarations content name).filter fun d => d.fits (params.map normalizeSignature)).map fun d => .line d.first := by
  have hall : ∀ ds : List Declaration, (∀ d ∈ ds, ¬d.CountedTwice name params) →
      ds.flatMap (Declaration.sightings name (params.map normalizeSignature)) =
        (ds.filter fun d => d.fits (params.map normalizeSignature)).map fun d => .line d.first := by
    intro ds
    induction ds with
    | nil => intro _; rfl
    | cons d ds ih =>
      intro hds
      obtain ⟨hd, hrest⟩ := forall_mem_cons.mp hds
      rw [countedTwice_iff, not_and, Bool.not_eq_true] at hd
      rw [flatMap_cons, ih hrest, sightings_eq, filter_cons]
      split
      next hfits =>
        rw [hd hfits]
        rfl
      · rfl
  exact hall _ h

/-- The numbers from one on give lines of the text, each further down than the one before, and then none. -/
def CountedOnce (content name : Text) (params : Option Text) : Prop :=
  ∃ lines : List Nat, lines.Pairwise (· < ·) ∧ (∀ i ∈ lines, i < content.lines.length) ∧
    ∀ n : Nat, locate content name params (n + 1 : Nat) = match lines[n]? with | some i => .line i | none => .nowhere

/-- The search counts each definition once exactly if no declaration is a definition, closed on one line and without parameters, that
it counts twice. -/
theorem locate_countedOnce_iff (content name : Text) (params : Option Text) :
    CountedOnce content name params ↔ ∀ d ∈ declarations content name, ¬d.CountedTwice name params := by
  constructor
  · rintro ⟨lines, -, -, hlocate⟩ d hd htwice
    obtain ⟨n, hn⟩ := List.mem_iff_getElem?.mp (unplaced_mem_sightings.mpr ⟨d, hd, htwice⟩)
    have h := hlocate n
    rw [locate_eq_pick, pick_eq_getElem, hn] at h
    split at h <;> cases h
  · intro honce
    have hincreasing := declarations_increasing content name
    refine ⟨((declarations content name).filter fun d => d.fits (params.map normalizeSignature)).map Declaration.first, ?_, ?_, ?_⟩
    · exact (List.pairwise_lt_range.sublist hincreasing).sublist (List.filter_sublist.map _)
    · intro i hi
      exact List.mem_range.mp (hincreasing.subset ((List.filter_sublist.map _).subset hi))
    · intro n
      rw [locate_eq_pick, pick_eq_getElem, sightings_of_once honce, List.getElem?_map, List.getElem?_map]
      cases ((declarations content name).filter fun d => d.fits (params.map normalizeSignature))[n]? <;> rfl

def closedBody : Text := "~A() \x7b\x7d;\n"

/-- The destructor of `closedBody` is counted a second time, without a line. -/
theorem closedBody_recounted :
    locate closedBody "~A" (some []) 1 = .line 0 ∧ locate closedBody "~A" (some []) 2 = .unplaced ∧
      ¬CountedOnce closedBody "~A" (some []) := by
  have hsecond : locate closedBody "~A" (some []) 2 = .unplaced := by decide
  refine ⟨by decide, hsecond, ?_⟩
  rintro ⟨lines, -, -, hlocate⟩
  have h := hlocate 1
  rw [show ((1 + 1 : Nat) : Int) = 2 from rfl, hsecond] at h
  split at h <;> cases h

/-! ## Heads -/

/-- The head that stands on lines: the lines up to the first one with an opening brace, with blanks between them. -/
def upToBrace : List Text → Option Text
  | [] => none
  | bare :: ls => if List.elem '{' bare then some bare else (upToBrace ls).map (bare ++ " " ++ ·)

/-- The head that begins on a line of a text, made of the trimmed lines from there on that are no comment lines. -/
def headFrom (content : Text) (start : Nat) : Option Text :=
  upToBrace (((visibleFrom 0 false content.lines).filter (start ≤ ·.1)).map (·.2))

lemma declarationsFrom_head {pending : Option (Nat × Text)} {vs : List (Nat × Text)} (h : d ∈ declarationsFrom name pending vs) :
    (∃ q ∈ pending, d.first = q.1 ∧ d.isSpread ∧ ∃ t, upToBrace (vs.map (·.2)) = some t ∧ d.text = q.2 ++ " " ++ t) ∨
    ∃ above bare below, vs = above ++ (d.first, bare) :: below ∧ upToBrace (bare :: below.map (·.2)) = some d.text ∧
      d.isSpread = !List.elem '{' bare := by
  induction vs generalizing pending with
  | nil => cases pending <;> cases h
  | cons v vs ih =>
    obtain ⟨i, bare⟩ := v
    have hlater : d ∈ declarationsFrom name none vs → ∃ above bare' below, (i, bare) :: vs = above ++ (d.first, bare') :: below ∧
        upToBrace (bare' :: below.map (·.2)) = some d.text ∧ d.isSpread = !List.elem '{' bare' := by
      intro hd
      rcases ih hd with ⟨q, hq, -⟩ | ⟨above, bare', below, rfl, hrest⟩
      · cases hq
      · exact ⟨(i, bare) :: above, bare', below, rfl, hrest⟩
    have hunder : ∀ {start : Nat} {buffer : Text}, d ∈ declarationsFrom name (some (start, buffer)) vs →
        (d.first = start ∧ d.isSpread ∧ ∃ t, upToBrace (vs.map (·.2)) = some t ∧ d.text = buffer ++ " " ++ t) ∨
        ∃ above bare' below, (i, bare) :: vs = above ++ (d.first, bare') :: below ∧
          upToBrace (bare' :: below.map (·.2)) = some d.text ∧ d.isSpread = !List.elem '{' bare' := by
      intro start buffer hd
      rcases ih hd with ⟨q, hq, hrest⟩ | ⟨above, bare', below, rfl, hrest⟩
      · cases hq
        exact .inl hrest
      · exact .inr ⟨(i, bare) :: above, bare', below, rfl, hrest⟩
    cases pending with
    | none =>
      simp only [declarationsFrom] at h
      split at h
      · split at h
        next hbrace =>
          rcases mem_cons.mp h with rfl | h
          · exact .inr ⟨[], bare, vs, rfl, by rw [upToBrace, if_pos hbrace], by rw [hbrace]; rfl⟩
          · exact .inr (hlater h)
        next hbrace =>
          rcases hunder h with ⟨rfl, hspread, t, ht, htext⟩ | hrest
          · refine .inr ⟨[], bare, vs, rfl, by rw [upToBrace, if_neg hbrace, ht, htext]; rfl, ?_⟩
            rw [hspread, Bool.eq_false_iff.mpr hbrace]
            rfl
          · exact .inr hrest
      · exact .inr (hlater h)
    | some q =>
      obtain ⟨start, buffer⟩ := q
      simp only [declarationsFrom] at h
      rw [map_cons, upToBrace]
      split at h
      next hbrace =>
        rcases mem_cons.mp h with rfl | h
        · exact .inl ⟨_, rfl, rfl, rfl, bare, by rw [if_pos hbrace], rfl⟩
        · exact .inr (hlater h)
      next hbrace =>
        rcases hunder h with ⟨hfirst, hspread, t, ht, htext⟩ | hrest
        · exact .inl ⟨_, rfl, hfirst, hspread, bare ++ " " ++ t, by rw [if_neg hbrace, ht]; rfl, by rw [htext]; simp⟩
        · exact .inr hrest

lemma declarations_head (h : d ∈ declarations content name) :
    headFrom content d.first = some d.text ∧ ∃ l, content.lines[d.first]? = some l ∧ d.isSpread = !List.elem '{' l := by
  rcases declarationsFrom_head h with ⟨q, hq, -⟩ | ⟨above, bare, below, hvs, hhead, hspread⟩
  · cases hq
  · have hsorted : ((visibleFrom 0 false content.lines).map (·.1)).Pairwise (· < ·) :=
      (pairwise_lt_range' 1).sublist (visibleFrom_sublist 0 false content.lines)
    rw [hvs, map_append, map_cons, pairwise_append, pairwise_cons] at hsorted
    obtain ⟨-, ⟨hbelow, -⟩, habove⟩ := hsorted
    have hfilter : (visibleFrom 0 false content.lines).filter (d.first ≤ ·.1) = (d.first, bare) :: below := by
      have hno : above.filter (d.first ≤ ·.1) = [] := by
        refine filter_eq_nil_iff.mpr fun v hv hle => ?_
        have := habove v.1 (mem_map_of_mem hv) d.first mem_cons_self
        simp only [decide_eq_true_eq] at hle
        omega
      have hyes : below.filter (d.first ≤ ·.1) = below := by
        refine filter_eq_self.mpr fun v hv => ?_
        have := hbelow v.1 (mem_map_of_mem hv)
        simp only [decide_eq_true_eq]
        omega
      rw [hvs, filter_append, hno, filter_cons_of_pos (by simp), hyes, nil_append]
    refine ⟨by rw [headFrom, hfilter]; exact hhead, ?_⟩
    obtain ⟨-, l, hl, htrim⟩ := mem_visibleFrom (hvs ▸ mem_append_right above mem_cons_self)
    have hbrace : '{' ∈ trim l ↔ '{' ∈ l := by
      obtain ⟨a, b, ha, hb, hsplit⟩ := trim_split l
      have hsolid : ∀ {t : Text}, isBlankLine t → '{' ∉ t := fun ht hm => absurd (isBlankLine_iff.mp ht _ hm) (by decide)
      nth_rewrite 2 [hsplit]
      simp [hsolid ha, hsolid hb]
    refine ⟨l, hl, ?_⟩
    rw [hspread, show bare = trim l from htrim]
    simp [hbrace]

/-! ## Parameters -/

/-- The first pair of parentheses in a text holds a parameter list, up to white space and letter case. -/
def HasParams (text P : Text) : Prop :=
  ∃ body ∈ firstGroup? text, toLower (canonicalSignature body) = toLower (canonicalSignature P)

instance (text P : Text) : Decidable (HasParams text P) :=
  (firstGroup? text).decidableExistsMem

lemma mem_of_pick {n : Int} {ss : List Sighting} (h : pick n ss = .line i) : .line i ∈ ss := by
  induction ss generalizing n with
  | nil => cases h
  | cons s ss ih =>
    rw [pick] at h
    split at h
    · exact h ▸ mem_cons_self
    · exact mem_cons_of_mem _ (ih h)

lemma exists_declaration {occurrence : Int} {start : Nat} (h : locate content name params occurrence = .line start) :
    ∃ d ∈ declarations content name, d.first = start ∧ d.fits (params.map normalizeSignature) := by
  rw [locate_eq_pick] at h
  obtain ⟨d, hd, hmem⟩ := mem_flatMap.mp (mem_of_pick h)
  rw [sightings_eq] at hmem
  split at hmem
  next hfits =>
    rcases mem_cons.mp hmem with heq | hmem
    · cases heq
      exact ⟨d, hd, rfl, hfits⟩
    · split at hmem
      · cases mem_singleton.mp hmem
      · cases hmem
  · cases hmem

/-- A definition that is found has the wanted parameters exactly if its parameter list is closed and, where its head takes several lines
and no parameters are wanted, it has none. -/
theorem locate_params_iff {content name P : Text} {occurrence : Int} {start : Nat}
    (h : locate content name (some P) occurrence = .line start) :
    ∃ text line, headFrom content start = some text ∧ content.lines[start]? = some line ∧
      (HasParams text P ↔ ∃ body ∈ firstGroup? text, '{' ∉ line → normalizeSignature P = [] → canonicalSignature body = []) := by
  obtain ⟨d, hd, rfl, hfits⟩ := exists_declaration h
  obtain ⟨hhead, line, hline, hspread⟩ := declarations_head hd
  refine ⟨d.text, line, hhead, hline, ⟨?_, ?_⟩⟩
  · rintro ⟨body, hbody, hsame⟩
    refine ⟨body, hbody, fun _ hempty => ?_⟩
    have hnone : toLower (canonicalSignature P) = [] := by rw [canonicalSignature, hempty]; rfl
    rw [hnone, toLower] at hsame
    exact lowerAfter_eq_nil_iff.mp hsame
  · rintro ⟨body, hbody, hfree⟩
    refine ⟨body, hbody, ?_⟩
    simp only [Declaration.fits, Option.map_some, Option.all_some, Bool.or_eq_true, Bool.and_eq_true, List.isEmpty_iff] at hfits
    rcases hfits with ⟨hseveral, hempty⟩ | hsame
    · have hnobrace : '{' ∉ line := by
        rw [hspread] at hseveral
        simpa using hseveral
      have hnone : canonicalSignature P = [] := by rw [canonicalSignature, hempty]; rfl
      rw [hfree hnobrace hempty, hnone]
    · simp only [sameParams, paramSignature, Option.mem_def.mp hbody, beq_iff_eq] at hsame
      rw [canonicalSignature, canonicalSignature, hsame]

/-- A definition whose head takes three lines, with a comment line between them. -/
def spreadHead : Text := "int scale(\n  // the factor\n  Int  a = 1,\n  char *b) \x7b\n\x7d\n"

/-- The definition in `spreadHead` is found by its parameters, whatever their white space and letter case. -/
theorem spreadHead_params :
    locate spreadHead "scale" (some "int a=1,\tchar  *b") 1 = .line 0 ∧
      headFrom spreadHead 0 = some "int scale( Int  a = 1, char *b) \x7b".toList ∧
      HasParams "int scale( Int  a = 1, char *b) \x7b" "int a=1,\tchar  *b" := by
  have hfound : locate spreadHead "scale" (some "int a=1,\tchar  *b") 1 = .line 0 := by decide
  have hhead : headFrom spreadHead 0 = some "int scale( Int  a = 1, char *b) \x7b".toList := by decide
  obtain ⟨text, line, htext, hline, hiff⟩ := locate_params_iff hfound
  obtain rfl := Option.some.inj (hhead.symm.trans htext)
  refine ⟨hfound, hhead, hiff.mpr ⟨" Int  a = 1, char *b".toList, by decide, fun _ hempty => ?_⟩⟩
  exact absurd hempty (by decide)

/-- No parameters are wanted, but the definition in `spreadHead` has two and is found. -/
theorem spreadHead_any_params :
    locate spreadHead "scale" (some []) 1 = .line 0 ∧
      headFrom spreadHead 0 = some "int scale( Int  a = 1, char *b) \x7b".toList ∧
      ¬HasParams "int scale( Int  a = 1, char *b) \x7b" [] := by
  decide

end FunctionDocs.Source
