import FunctionDocs.Proofs.Masking
import FunctionDocs.Proofs.Reports

/-!
# Highlighted tags

The tags of a comment are highlighted by several passes over the whole text, each over what the passes before it have written. They
come to one scan of the comment from left to right: no pass finds anything in the marks that were put in, since a tag begins with an
`@` and runs over word characters only. So each tag stands in one span, no span stands in another one, and without the marks of the
spans the comment is back.
-/

open List

namespace FunctionDocs

namespace Text

variable {c : Char} {r : Text} {part a t : Text}

/-! ## Parts found by a rule -/

/-- A fragment of a text: a character, or a part that a rule has found. -/
inductive Fragment where
  | plain (c : Char)
  | found (part : Text)

/-- The text of a fragment, with a found part written anew. -/
def Fragment.written (f : Text → Text) : Fragment → Text
  | plain c => [c]
  | found part => f part

/-- The fragments of a text after `skip` more characters, which belong to a part already found. The rule tells which part a text
begins with. -/
def cutAfter (rule : Text → Option Text) : Nat → Text → List Fragment
  | _, [] => []
  | skip + 1, _ :: r => cutAfter rule skip r
  | 0, c :: r =>
    match rule (c :: r) with
    | some part => .found part :: cutAfter rule (part.length - 1) r
    | none => .plain c :: cutAfter rule 0 r

def cut (rule : Text → Option Text) (t : Text) : List Fragment := cutAfter rule 0 t

def rewrite (rule : Text → Option Text) (f : Text → Text) (t : Text) : Text := (cut rule t).flatMap (Fragment.written f)

/-- The parts that a rule finds stand at the front of the text and are not empty. -/
def Finds (rule : Text → Option Text) : Prop := ∀ ⦃t part : Text⦄, rule t = some part → part ≠ [] ∧ part <+: t

variable {rule : Text → Option Text}

lemma cutAfter_eq (rule : Text → Option Text) (skip : Nat) (t : Text) : cutAfter rule skip t = cut rule (t.drop skip) := by
  induction skip generalizing t with
  | zero => rfl
  | succ skip ih =>
    cases t with
    | nil => rfl
    | cons c r => exact ih r

lemma cut_plain (h : rule (c :: r) = none) : cut rule (c :: r) = .plain c :: cut rule r := by
  rw [cut, cutAfter, h]
  rfl

lemma cut_found (hne : part ≠ []) (h : rule (part ++ r) = some part) : cut rule (part ++ r) = .found part :: cut rule r := by
  obtain ⟨c, u, rfl⟩ := exists_cons_of_ne_nil hne
  rw [cons_append] at h ⊢
  rw [cut, cutAfter, h]
  dsimp only
  rw [cutAfter_eq, length_cons, Nat.add_sub_cancel, drop_left]

lemma rewrite_plain (h : rule (c :: r) = none) (f : Text → Text) : rewrite rule f (c :: r) = c :: rewrite rule f r := by
  rw [rewrite, cut_plain h]
  rfl

lemma rewrite_found (hne : part ≠ []) (h : rule (part ++ r) = some part) (f : Text → Text) :
    rewrite rule f (part ++ r) = f part ++ rewrite rule f r := by
  rw [rewrite, cut_found hne h]
  rfl

lemma Finds.induct (h : Finds rule) {motive : Text → Prop} (nil : motive [])
    (found : ∀ part r, part ≠ [] → rule (part ++ r) = some part → motive r → motive (part ++ r))
    (plain : ∀ c r, rule (c :: r) = none → motive r → motive (c :: r)) (t : Text) : motive t := by
  induction hn : t.length using Nat.strong_induction_on generalizing t with
  | _ n ih =>
    cases t with
    | nil => exact nil
    | cons c r =>
      cases hrule : rule (c :: r) with
      | none => exact plain c r hrule (ih r.length (by rw [← hn]; exact Nat.lt_succ_self _) r rfl)
      | some part =>
        obtain ⟨hne, u, hu⟩ := h hrule
        have hlen : u.length < n := by
          have hpos := length_pos_iff.mpr hne
          rw [← hn, ← hu, length_append]
          omega
        rw [← hu] at hrule ⊢
        exact found part u hne hrule (ih u.length hlen u rfl)

lemma rewrite_keeps (h : ∀ s, s <:+ a → s ≠ [] → rule (s ++ t) = none) (f : Text → Text) :
    rewrite rule f (a ++ t) = a ++ rewrite rule f t := by
  induction a with
  | nil => rfl
  | cons c a ih =>
    have hhere : rule (c :: (a ++ t)) = none := h (c :: a) (suffix_refl _) (cons_ne_nil c a)
    rw [cons_append, rewrite_plain hhere, ih fun s hs => h s (hs.trans (suffix_cons c a))]
    rfl

lemma prefix_of_prefix_rewrite (hrule : Finds rule) {f : Text → Text} {b : Char} (hf : ∀ part, (f part).head? = some b) {p : Text}
    (hp : b ∉ p) (h : p <+: rewrite rule f t) : p <+: t := by
  induction t using hrule.induct generalizing p with
  | nil => exact h
  | found part r hne hfound ih =>
    rw [rewrite_found hne hfound] at h
    obtain ⟨u, hu⟩ := head?_eq_some_iff.mp (hf part)
    rw [hu] at h
    cases p with
    | nil => exact nil_prefix
    | cons d p =>
      rw [(cons_prefix_cons.mp h).1] at hp
      exact absurd mem_cons_self hp
  | plain c r hplain ih =>
    rw [rewrite_plain hplain] at h
    cases p with
    | nil => exact nil_prefix
    | cons d p =>
      obtain ⟨hd, htail⟩ := cons_prefix_cons.mp h
      exact cons_prefix_cons.mpr ⟨hd, ih (not_mem_of_not_mem_cons hp) htail⟩

lemma cutFirst_of_not_mem (h : c ∉ a) (b : Text) : cutFirst [c] (a ++ c :: b) = some (a, b) := by
  induction a with
  | nil => simp [cutFirst]
  | cons d a ih =>
    obtain ⟨hd, ha⟩ := ne_and_not_mem_of_not_mem_cons h
    have hhere : ¬isPrefixOf [c] (d :: (a ++ c :: b)) := by
      rw [ isPrefixOf_iff_prefix]
      exact fun hprefix => hd (cons_prefix_cons.mp hprefix).1
    rw [cons_append, cutFirst, if_neg hhere, ih ha]
    rfl

end Text

namespace Pattern

open Text

variable {p : Pattern} {rule : Text → Option Text}

/-- The text that a match takes is told by a rule for the text at its place. -/
def Follows (p : Pattern) (rule : Text → Option Text) : Prop := ∀ s : Place, (p.matchAt? s).map (·.text) = rule s.rest

lemma Follows.matchesFrom_eq (h : p.Follows rule) (hrule : Finds rule) (f : Text → Text)
    (t : Text) :
    ∀ (skip : Nat) (gap : Text) (s : Place), s.rest = t →
      ((p.matchesFrom skip gap t s).1.map fun (gap, m) => gap ++ f m.text).flatten ++ (p.matchesFrom skip gap t s).2 =
        gap.reverse ++ (cutAfter rule skip t).flatMap (Fragment.written f) := by
  induction t with
  | nil => intro skip gap s _; simp [matchesFrom, cutAfter]
  | cons c r ih =>
    intro skip gap s hs
    cases skip with
    | succ skip => exact ih skip gap (s.step c r) rfl
    | zero =>
      have hfollows := h s
      rw [hs] at hfollows
      rw [matchesFrom, cutAfter, ← hfollows]
      cases hm : p.matchAt? s with
      | none =>
        have hrest := ih 0 (c :: gap) (s.step c r) rfl
        simpa [Fragment.written] using hrest
      | some m =>
        rw [hm] at hfollows
        have hne : m.text ≠ [] := (hrule hfollows.symm).1
        have hrest := ih (m.text.length - 1) [] (s.step c r) rfl
        simpa [hne, Fragment.written] using hrest

lemma Follows.replace_eq (h : p.Follows rule) (hrule : Finds rule) (f : Text → Text)
    (t : Text) : p.replace (fun m => f m.text) t = rewrite rule f t :=
  h.matchesFrom_eq hrule f t 0 [] ⟨none, 0, t, []⟩ rfl

end Pattern

namespace Report.Html

open Text Pattern

variable {c : Char} {styles : List (Text × Text)} {a r t tag : Text}

/-! ## Tags -/

def knownTag? (styles : List (Text × Text)) (t : Text) : Option Text := (styles.find? (·.1.isPrefixOf t)).map (·.1)

/-- The `@` with a word behind it that the text begins with. -/
def wordTag? : Text → Option Text
  | '@' :: r => if (r.takeWhile isWordChar).isEmpty then none else some ('@' :: r.takeWhile isWordChar)
  | _ => none

/-- The tag that the text begins with: one that has a style of its own, whatever stands behind it, or else an `@` with a word. -/
def tag? (t : Text) : Option Text := (knownTag? tagStyles t).or (wordTag? t)

def styleOf (tag : Text) : Text := ((tagStyles.find? (·.1 == tag)).map (·.2)).getD "tag"

def highlighted (tag : Text) : Text := span (styleOf tag) tag

/-- A tag is an `@` with a word. -/
@[mk_iff]
structure IsTag (tag : Text) : Prop where
  first : tag.head? = some '@'
  long : tag.tail ≠ []
  word : ∀ c ∈ tag.tail, isWordChar c = true

instance (tag : Text) : Decidable (IsTag tag) := decidable_of_iff _ (isTag_iff ..).symm

lemma IsTag.cons (h : IsTag tag) : ∃ w, tag = '@' :: w ∧ w ≠ [] ∧ ∀ c ∈ w, isWordChar c := by
  obtain ⟨w, rfl⟩ := head?_eq_some_iff.mp h.first
  exact ⟨w, rfl, h.long, h.word⟩

lemma IsTag.ne_nil (h : IsTag tag) : tag ≠ [] := ne_nil_of_mem (mem_of_mem_head? h.first)

lemma isTag_of_styled : ∀ s ∈ tagStyles, IsTag s.1 := by decide

lemma knownTag_eq_some (h : knownTag? styles t = some tag) : (∃ s ∈ styles, s.1 = tag) ∧ tag <+: t := by
  obtain ⟨s, hs, rfl⟩ := Option.map_eq_some_iff.mp h
  have hprefix : s.1.isPrefixOf t := by simpa using find?_some hs
  exact ⟨⟨s, mem_of_find?_eq_some hs, rfl⟩, isPrefixOf_iff_prefix.mp hprefix⟩

lemma knownTag_eq_none : knownTag? styles t = none ↔ ∀ s ∈ styles, ¬s.1 <+: t := by
  rw [knownTag?, Option.map_eq_none_iff, find?_eq_none]
  simp only [ isPrefixOf_iff_prefix]

lemma wordTag_eq_some (h : wordTag? t = some tag) : IsTag tag ∧ tag <+: t := by
  unfold wordTag? at h
  split at h
  · split at h
    · cases h
    next hne =>
      cases h
      refine ⟨⟨rfl, by simpa using hne, fun c hc => mem_takeWhile_imp hc⟩, ?_⟩
      exact cons_prefix_cons.mpr ⟨rfl, takeWhile_prefix _⟩
  · cases h

lemma wordTag_append (htag : IsTag tag) (hr : ∀ c ∈ r.head?, isWordChar c = false) : wordTag? (tag ++ r) = some tag := by
  obtain ⟨w, rfl, hne, hword⟩ := htag.cons
  rw [cons_append, wordTag?, (span_append hword hr).1, if_neg (by simpa using hne)]

/-- No word character follows the word behind an `@`. -/
lemma wordTag_end (h : wordTag? (tag ++ r) = some tag) : ∀ c ∈ r.head?, isWordChar c = false := by
  obtain ⟨w, rfl, -, hword⟩ := (wordTag_eq_some h).1.cons
  rw [cons_append, wordTag?] at h
  split at h
  · cases h
  · have htake : (w ++ r).takeWhile isWordChar = w := (cons.inj (Option.some.inj h)).2
    have hnone : r.takeWhile isWordChar = [] := by
      rw [takeWhile_append_of_pos hword] at htake
      exact append_right_eq_self.mp htake
    intro c hc
    obtain ⟨u, rfl⟩ := head?_eq_some_iff.mp hc
    simpa using hnone

lemma wordTag_eq_none : wordTag? (c :: r) = none ↔ (c = '@' → ∀ d ∈ r.head?, isWordChar d = false) := by
  by_cases hc : c = '@'
  · subst hc
    cases r with
    | nil => simp [wordTag?]
    | cons d r => cases hd : isWordChar d <;> simp [wordTag?]
  · refine iff_of_true ?_ fun h => absurd h hc
    unfold wordTag?
    split
    next heq =>
      exact absurd (cons.inj heq).1 hc
    · rfl

lemma finds_knownTag (h : ∀ s ∈ styles, IsTag s.1) : Finds (knownTag? styles) := by
  intro t tag hfound
  obtain ⟨⟨s, hs, rfl⟩, hprefix⟩ := knownTag_eq_some hfound
  exact ⟨(h s hs).ne_nil, hprefix⟩

lemma finds_wordTag : Finds wordTag? := fun _ _ hfound => (wordTag_eq_some hfound).imp_left IsTag.ne_nil

lemma tag_eq_some (h : tag? t = some tag) : IsTag tag ∧ tag <+: t := by
  rcases Option.or_eq_some_iff.mp h with h | ⟨-, h⟩
  · obtain ⟨⟨s, hs, rfl⟩, hprefix⟩ := knownTag_eq_some h
    exact ⟨isTag_of_styled s hs, hprefix⟩
  · exact wordTag_eq_some h

lemma finds_tag : Finds tag? := fun _ _ hfound => (tag_eq_some hfound).imp_left IsTag.ne_nil

lemma follows_anyTag : anyTag.Follows wordTag? := by
  intro s
  have hrun : anyTag.run some s =
      if "@".toList.isPrefixOf s.rest then manyFrom isWordChar some (s.rest.drop 1) 1 (s.skip 1) else none := by
    simp only [anyTag, run, Place.rest_skip]
    rfl
  rw [matchAt?, hrun]
  cases hs : s.rest with
  | nil => rfl
  | cons c r =>
    by_cases hc : c = '@'
    · subst hc
      have hword : (r.takeWhile isWordChar).length ≤ r.length := ( takeWhile_prefix _).length_le
      have hlen : 1 + (r.takeWhile isWordChar).length ≤ s.rest.length := by
        rw [hs, length_cons]
        omega
      have htake : r.take (r.takeWhile isWordChar).length = r.takeWhile isWordChar :=
        (prefix_iff_eq_take.mp ( takeWhile_prefix _)).symm
      have hrest : (s.skip 1).rest = r := by rw [Place.rest_skip, hs]; rfl
      have hat : "@".toList.isPrefixOf ('@' :: r) := rfl
      rw [if_pos hat, drop_one, tail_cons, manyFrom_eq hrest (fun j _ h => by cases h), Place.skip_skip, wordTag?]
      cases hk : r.takeWhile isWordChar with
      | nil => rfl
      | cons d w =>
        rw [hk] at hlen htake
        rw [if_pos (by simp), if_neg (by simp), Option.map_some, Option.map_some, Place.since_skip hlen, hs, Nat.add_comm 1,
          take_succ_cons, htake]
    · have hnone : wordTag? (c :: r) = none := wordTag_eq_none.mpr fun h => absurd h hc
      have hprefix : "@".toList.isPrefixOf (c :: r) = false := by
        rw [← Bool.not_eq_true, isPrefixOf_iff_prefix]
        exact fun h => hc (cons_prefix_cons.mp h).1.symm
      rw [hnone, hprefix]
      rfl

/-! ## The passes over a comment -/

lemma isWordChar_of_styleOf (tag : Text) : ∀ c ∈ styleOf tag, isWordChar c := by
  rw [styleOf]
  cases hfind : tagStyles.find? (·.1 == tag) with
  | none => decide
  | some s =>
    have hall : ∀ s ∈ tagStyles, ∀ c ∈ s.2, isWordChar c := by decide
    exact hall s (mem_of_find?_eq_some hfind)

def openMark (tag : Text) : Text := "<span class='" ++ styleOf tag ++ "'>"

def closeMark : Text := "</span>"

lemma highlighted_eq (tag : Text) : highlighted tag = openMark tag ++ (tag ++ closeMark) :=
  append_assoc (openMark tag) tag closeMark

lemma not_mem_around_style {b : Text} (ha : c ∉ a) (hc : isWordChar c = false) (hb : c ∉ b) (tag : Text) :
    c ∉ a ++ styleOf tag ++ b := by
  have hstyle : c ∉ styleOf tag := fun h => absurd (isWordChar_of_styleOf tag c h) (by simp [hc])
  exact fun h => (mem_append.mp h).elim (fun h => (mem_append.mp h).elim ha hstyle) hb

lemma at_not_mem_openMark (tag : Text) : '@' ∉ openMark tag := not_mem_around_style (by decide) (by decide) (by decide) tag

lemma at_not_mem_closeMark : '@' ∉ closeMark := by decide

lemma head_highlighted (tag : Text) : (highlighted tag).head? = some '<' := rfl

/-- A suffix of a text without `@`, and what follows it, does not begin with a tag. -/
lemma not_tag_of_suffix {s : Text} (htag : IsTag tag) (ha : '@' ∉ a) (hs : s <:+ a) (hne : s ≠ []) : ¬tag <+: s ++ t := by
  obtain ⟨w, rfl, -⟩ := htag.cons
  obtain ⟨c, s, rfl⟩ := exists_cons_of_ne_nil hne
  intro h
  rw [cons_append, cons_prefix_cons] at h
  exact ha (h.1 ▸ hs.subset mem_cons_self)

lemma not_known_of_suffix (hstyles : ∀ s ∈ styles, IsTag s.1) {a s : Text} (ha : '@' ∉ a) (hs : s <:+ a)
    (hne : s ≠ []) (t : Text) : knownTag? styles (s ++ t) = none :=
  knownTag_eq_none.mpr fun x hx => not_tag_of_suffix (hstyles x hx) ha hs hne

/-- A word behind an `@` holds no further tag. -/
lemma at_not_mem_word {w : Text} (h : ∀ c ∈ w, isWordChar c) : '@' ∉ w := fun hat => absurd (h _ hat) (by decide)

lemma not_tag_in_tag {other s : Text} (htag : IsTag tag) (hother : IsTag other) (hapart : ¬tag <+: other ∧ ¬other <+: tag)
    (hs : s <:+ other ++ closeMark) (hne : s ≠ []) : ¬tag <+: s ++ r := by
  obtain ⟨w, rfl, -, hword⟩ := hother.cons
  rw [cons_append, suffix_cons_iff] at hs
  rcases hs with rfl | hs
  · intro h
    rw [← cons_append, append_assoc] at h
    rcases prefix_or_prefix_of_prefix h (prefix_append _ _) with h | h
    · exact hapart.1 h
    · exact hapart.2 h
  · have hat : '@' ∉ w ++ closeMark := fun h =>
      (mem_append.mp h).elim (at_not_mem_word hword) at_not_mem_closeMark
    exact not_tag_of_suffix htag hat hs hne

lemma rewrite_unstyled (hstyles : ∀ s ∈ styles, IsTag s.1) {tag r : Text} (htag : IsTag tag)
    (hnone : knownTag? styles (tag ++ r) = none) (f : Text → Text) :
    rewrite (knownTag? styles) f (tag ++ r) = tag ++ rewrite (knownTag? styles) f r := by
  obtain ⟨w, rfl, -, hword⟩ := htag.cons
  rw [cons_append] at hnone ⊢
  rw [rewrite_plain hnone, rewrite_keeps fun s hs hne => not_known_of_suffix hstyles (at_not_mem_word hword) hs hne r]
  rfl

/-- One more pass: a tag that neither begins another one nor is begun by it gets its span as well. -/
lemma replaceAll_rewrite {done : List (Text × Text)} {s : Text × Text} (hdone : ∀ d ∈ done, IsTag d.1) (hs : IsTag s.1)
    (hapart : ∀ d ∈ done, ¬s.1 <+: d.1 ∧ ¬d.1 <+: s.1) (hstyle : span s.2 s.1 = highlighted s.1) (t : Text) :
    replaceAll (rewrite (knownTag? done) highlighted t) s.1 (span s.2 s.1) = rewrite (knownTag? (done ++ [s])) highlighted t := by
  have hall : ∀ d ∈ done ++ [s], IsTag d.1 := forall_mem_append.mpr ⟨hdone, forall_mem_singleton.mpr hs⟩
  have hsplit : ∀ u, knownTag? (done ++ [s]) u = (knownTag? done u).or (knownTag? [s] u) := fun u => by
    rw [knownTag?, find?_append, knownTag?, knownTag?, Option.map_or]
  obtain ⟨w, hw, -, hword⟩ := hs.cons
  rw [hstyle]
  induction t using (finds_knownTag hall).induct with
  | nil => rfl
  | found part r hne hfound ih =>
    rw [rewrite_found hne hfound, ← ih]
    rw [hsplit] at hfound
    rcases Option.or_eq_some_iff.mp hfound with hknown | ⟨hnone, hnew⟩
    · obtain ⟨⟨d, hd, rfl⟩, -⟩ := knownTag_eq_some hknown
      rw [rewrite_found hne hknown, highlighted_eq, append_assoc (openMark _), append_assoc (openMark _),
        replaceAll_keeps fun z hz hzne => not_tag_of_suffix hs (at_not_mem_openMark _) hz hzne,
        replaceAll_keeps fun z hz hzne => not_tag_in_tag hs (hdone d hd) (hapart d hd) hz hzne]
    · obtain ⟨⟨d, hd, rfl⟩, -⟩ := knownTag_eq_some hnew
      obtain rfl := mem_singleton.mp hd
      rw [rewrite_unstyled hdone hs hnone, replaceAll_append hne]
  | plain c r hplain ih =>
    rw [rewrite_plain hplain, ← ih]
    rw [hsplit, Option.or_eq_none_iff] at hplain
    rw [rewrite_plain hplain.1]
    refine replaceAll_cons (fun hprefix => ?_) _
    refine knownTag_eq_none.mp hplain.2 s mem_cons_self ?_
    rw [hw] at hprefix ⊢
    obtain ⟨hc, htail⟩ := cons_prefix_cons.mp hprefix
    refine cons_prefix_cons.mpr ⟨hc, prefix_of_prefix_rewrite (finds_knownTag hdone) head_highlighted (fun hlt => ?_) htail⟩
    exact absurd (hword _ hlt) (by decide)

lemma foldl_replaceAll {done todo : List (Text × Text)} (htags : ∀ d ∈ done ++ todo, IsTag d.1 ∧ span d.2 d.1 = highlighted d.1)
    (hapart : (done ++ todo).Pairwise fun d s => ¬s.1 <+: d.1 ∧ ¬d.1 <+: s.1) (t : Text) :
    todo.foldl (fun t s => replaceAll t s.1 (span s.2 s.1)) (rewrite (knownTag? done) highlighted t) =
      rewrite (knownTag? (done ++ todo)) highlighted t := by
  induction todo generalizing done with
  | nil => rw [append_nil]; rfl
  | cons s todo ih =>
    have hassoc : done ++ s :: todo = done ++ [s] ++ todo := by simp
    obtain ⟨hdone, hrest⟩ := forall_mem_append.mp htags
    obtain ⟨hs, -⟩ := forall_mem_cons.mp hrest
    have hbefore : ∀ d ∈ done, ¬s.1 <+: d.1 ∧ ¬d.1 <+: s.1 := fun d hd =>
      (pairwise_append.mp hapart).2.2 d hd s mem_cons_self
    rw [foldl_cons, replaceAll_rewrite (fun d hd => (hdone d hd).1) hs.1 hbefore hs.2, hassoc]
    rw [hassoc] at htags hapart
    exact ih htags hapart

lemma rewrite_nothing (t : Text) : rewrite (knownTag? []) highlighted t = t := by
  induction t with
  | nil => rfl
  | cons c r ih => rw [rewrite_plain rfl, ih]

lemma highlighted_styled : ∀ s ∈ tagStyles, span s.2 s.1 = highlighted s.1 := by decide

lemma apart_styled : tagStyles.Pairwise fun d s => ¬s.1 <+: d.1 ∧ ¬d.1 <+: s.1 := by decide

lemma head_rewrite (h : ∀ c ∈ t.head?, isWordChar c = false) :
    ∀ c ∈ (rewrite (knownTag? tagStyles) highlighted t).head?, isWordChar c = false := by
  intro c hc
  by_contra hword
  rw [Bool.not_eq_false] at hword
  obtain ⟨r, hr⟩ := head?_eq_some_iff.mp hc
  have hlt : '<' ∉ [c] := fun hmem => absurd (mem_singleton.mp hmem ▸ hword) (by decide)
  have hprefix : [c] <+: rewrite (knownTag? tagStyles) highlighted t := by rw [hr]; exact ⟨r, rfl⟩
  obtain ⟨u, rfl⟩ := prefix_of_prefix_rewrite (finds_knownTag isTag_of_styled) head_highlighted hlt hprefix
  rw [h c rfl] at hword
  cases hword

/-- What the last pass makes of an `@` with a word: a styled tag has its span already. -/
def lastPass (tag : Text) : Text := if tagStyles.any (·.1 == tag) then tag else span "tag" tag

/-- The last pass: tags without a style of their own get their span as well, and the others keep theirs. -/
lemma rewrite_lastPass (t : Text) :
    rewrite wordTag? lastPass (rewrite (knownTag? tagStyles) highlighted t) = rewrite tag? highlighted t := by
  have hquiet : ∀ {a s r : Text}, '@' ∉ a → s <:+ a → s ≠ [] → wordTag? (s ++ r) = none := by
    intro a s r ha hs hne
    obtain ⟨c, s, rfl⟩ := exists_cons_of_ne_nil hne
    exact wordTag_eq_none.mpr fun hc => absurd (hc ▸ hs.subset mem_cons_self) ha
  induction t using finds_tag.induct with
  | nil => rfl
  | found part r hne hfound ih =>
    rw [rewrite_found hne hfound, ← ih]
    rcases Option.or_eq_some_iff.mp hfound with hknown | ⟨hnone, hword⟩
    · obtain ⟨⟨d, hd, rfl⟩, -⟩ := knownTag_eq_some hknown
      have hstyled : tagStyles.any (·.1 == d.1) := any_eq_true.mpr ⟨d, hd, beq_self_eq_true d.1⟩
      have hown : lastPass d.1 = d.1 := if_pos hstyled
      have hend : ∀ c ∈ (closeMark ++ rewrite (knownTag? tagStyles) highlighted r).head?, isWordChar c = false := by
        intro c hc
        cases hc
        decide
      rw [rewrite_found hne hknown, highlighted_eq, append_assoc, append_assoc, append_assoc,
        rewrite_keeps fun s hs hne => hquiet (at_not_mem_openMark _) hs hne,
        rewrite_found hne (wordTag_append (isTag_of_styled d hd) hend), hown,
        rewrite_keeps fun s hs hne => hquiet at_not_mem_closeMark hs hne, append_assoc]
    · obtain ⟨htag, -⟩ := wordTag_eq_some hword
      have hunstyled : ∀ s ∈ tagStyles, (s.1 == part) = false := fun s hs => by
        refine beq_false_of_ne fun heq => knownTag_eq_none.mp hnone s hs ?_
        rw [heq]
        exact prefix_append part r
      have hlast : lastPass part = highlighted part := by
        have hfind : tagStyles.find? (·.1 == part) = none := find?_eq_none.mpr fun s hs => by simp [hunstyled s hs]
        have hany : tagStyles.any (·.1 == part) = false := any_eq_false.mpr fun s hs => by simp [hunstyled s hs]
        rw [lastPass, hany, highlighted, styleOf, hfind]
        rfl
      rw [rewrite_unstyled isTag_of_styled htag hnone, rewrite_found hne (wordTag_append htag (head_rewrite (wordTag_end hword))), hlast]
  | plain c r hplain ih =>
    rw [rewrite_plain hplain, ← ih]
    rw [tag?, Option.or_eq_none_iff] at hplain
    rw [rewrite_plain hplain.1]
    refine rewrite_plain (wordTag_eq_none.mpr fun hc => head_rewrite ?_) _
    exact wordTag_eq_none.mp hplain.2 hc

lemma highlightTags_eq (comment : Text) : highlightTags comment = rewrite tag? highlighted comment := by
  have hknown := @foldl_replaceAll [] tagStyles (fun d hd => ⟨isTag_of_styled d hd, highlighted_styled d hd⟩) apart_styled comment
  rw [rewrite_nothing] at hknown
  rw [highlightTags, hknown, ← rewrite_lastPass]
  exact follows_anyTag.replace_eq finds_wordTag lastPass _

/-! ## Spans -/

/-- The mark of a span that the text begins with: `<span class=` up to the next `>`, or `</span>`. -/
def spanMark? (t : Text) : Option Text :=
  if startsWith t "<span class=" then (cutFirst ">" t).map fun (before, _) => before ++ ">"
  else if startsWith t "</span>" then some "</span>"
  else none

def withoutSpans (t : Text) : Text := rewrite spanMark? (fun _ => []) t

def nestsFrom (isOpen : Bool) : Text → Bool
  | [] => false
  | c :: r =>
    if startsWith (c :: r) "<span class=" then isOpen || nestsFrom true r
    else if startsWith (c :: r) "</span>" then nestsFrom false r
    else nestsFrom isOpen r

lemma startsWith_of_ne {mark : Text} (hc : c ≠ '<') (hmark : mark.head? = some '<') : startsWith (c :: r) mark = false := by
  obtain ⟨u, rfl⟩ := head?_eq_some_iff.mp hmark
  exact startsWith_eq_false_iff.mpr fun h => hc (cons_prefix_cons.mp h).1.symm

lemma spanMark_of_ne (hc : c ≠ '<') : spanMark? (c :: r) = none := by
  rw [spanMark?, startsWith_of_ne hc rfl, startsWith_of_ne hc rfl]
  rfl

lemma spanMark_openMark (tag r : Text) : spanMark? (openMark tag ++ r) = some (openMark tag) := by
  have hstyle : '>' ∉ "<span class='" ++ styleOf tag ++ "'" := not_mem_around_style (by decide) (by decide) (by decide) tag
  have hmark : openMark tag = "<span class='" ++ styleOf tag ++ "'" ++ ">" := by
    have hquote : "'>".toList = "'" ++ ">" := by decide
    unfold openMark
    rw [hquote, ← append_assoc]
  have hcut : cutFirst ">" (openMark tag ++ r) = some ("<span class='" ++ styleOf tag ++ "'", r) := by
    rw [hmark, append_assoc]
    exact cutFirst_of_not_mem hstyle r
  have hstart : startsWith (openMark tag ++ r) "<span class=" := rfl
  rw [spanMark?, if_pos hstart, hcut, hmark]
  rfl

lemma withoutSpans_append (ha : '<' ∉ a) (r : Text) : withoutSpans (a ++ r) = a ++ withoutSpans r := by
  refine rewrite_keeps (fun s hs hne => ?_) _
  obtain ⟨c, s, rfl⟩ := exists_cons_of_ne_nil hne
  exact spanMark_of_ne fun hc => ha (hc ▸ hs.subset mem_cons_self)

lemma withoutSpans_highlighted (htag : '<' ∉ tag) (r : Text) : withoutSpans (highlighted tag ++ r) = tag ++ withoutSpans r := by
  have hopen : withoutSpans (openMark tag ++ (tag ++ (closeMark ++ r))) = withoutSpans (tag ++ (closeMark ++ r)) :=
    rewrite_found (cons_ne_nil _ _) (spanMark_openMark tag _) _
  have hclose : withoutSpans (closeMark ++ r) = withoutSpans r := rewrite_found (cons_ne_nil _ _) rfl _
  rw [highlighted_eq, append_assoc, append_assoc, hopen, withoutSpans_append htag, hclose]

lemma nestsFrom_append (ha : '<' ∉ a) (isOpen : Bool) (r : Text) : nestsFrom isOpen (a ++ r) = nestsFrom isOpen r := by
  induction a with
  | nil => rfl
  | cons c a ih =>
    obtain ⟨hc, ha⟩ := ne_and_not_mem_of_not_mem_cons ha
    rw [cons_append, nestsFrom, startsWith_of_ne hc.symm rfl, startsWith_of_ne hc.symm rfl, ← ih ha]
    rfl

lemma nestsFrom_highlighted (htag : '<' ∉ tag) (r : Text) : nestsFrom false (highlighted tag ++ r) = nestsFrom false r := by
  have hopen : nestsFrom false (openMark tag ++ (tag ++ (closeMark ++ r))) =
      nestsFrom true ((openMark tag).tail ++ (tag ++ (closeMark ++ r))) := rfl
  have hmark : '<' ∉ (openMark tag).tail := not_mem_around_style (a := "span class='") (by decide) (by decide) (by decide) tag
  have hclose : nestsFrom true (closeMark ++ r) = nestsFrom false (closeMark.tail ++ r) := rfl
  rw [highlighted_eq, append_assoc, append_assoc, hopen, nestsFrom_append hmark, nestsFrom_append htag, hclose,
    nestsFrom_append (by decide)]

/-- What is written in front of the comment of the function with a number: the button, and the opening of the block. -/
def commentOpening (i : Nat) : Text :=
  "<button class='toggle-btn active' onclick=\"toggleComment('" ++ ("comment_" ++ ofNat i) ++ "', this)\">📘 Hide comments</button>
" ++ ("<div class='doxygen-comment show' id='" ++ ("comment_" ++ ofNat i) ++ "'>")

lemma whole_commentPieces {e : Entry} {note : Text} (h : fileNote e = .ok note) (i : Nat) (comment : Text) :
    (commentPieces i e comment).whole = .ok (commentOpening i ++ note ++ highlightTags comment ++ "</div>\n") := by
  unfold commentPieces Draft.needing commentOpening
  rw [h]
  refine (Draft.whole_ok [_, _]).trans (congrArg Except.ok ?_)
  simp only [flatten_cons, flatten_nil, append_nil, append_assoc]

/-- Highlighting does not change the text of a comment without `<`: what is written behind the note on the file is the comment with every
tag in one span, which is the comment again without the marks of the spans, and in which no span opens inside of another one. -/
theorem commentPieces_keeps_text {e : Entry} {note comment : Text} (hnote : fileNote e = .ok note) (h : '<' ∉ comment) (i : Nat) :
    ∃ part, (commentPieces i e comment).whole = .ok (commentOpening i ++ note ++ part ++ "</div>\n") ∧
      part = rewrite tag? highlighted comment ∧ withoutSpans part = comment ∧ nestsFrom false part = false := by
  refine ⟨highlightTags comment, whole_commentPieces hnote i comment, highlightTags_eq comment, ?_⟩
  rw [highlightTags_eq]
  induction comment using finds_tag.induct with
  | nil => exact ⟨rfl, rfl⟩
  | found tag r hne hfound ih =>
    rw [List.mem_append, not_or] at h
    rw [rewrite_found hne hfound, withoutSpans_highlighted h.1, nestsFrom_highlighted h.1, (ih h.2).1]
    exact ⟨rfl, (ih h.2).2⟩
  | plain c r hplain ih =>
    obtain ⟨hc, hr⟩ := List.ne_and_not_mem_of_not_mem_cons h
    have hlone : '<' ∉ [c] := List.not_mem_cons_of_ne_of_not_mem hc List.not_mem_nil
    rw [rewrite_plain hplain, ← List.singleton_append, withoutSpans_append hlone, nestsFrom_append hlone, (ih hr).1]
    exact ⟨rfl, (ih hr).2⟩

/-- Tags of all kinds, one behind the other and with more behind them. -/
def crowdedComment : Text := "/** @brief Adds @@param a\n * @returns b > a @parameters@see@note\n */"

def locatedEntry : Entry := { file := some "src/a.cpp", startLine := some 3 }

theorem crowdedComment_kept :
    '<' ∉ crowdedComment ∧
      ∃ part, (commentPieces 0 locatedEntry crowdedComment).whole =
          .ok (commentOpening 0 ++ "<div style='font-size: 12px; color: gray;'>📄 a.cpp (Line 3)</div>" ++ part ++ "</div>\n") ∧
        part = rewrite tag? highlighted crowdedComment ∧ withoutSpans part = crowdedComment ∧ nestsFrom false part = false :=
  have hnote : fileNote locatedEntry = .ok "<div style='font-size: 12px; color: gray;'>📄 a.cpp (Line 3)</div>" := by decide
  have hfree : '<' ∉ crowdedComment := by decide
  ⟨hfree, commentPieces_keeps_text hnote hfree 0⟩

end Report.Html

end FunctionDocs
