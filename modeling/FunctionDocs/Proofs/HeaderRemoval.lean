import FunctionDocs.Header.Basic
import FunctionDocs.Proofs.Text

/-!
# Which lines go with a header

A header is taken away from the last line above the function that has a `/*` to the next line below this one that has a `*/`. Nothing
holds this end above the function: a comment that opens and closes on one line is not seen to close, and the function goes with it, up
to the next line that closes a comment. A header of `//` lines is not found at all. The lines of the function stay exactly if the end
lies above the function, or if the lines that go are repeated in such a way that it makes no difference.
-/

namespace FunctionDocs.Header

open Text

/-! ## The lines that are taken away -/

/-- The last line above `start` that has a property. -/
structure LastAbove (ls : List Text) (p : Text → Bool) (start k : Nat) : Prop where
  above : k < start
  here : ∃ l, ls[k]? = some l ∧ p l = true
  later : ∀ i l, k < i → i < start → ls[i]? = some l → p l = false

/-- The first line from `start` on that has a property. -/
structure FirstFrom (ls : List Text) (p : Text → Bool) (start k : Nat) : Prop where
  below : start ≤ k
  here : ∃ l, ls[k]? = some l ∧ p l = true
  earlier : ∀ i l, start ≤ i → i < k → ls[i]? = some l → p l = false

section Positions

variable {ls : List Text} {p : Text → Bool} {start : Nat} {first last : Nat} {k k' : Nat}

lemma LastAbove.unique (h : LastAbove ls p start k) (h' : LastAbove ls p start k') : k = k' := by
  obtain ⟨l, hl, hp⟩ := h.here
  obtain ⟨l', hl', hp'⟩ := h'.here
  rcases lt_trichotomy k k' with hlt | heq | hgt
  · exact absurd hp' (by rw [h.later k' l' hlt h'.above hl']; exact Bool.false_ne_true)
  · exact heq
  · exact absurd hp (by rw [h'.later k l hgt h.above hl]; exact Bool.false_ne_true)

lemma FirstFrom.unique (h : FirstFrom ls p start k) (h' : FirstFrom ls p start k') : k = k' := by
  obtain ⟨l, hl, hp⟩ := h.here
  obtain ⟨l', hl', hp'⟩ := h'.here
  rcases lt_trichotomy k k' with hlt | heq | hgt
  · exact absurd hp (by rw [h'.earlier k l h.below hlt hl]; exact Bool.false_ne_true)
  · exact heq
  · exact absurd hp' (by rw [h.earlier k' l' h'.below hgt hl']; exact Bool.false_ne_true)

lemma findIdx_above (hle : start ≤ ls.length) :
    match (ls.take start).reverse.findIdx? p with
    | some up => LastAbove ls p start (start - 1 - up)
    | none => ∀ k, ¬LastAbove ls p start k := by
  have hlen : (ls.take start).length = start := List.length_take_of_le hle
  have hget : ∀ k, k < start → (ls.take start).reverse[k]? = ls[start - 1 - k]? := by
    intro k hk
    rw [List.getElem?_reverse (by rw [hlen]; exact hk), hlen, List.getElem?_take_of_lt (by omega)]
  split
  next up hfound =>
    obtain ⟨hlt, hp, hbefore⟩ := List.findIdx?_eq_some_iff_getElem.mp hfound
    have hup : up < start := by rw [List.length_reverse, hlen] at hlt; exact hlt
    refine ⟨by omega, ⟨_, (hget up hup).symm.trans (List.getElem?_eq_getElem hlt), hp⟩, fun i l hi his hl => ?_⟩
    have hmirror : (ls.take start).reverse[start - 1 - i]? = some l := by
      rw [hget _ (by omega), show start - 1 - (start - 1 - i) = i by omega, hl]
    obtain ⟨hlt', rfl⟩ := getElem?_eq_some_iff.mp hmirror
    exact Bool.eq_false_iff.mpr (hbefore (start - 1 - i) (by omega))
  next hnone =>
    rintro k ⟨habove, ⟨l, hl, hp⟩, -⟩
    have hmem : l ∈ (ls.take start).reverse :=
      List.mem_reverse.mpr (List.mem_of_getElem? ((List.getElem?_take_of_lt habove).trans hl))
    rw [List.findIdx?_eq_none_iff.mp hnone l hmem] at hp
    cases hp

lemma findIdx_below (start : Nat) :
    match (ls.drop start).findIdx? p with
    | some down => FirstFrom ls p start (start + down)
    | none => ∀ k, ¬FirstFrom ls p start k := by
  have hget : ∀ k, start ≤ k → (ls.drop start)[k - start]? = ls[k]? := by
    intro k hk
    rw [List.getElem?_drop, Nat.add_sub_cancel' hk]
  split
  next down hfound =>
    obtain ⟨hlt, hp, hbefore⟩ := List.findIdx?_eq_some_iff_getElem.mp hfound
    refine ⟨by omega, ⟨_, ?_, hp⟩, fun i l hi hid hl => ?_⟩
    · rw [← List.getElem?_eq_getElem hlt, List.getElem?_drop]
    · obtain ⟨hlt', rfl⟩ := getElem?_eq_some_iff.mp ((hget i hi).trans hl)
      exact Bool.eq_false_iff.mpr (hbefore (i - start) (by omega))
  next hnone =>
    rintro k ⟨hbelow, ⟨l, hl, hp⟩, -⟩
    rw [List.findIdx?_eq_none_iff.mp hnone l (List.mem_of_getElem? ((hget k hbelow).trans hl))] at hp
    cases hp

end Positions

/-- The lines from `first` to `last` are those that are taken away above `start`: they begin with the last line above it that has a
`/*`, and end with the next one that has a `*/`. -/
structure Removed (ls : List Text) (start first last : Nat) : Prop where
  opening : LastAbove ls (contains · "/*") start first
  closing : FirstFrom ls (contains · "*/") (first + 1) last

lemma Removed.unique {ls : List Text} {start first' last' : Nat} (h : Removed ls start first last)
    (h' : Removed ls start first' last') : first = first' ∧ last = last' := by
  obtain rfl := h.opening.unique h'.opening
  exact ⟨rfl, h.closing.unique h'.closing⟩

lemma removeHeader_spec {ls : List Text} {start : Nat} (hpos : 0 < start) (hle : start ≤ ls.length) :
    (∃ first last, Removed ls start first last ∧ removeHeader ls start = .ok (ls.take first ++ ls.drop (last + 1))) ∨
      (∀ first last, ¬Removed ls start first last) ∧ removeHeader ls start = .ok ls := by
  have hup := @findIdx_above ls (contains · "/*") start hle
  rw [removeHeader, if_neg (by omega), if_neg (by omega), Int.toNat_natCast]
  cases hopening : (ls.take start).reverse.findIdx? (contains · "/*") with
  | none =>
    rw [hopening] at hup
    exact .inr ⟨fun first last h => hup first h.opening, rfl⟩
  | some up =>
    rw [hopening] at hup
    have hdown := @findIdx_below ls (contains · "*/") (start - 1 - up + 1)
    dsimp only
    cases hclosing : (ls.drop (start - 1 - up + 1)).findIdx? (contains · "*/") with
    | none =>
      rw [hclosing] at hdown
      refine .inr ⟨fun first last h => ?_, rfl⟩
      obtain rfl := h.opening.unique hup
      exact hdown last h.closing
    | some down =>
      rw [hclosing] at hdown
      exact .inl ⟨_, _, ⟨hup, hdown⟩, rfl⟩

/-! ## Lines above the function only -/

/-- The lines are left when a block of lines that ends above `start` is taken out of `ls`. -/
def LeavesBelow (ls : List Text) (start : Nat) (ls' : List Text) : Prop :=
  ∃ first last, first ≤ last ∧ last < start ∧ ls' = ls.take first ++ ls.drop (last + 1)

instance (ls : List Text) (start : Nat) (ls' : List Text) : Decidable (LeavesBelow ls start ls') :=
  decidable_of_iff (∃ last < start, ∃ first < last + 1, ls' = ls.take first ++ ls.drop (last + 1))
    ⟨fun ⟨last, hlt, first, hle, h⟩ => ⟨first, last, by omega, hlt, h⟩, fun ⟨first, last, hle, hlt, h⟩ => ⟨last, hlt, first, by omega, h⟩⟩

/-- Each line from `upper` up to `first` is repeated `size` lines further down. -/
def Repeats (ls : List Text) (upper first size : Nat) : Prop := ∀ k, upper ≤ k → k < first → ls[k]? = ls[k + size]?

lemma getElem_without {ls : List Text} {next : Nat} (h : first ≤ ls.length) (k : Nat) :
    (ls.take first ++ ls.drop next)[k]? = if k < first then ls[k]? else ls[k - first + next]? := by
  rw [List.getElem?_append, List.length_take_of_le h]
  split
  next hk =>
    rw [List.getElem?_take_of_lt hk]
  · rw [List.getElem?_drop, Nat.add_comm]

lemma without_eq_iff {ls : List Text} {upper size : Nat} (hle : upper ≤ first) (hlen : first + size ≤ ls.length) :
    ls.take first ++ ls.drop (first + size) = ls.take upper ++ ls.drop (upper + size) ↔ Repeats ls upper first size := by
  rw [List.ext_getElem?_iff]
  simp only [getElem_without (show first ≤ ls.length by omega), getElem_without (show upper ≤ ls.length by omega)]
  constructor
  · intro h k hupper hfirst
    have hk := h k
    rwa [if_pos hfirst, if_neg (by omega), show k - upper + (upper + size) = k + size by omega] at hk
  · intro h k
    by_cases hupper : k < upper
    · rw [if_pos hupper, if_pos (by omega)]
    · rw [if_neg hupper, show k - upper + (upper + size) = k + size by omega]
      by_cases hfirst : k < first
      · rw [if_pos hfirst, h k (by omega) hfirst]
      · rw [if_neg hfirst, show k - first + (first + size) = k + size by omega]

/-- The lines without a block are those without a block above `start` exactly if the block, moved up as far as its lines are repeated,
ends above `start`. -/
lemma leavesBelow_iff {ls : List Text} {start : Nat} (hstart : start ≤ ls.length) (hle : first ≤ last)
    (hlast : last < ls.length) :
    LeavesBelow ls start (ls.take first ++ ls.drop (last + 1)) ↔
      ∃ upper ≤ first, upper + (last - first) < start ∧ Repeats ls upper first (last + 1 - first) := by
  have hnext : last + 1 = first + (last + 1 - first) := by omega
  constructor
  · rintro ⟨first', last', hle', hlt', heq⟩
    have hsize : last' - first' = last - first := by
      have hlen := congrArg List.length heq
      simp only [List.length_append, List.length_take, List.length_drop] at hlen
      omega
    by_cases hupper : first' ≤ first
    · refine ⟨first', hupper, by omega, (without_eq_iff hupper (by omega)).mp ?_⟩
      rw [← hnext, heq]
      congr 2
      omega
    · exact ⟨first, le_refl _, by omega, fun k hk hk' => by omega⟩
  · rintro ⟨upper, hupper, hlt, hrepeats⟩
    refine ⟨upper, upper + (last - first), by omega, hlt, ?_⟩
    have heq := (without_eq_iff hupper (by omega)).mpr hrepeats
    rw [← hnext] at heq
    rw [heq]
    congr 2
    omega

/-- Taking away the header above a function takes lines above the function, and no others, exactly if the next line with `*/` below the
last line with `/*` stands above the function, or if the lines that are taken away are repeated so that it makes no difference. -/
theorem removeHeader_above_iff {ls : List Text} {start : Nat} (hpos : 0 < start) (hle : start ≤ ls.length) :
    ∃ ls', removeHeader ls start = .ok ls' ∧
      (LeavesBelow ls start ls' ↔
        ∃ first last, Removed ls start first last ∧
          ∃ upper ≤ first, upper + (last - first) < start ∧ Repeats ls upper first (last + 1 - first)) := by
  rcases removeHeader_spec hpos hle with ⟨first, last, hremoved, hresult⟩ | ⟨hnone, hresult⟩
  · obtain ⟨hseveral, ⟨l, hl, -⟩, -⟩ := hremoved.closing
    refine ⟨_, hresult, ?_⟩
    rw [leavesBelow_iff hle (by omega) (List.getElem?_eq_some_iff.mp hl).1]
    constructor
    · exact fun h => ⟨first, last, hremoved, h⟩
    · rintro ⟨first', last', hremoved', h⟩
      obtain ⟨rfl, rfl⟩ := hremoved.unique hremoved'
      exact h
  · refine ⟨_, hresult, iff_of_false ?_ fun ⟨first, last, hremoved, _⟩ => hnone first last hremoved⟩
    -- nothing was taken away, but a block has one line at least
    rintro ⟨first, last, hfirst, hlast, heq⟩
    have hlen := congrArg List.length heq
    simp only [List.length_append, List.length_take, List.length_drop] at hlen
    omega

def headedLines : List Text := ["int x;", "", "/* Adds", " * numbers. */", "int add(int a) \x7b", "\x7d /* add() */"]

/-- The header of `headedLines` goes and nothing else. -/
theorem headed_leavesBelow :
    headerExists headedLines 4 = .ok true ∧
      ∃ ls', removeHeader headedLines 4 = .ok ls' ∧ LeavesBelow headedLines 4 ls' := by
  obtain ⟨ls', hresult, hiff⟩ := @removeHeader_above_iff headedLines 4 (by decide) (by decide)
  have hopening : LastAbove headedLines (contains · "/*") 4 2 := by
    refine ⟨by decide, ⟨_, rfl, by decide⟩, fun i l hi his hl => ?_⟩
    obtain rfl : i = 3 := by omega
    cases hl
    decide
  have hclosing : FirstFrom headedLines (contains · "*/") 3 3 := ⟨by decide, ⟨_, rfl, by decide⟩, fun i l hi his => by omega⟩
  exact ⟨by decide, ls', hresult, hiff.mpr ⟨2, 3, ⟨hopening, hclosing⟩, 2, Nat.le_refl 2, by decide, fun k hk hk' => by omega⟩⟩

def oneLineHeader : List Text := ["/* adds */", "int add(int a) \x7b", "  return a;", "\x7d /* add() */"]

/-- The header of `oneLineHeader` is not seen to close, so the whole function goes with it. -/
theorem oneLineHeader_takes_function :
    headerExists oneLineHeader 1 = .ok true ∧ removeHeader oneLineHeader 1 = .ok [] ∧ ¬LeavesBelow oneLineHeader 1 [] := by
  decide

end FunctionDocs.Header
