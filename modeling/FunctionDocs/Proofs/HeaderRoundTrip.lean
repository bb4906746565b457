import FunctionDocs.Proofs.Headed
import FunctionDocs.Proofs.HeaderRemoval

/-!
# Headers put in place, found again and taken away

A header is put in place by one search and found by another: the search for a header goes upwards from the function and ends at the
two empty lines above the new header, unless a line of its text looks like the end of a function. A third search takes the header
away: it goes up to the line that opens the header and down to the line that closes it, whatever comments stand elsewhere.
-/

open List

namespace FunctionDocs.Header

open Text Code Source

variable {above ls : List Text} {start : Nat} {name : Text} {l t u : Text}

/-! ## The lines with a new header -/

lemma headerExists_returns (h : start ≤ ls.length) : ∃ found, headerExists ls start = .ok found := by
  cases start with
  | zero => exact ⟨false, rfl⟩
  | succ m =>
    obtain ⟨l, -, -, hexists⟩ := headerExists_succ h
    exact ⟨_, hexists.trans (headerExists_concat _ _)⟩

def headedPart (ls : List Text) (start : Nat) (texts : List Text) : List Text :=
  withGap (ls.take start) ++ framed (texts.map fun t => " * " ++ t)

lemma headedPart_eq (ls : List Text) (start : Nat) (texts : List Text) :
    headedPart ls start texts = dropBlankTail (ls.take start) ++ gapped (texts.map fun t => " * " ++ t) := by
  rw [headedPart, withGap, gapped, append_assoc]

lemma addHeader_of_none {text : Option Text} (hle : start ≤ ls.length) (hnone : headerExists ls start = .ok false) :
    addHeader ls name start text = .ok (headedPart ls start (headerTexts name text) ++ ls.drop start) := by
  have hlen : (ls.take start).length = start := length_take_of_le hle
  have hadded := @addHeader_eq ls (ls.take start) (ls.drop start) name text (take_append_drop _ _).symm (by rw [hlen]; exact hnone)
  rw [hlen] at hadded
  exact hadded

lemma start_behind (hle : start ≤ ls.length) : (start : Int) + (above ++ ls.drop start).length - ls.length = above.length := by
  rw [length_append, length_drop]
  omega

/-! ## The header is found again -/

def endsFunction (l : Text) : Bool := endsWithAny (trimRight l) [['}'], ['}', ';'], ['}', '/', '*']]

lemma suffix_behind {α : Type} {p a b : List α} {s : α} (hs : s ∉ p) (h : p <:+ a ++ s :: b) : p <:+ b := by
  rcases suffix_or_suffix_of_suffix h (suffix_append a (s :: b)) with hp | hp
  · rcases suffix_cons_iff.mp hp with rfl | hp
    · exact absurd mem_cons_self hs
    · exact hp
  · exact absurd (hp.subset mem_cons_self) hs

lemma stopsHeader_starred (h : endsFunction l = false) : stopsHeader (" * " ++ l) = false := by
  have hstar : ∀ c ∈ ['*'].head?, isBlank c = false := by decide
  by_cases hblank : isBlankLine l
  · have htrim : trim (" * " ++ l) = ['*'] :=
      @trim_of_split [' '] ['*'] (' ' :: l) rfl ⟨hstar, hstar⟩ (isBlankLine_cons.mpr ⟨rfl, hblank⟩)
    rw [stopsHeader, htrim]
    rfl
  · have htrim : trim (" * " ++ l) = ['*'] ++ ' ' :: trimRight l := by
      have hleft : trimLeft (" * " ++ l) = ['*', ' '] ++ l := @trimLeft_append [' '] ('*' :: ' ' :: l) rfl hstar
      rw [trim, hleft, trimRight_append_of_not_blank (Bool.eq_false_iff.mpr hblank)]
      rfl
    -- a tail without blanks stands behind the margin
    have hend : ∀ tail : Text, ' ' ∉ tail → endsWith (trimRight l) tail = false →
        endsWith (['*'] ++ ' ' :: trimRight l) tail = false := by
      intro tail hmem hfree
      rw [Bool.eq_false_iff, Ne, endsWith_iff] at hfree ⊢
      exact fun hsuffix => hfree (suffix_behind hmem hsuffix)
    simp only [endsFunction, endsWithAny, any_cons, any_nil, Bool.or_eq_false_iff] at h
    simp only [stopsHeader, htrim, endsWithAny, any_cons, any_nil, Bool.or_eq_false_iff]
    exact ⟨⟨rfl, hend _ (by decide) h.1, hend _ (by decide) h.2.1, hend _ (by decide) h.2.2.1, trivial⟩, rfl⟩

lemma endsFunction_placeholder (hname : Flat name) (hl : l ∈ lines (placeholderText name)) : endsFunction l = false := by
  have hflat : Flat (placeholderText name) := hname.append (by decide)
  have hlast : (placeholderText name).getLast? = some 'e' := by
    rw [placeholderText, getLast?_append_of_ne_nil _ (by decide)]
    rfl
  rw [lines_eq_splitOnChar (fun c hc hend => absurd (hflat c hc) (by rw [hend]; decide)) ⟨'e', hlast, by decide⟩,
    splitOnChar_of_not_mem hflat.not_mem, mem_singleton] at hl
  have hwhole : trimRight (placeholderText name) = placeholderText name := by
    exact trimRight_eq_self fun c hc => by cases hlast.symm.trans hc; rfl
  have hend : ∀ tail : Text, tail ≠ [] → tail.getLast? ≠ some 'e' → endsWith (placeholderText name) tail = false := by
    intro tail hne hdiffers
    rw [Bool.eq_false_iff, Ne, endsWith_iff]
    rintro ⟨u, hu⟩
    rw [← hu, getLast?_append_of_ne_nil _ hne] at hlast
    exact hdiffers hlast
  rw [hl, endsFunction, hwhole]
  simp only [endsWithAny, any_cons, any_nil, Bool.or_eq_false_iff]
  exact ⟨hend _ (by decide) (by decide), hend _ (by decide) (by decide), hend _ (by decide) (by decide), trivial⟩

lemma headerExists_headedPart {texts : List Text} (h : ∀ t ∈ texts, endsFunction t = false) (rest : List Text) :
    headerExists (headedPart ls start texts ++ rest) ((headedPart ls start texts).length : Nat) = .ok true := by
  have hbody : ∀ l ∈ texts.map fun t => " * ".toList ++ t, stopsHeader l = false := by
    intro l hl
    obtain ⟨t, ht, rfl⟩ := mem_map.mp hl
    exact stopsHeader_starred (h t ht)
  have hheaded := headed_gapped hbody (dropBlankTail (ls.take start))
  rw [← headedPart_eq] at hheaded
  refine ((headed_iff ?_).mp ?_).1
  · rw [length_append]
    exact Nat.le_add_right _ _
  · rw [take_left]
    exact hheaded

/-- Putting a header above a function keeps the lines of the function and gives lines in which a header is found above it, so that
putting one there again changes nothing. A new header stands two empty lines below what was above the function. -/
theorem addHeader_establishes {ls : List Text} {name : Text} {start : Nat} {text : Option Text} (hle : start ≤ ls.length)
    (hname : Flat name) (htext : ∀ t ∈ text, ∀ l ∈ lines t, endsFunction l = false) :
    ∃ ls' : List Text, addHeader ls name start text = .ok ls' ∧
      ∃ start' : Int, start' = start + ls'.length - ls.length ∧
        itemsFrom ls' start' = itemsFrom ls start ∧
        (ls' = ls ∨ ∃ l, startsWith l "/*" = true ∧ dropBlankTail (ls.take start) ++ [[], [], l] <+: ls') ∧
        headerExists ls' start' = .ok true ∧
        ∀ name' text', addHeader ls' name' start' text' = .ok ls' := by
  have hagain : ∀ {ls' : List Text} {start' : Int}, headerExists ls' start' = .ok true →
      ∀ name' text', addHeader ls' name' start' text' = .ok ls' := by
    intro ls' start' hexists name' text'
    rw [addHeader, hexists]
    rfl
  obtain ⟨found, hfound⟩ := headerExists_returns hle
  cases found with
  | true => exact ⟨ls, hagain hfound name text, start, by omega, rfl, .inl rfl, hfound, hagain hfound⟩
  | false =>
    have htexts : ∀ t ∈ headerTexts name text, endsFunction t = false := by
      cases text with
      | none => exact fun t ht => endsFunction_placeholder hname ht
      | some t => exact htext t rfl
    have hexists := @headerExists_headedPart ls start _ htexts (ls.drop start)
    refine ⟨_, addHeader_of_none hle hfound, _, (start_behind hle).symm, ?_, .inr ⟨openingLine, by decide, ?_⟩, hexists, hagain hexists⟩
    · simp only [itemsFrom, cutPoint, Int.natCast_nonneg, if_true, Int.toNat_natCast]
      exact List.drop_left
    · rw [headedPart_eq, List.append_assoc, List.prefix_append_right_inj]
      exact ⟨_, rfl⟩

/-- A function below some blank lines, without a header. -/
def apartLines : List Text := ["int x;", "", " ", "", "", "", "", "int f() \x7b", "\x7d"]

/-- A text with an empty line, and with closing braces that are not at the end of a line. -/
def bracedText : Text := "Sets x.\n\n\x7d; and \x7d/* stay"

/-- The function of `apartLines` gets a header with `bracedText`, and it moves up since blank lines give way. -/
theorem apart_establishes :
    headerExists apartLines 7 = .ok false ∧
      ∃ ls', addHeader apartLines "f" 7 (some bracedText) = .ok ls' ∧ ls'.length = 11 ∧ headerExists ls' 9 = .ok true ∧
        addHeader ls' "f" 9 none = .ok ls' := by
  obtain ⟨ls', hadded, start', hstart, -, -, hexists, hagain⟩ :=
    @addHeader_establishes apartLines "f" 7 (some bracedText) (by decide) (by decide) (by decide)
  have hlen : ls'.length = 11 := by
    have hresult : (addHeader apartLines "f" 7 (some bracedText)).map List.length = .ok 11 := by decide
    rw [show ((7 : Nat) : Int) = 7 from rfl] at hadded
    rw [hadded] at hresult
    exact Except.ok.inj hresult
  obtain rfl : start' = 9 := by rw [hstart, hlen]; rfl
  exact ⟨by decide, ls', hadded, hlen, hexists, hagain _ _⟩

/-! ## The header is taken away -/

/-- The text holds no mark of a block comment. -/
@[mk_iff]
structure Unmarked (t : Text) : Prop where
  opening : contains t "/*" = false
  closing : contains t "*/" = false

instance (t : Text) : Decidable (Unmarked t) := decidable_of_iff _ (unmarked_iff ..).symm

lemma Unmarked.of_infix (h : Unmarked t) (hu : u <:+: t) : Unmarked u := by
  obtain ⟨hopening, hclosing⟩ := h
  rw [contains_eq_false_iff] at hopening hclosing
  exact ⟨contains_eq_false_iff.mpr fun hin => hopening (hin.trans hu), contains_eq_false_iff.mpr fun hin => hclosing (hin.trans hu)⟩

lemma Unmarked.append (ht : Unmarked t) (hu : Unmarked u) : Unmarked (t ++ ' ' :: u) := by
  have hmark : ∀ mark : Text, ' ' ∉ mark → contains t mark = false → contains u mark = false → contains (t ++ ' ' :: u) mark = false := by
    intro mark hblank ht hu
    rw [contains_eq_false_iff] at ht hu ⊢
    exact fun hin => (DocBlock.infix_append_cons_iff hblank).mp hin |>.elim ht hu
  exact ⟨hmark _ (by decide) ht.opening hu.opening, hmark _ (by decide) ht.closing hu.closing⟩

lemma unmarked_placeholder (h : Unmarked name) : Unmarked (placeholderText name) :=
  h.append (u := "-->> TODO: Add your description here") (by decide)

lemma removed_framed {mid : List Text} {first last : Text} (hfirst : contains first "/*") (hmid : ∀ l ∈ mid, Unmarked l)
    (hlast : contains last "*/") (hopen : contains last "/*" = false) (below : List Text) :
    Removed (above ++ first :: (mid ++ last :: below)) (above.length + mid.length + 2) above.length (above.length + mid.length + 1) := by
  have hbehind : ∀ i l, above.length < i → i < above.length + mid.length + 1 →
      (above ++ first :: (mid ++ last :: below))[i]? = some l → Unmarked l := by
    intro i l hlow hhigh hl
    rw [getElem?_append_right (by omega), show i - above.length = i - above.length - 1 + 1 by omega, getElem?_cons_succ,
      getElem?_append_left (by omega)] at hl
    exact hmid l (mem_of_getElem? hl)
  have hend : (above ++ first :: (mid ++ last :: below))[above.length + mid.length + 1]? = some last := by
    rw [getElem?_append_right (by omega), show above.length + mid.length + 1 - above.length = mid.length + 1 by omega,
      getElem?_cons_succ, getElem?_append_right (Nat.le_refl _), Nat.sub_self]
    rfl
  refine ⟨⟨by omega, ⟨first, ?_, hfirst⟩, fun i l hlow hhigh hl => ?_⟩,
    ⟨by omega, ⟨last, hend, hlast⟩, fun i l hlow hhigh hl => (hbehind i l (by omega) hhigh hl).closing⟩⟩
  · rw [getElem?_append_right (le_refl _), Nat.sub_self]
    rfl
  · rcases lt_or_ge i (above.length + mid.length + 1) with hlt | hge
    · exact (hbehind i l hlow hlt hl).opening
    · obtain rfl : i = above.length + mid.length + 1 := by omega
      cases hend.symm.trans hl
      exact hopen

lemma removeHeader_framed {mid : List Text} {first last : Text} (hfirst : contains first "/*") (hmid : ∀ l ∈ mid, Unmarked l)
    (hlast : contains last "*/") (hopen : contains last "/*" = false) (below : List Text) :
    removeHeader (above ++ first :: (mid ++ last :: below)) ((above.length + mid.length + 2 : Nat) : Int) = .ok (above ++ below) := by
  have hremoved := @removed_framed above mid first last hfirst hmid hlast hopen below
  have hdrop : (above ++ first :: (mid ++ last :: below)).drop (above.length + mid.length + 1 + 1) = below := by
    have hshape : above ++ first :: (mid ++ last :: below) = (above ++ first :: (mid ++ [last])) ++ below := by simp
    rw [hshape]
    refine drop_left' ?_
    simp only [length_append, length_cons, length_nil]
    omega
  rcases @removeHeader_spec (above ++ first :: (mid ++ last :: below)) (above.length + mid.length + 2) (by omega) (by simp; omega) with
    ⟨upper, lower, hfound, hresult⟩ | ⟨hnone, -⟩
  · obtain ⟨rfl, rfl⟩ := hremoved.unique hfound
    rw [hresult, take_left, hdrop]
  · exact absurd hremoved (hnone _ _)

/-- Taking away the header that was put above a function without one leaves the lines as they were, but for the blank lines above the
function, of which there are two. -/
theorem removeHeader_addHeader {ls : List Text} {name : Text} {start : Nat} {text : Option Text} (hle : start ≤ ls.length)
    (hnone : headerExists ls start = .ok false) (hname : Unmarked name) (htext : ∀ t ∈ text, Unmarked t) :
    ∃ ls' : List Text, addHeader ls name start text = .ok ls' ∧
      removeHeader ls' (start + ls'.length - ls.length) = .ok (dropBlankTail (ls.take start) ++ [[], []] ++ ls.drop start) := by
  have hwhole : Unmarked (text.getD (placeholderText name)) := by
    cases text with
    | none => exact unmarked_placeholder hname
    | some t => exact htext t rfl
  have hmid : ∀ l ∈ inner ((headerTexts name text).map fun t => " * ".toList ++ t), Unmarked l := by
    intro l hl
    rcases List.mem_append.mp hl with hl | hl
    · obtain ⟨t, ht, rfl⟩ := List.mem_map.mp hl
      exact Unmarked.append (t := " *") (by decide) (hwhole.of_infix (infix_of_mem_lines ht))
    · rw [List.mem_singleton.mp hl]
      decide
  refine ⟨_, addHeader_of_none hle hnone, ?_⟩
  rw [start_behind hle, headedPart, framed_eq]
  generalize inner ((headerTexts name text).map fun t => " * ".toList ++ t) = mid at hmid ⊢
  have hremove := @removeHeader_framed (withGap (ls.take start)) mid openingLine "*/" (by decide) hmid (by decide) (by decide) (ls.drop start)
  have hlen : (withGap (ls.take start) ++ (openingLine :: mid ++ ["*/".toList])).length = (withGap (ls.take start)).length + mid.length + 2 := by
    simp
    omega
  rw [hlen, List.append_assoc, List.cons_append, List.cons_append, List.append_assoc]
  exact hremove

def crowdedLines : List Text := ["/* first */ int g();", "\x7d /* g() */", "", "int f() \x7b", "\x7d /* f() */"]

/-- A header is put above the function of `crowdedLines` and taken away again: one more empty line is left, and no other comment is
touched. -/
theorem crowded_removed :
    headerExists crowdedLines 3 = .ok false ∧
      ∃ ls', addHeader crowdedLines "f" 3 (some "* see /a/ *\n/ end") = .ok ls' ∧
        removeHeader ls' (3 + ls'.length - 5) =
          .ok ["/* first */ int g();", "\x7d /* g() */", "", "", "int f() \x7b", "\x7d /* f() */"] := by
  have hnone : headerExists crowdedLines 3 = .ok false := by decide
  obtain ⟨ls', hadded, hremoved⟩ := @removeHeader_addHeader crowdedLines "f" 3 (some "* see /a/ *\n/ end") (by decide) hnone
    (by decide) (by decide)
  exact ⟨hnone, ls', hadded, hremoved⟩

end FunctionDocs.Header
