import FunctionDocs.Source.Locate
import Mathlib.Data.List.Infix

/-!
# Matching braces

The line on which a function ends is looked for by counting braces at the ends of lines. Where no brace is closed that was not opened,
the count at the end of a line tells as much as a count at every brace: the search ends on the line on which the first opening
brace is closed, if all braces are closed at the end of this line, and it ends nowhere if the first opening brace stays open.
-/

open List

namespace FunctionDocs.Source

variable {depth : Int} {above code ls : List Text} {start : Nat} {line t : Text}

/-! ## Balances -/

@[simp] lemma braceBalance_nil : braceBalance [] = 0 := rfl

lemma braceBalance_append (t u : Text) : braceBalance (t ++ u) = braceBalance t + braceBalance u := by
  simp only [braceBalance, count_append, Int.ofNat_eq_natCast]
  omega

lemma braceBalance_cons (c : Char) (t : Text) : braceBalance (c :: t) = braceBalance [c] + braceBalance t :=
  braceBalance_append [c] t

lemma braceBalance_of_not_mem (h : '{' ∉ t) : braceBalance t = -(t.count '}' : Int) := by
  simp [braceBalance, count_eq_zero.mpr h]

/-- No brace is closed that was not opened before, at any place of the text. -/
def NeverNegative (t : Text) : Prop := ∀ p ∈ t.inits, 0 ≤ braceBalance p
  deriving Decidable

lemma NeverNegative.of_prefix {p : Text} (h : NeverNegative t) (hp : p <+: t) : 0 ≤ braceBalance p :=
  h p (mem_inits p t |>.mpr hp)

/-- Every brace of the text has its partner in the text. -/
def Balanced (t : Text) : Prop := braceBalance t = 0 ∧ NeverNegative t
  deriving Decidable

lemma exists_closing {depth : Nat} {t : Text} (h : (depth : Int) + braceBalance t < 0) :
    ∃ p r, t = p ++ '}' :: r ∧ (depth : Int) + braceBalance p = 0 ∧ ∀ q, q <+: p → 0 ≤ (depth : Int) + braceBalance q := by
  induction t generalizing depth with
  | nil =>
    rw [braceBalance_nil] at h
    omega
  | cons c t ih =>
    rw [braceBalance_cons] at h
    -- the depth behind the first character, unless this character is the closing brace
    have hstep : ∀ depth' : Nat, (depth' : Int) = depth + braceBalance [c] →
        ∃ p r, c :: t = p ++ '}' :: r ∧ (depth : Int) + braceBalance p = 0 ∧ ∀ q, q <+: p → 0 ≤ (depth : Int) + braceBalance q := by
      intro depth' hdepth
      obtain ⟨p, r, rfl, hzero, hpos⟩ := @ih depth' (by omega)
      refine ⟨c :: p, r, rfl, by rw [braceBalance_cons]; omega, fun q hq => ?_⟩
      cases q with
      | nil => rw [braceBalance_nil]; omega
      | cons d q =>
        obtain ⟨rfl, hqp⟩ := cons_prefix_cons.mp hq
        have := hpos q hqp
        rw [braceBalance_cons]
        omega
    by_cases hclose : c = '}'
    · subst hclose
      have hone : braceBalance ['}'] = -1 := rfl
      cases depth with
      | zero => exact ⟨[], t, rfl, rfl, fun q hq => by rw [prefix_nil.mp hq]; exact Int.le_refl 0⟩
      | succ depth => exact hstep depth (by rw [hone]; omega)
    · have hnone : braceBalance [c] = (count '{' [c] : Int) := by
        simp [braceBalance, hclose]
      exact hstep (depth + count '{' [c]) (by rw [hnone]; omega)

/-! ## The search line by line -/

/-- How many lines further on the search ends, if `depth` braces are open before the lines. -/
def endIn (depth : Int) : List Text → Option Nat
  | [] => none
  | l :: ls =>
    if depth + braceBalance l = 0 && List.elem '}' l then some 0
    else (endIn (depth + braceBalance l) ls).map (· + 1)

lemma length_codeLinesFrom (inBlock : Bool) (ls : List Text) : (codeLinesFrom inBlock ls).length = ls.length := by
  induction ls generalizing inBlock with
  | nil => rfl
  | cons l ls ih => rw [codeLinesFrom, length_cons, length_cons, ih]

lemma endFrom_eq (h : start ≤ code.length) :
    endFrom code depth (integersFrom start code.length) =
      .ok ((endIn depth (code.drop start)).map fun k => ((start + k : Nat) : Int)) := by
  generalize hrest : code.drop start = rest
  induction rest generalizing depth start with
  | nil =>
    have hend : start = code.length := le_antisymm h (drop_eq_nil_iff.mp hrest)
    subst hend
    simp [integersFrom, endFrom, endIn]
  | cons l rest ih =>
    have hlt : start < code.length := by
      by_contra hge
      rw [drop_eq_nil_of_le (by omega)] at hrest
      cases hrest
    have hdrop : code.drop start = code[start] :: code.drop (start + 1) := drop_eq_getElem_cons hlt
    rw [hrest] at hdrop
    obtain ⟨rfl, hnext⟩ := cons.inj hdrop
    have hitem : itemAt? code (start : Int) = some code[start] := by
      rw [itemAt?, if_pos (by omega), Int.toNat_natCast, getElem?_eq_getElem hlt]
    rw [integersFrom_cons (by omega), endFrom, hitem, endIn]
    dsimp only
    split
    · rfl
    · have hrest := @ih (depth + braceBalance code[start]) (start + 1) (by omega) hnext.symm
      rw [show ((start : Int) + 1) = ((start + 1 : Nat) : Int) by omega, hrest, Option.map_map]
      congr 2
      funext k
      simp only [Function.comp_apply]
      omega

lemma endLine_eq (h : start ≤ ls.length) :
    endLine ls start = .ok ((endIn 0 ((codeLines ls).drop start)).map fun k => ((start + k : Nat) : Int)) := by
  have hlen : (codeLines ls).length = ls.length := length_codeLinesFrom false ls
  rw [endLine, ← hlen, endFrom_eq (by omega)]

lemma endIn_lt {k : Nat} (h : endIn depth ls = some k) : k < ls.length := by
  induction ls generalizing depth k with
  | nil => cases h
  | cons l ls ih =>
    rw [endIn] at h
    split at h
    · cases h
      exact Nat.succ_pos _
    · obtain ⟨j, hj, rfl⟩ := Option.map_eq_some_iff.mp h
      exact Nat.succ_lt_succ (ih hj)

lemma endLine_cases (h : start ≤ ls.length) :
    endLine ls start = .ok none ∨ ∃ k, start ≤ k ∧ k < ls.length ∧ endLine ls start = .ok (some (k : Int)) := by
  have hlen : (codeLines ls).length = ls.length := length_codeLinesFrom false ls
  rw [endLine_eq h]
  cases hend : endIn 0 ((codeLines ls).drop start) with
  | none => exact .inl rfl
  | some k =>
    have hlt := endIn_lt hend
    rw [length_drop] at hlt
    exact .inr ⟨start + k, by omega, by omega, rfl⟩

/-- The search can end on a line: a brace is closed on it, and at its end none is open. -/
def EndsOn (depth : Int) (above : List Text) (line : Text) : Prop :=
  '}' ∈ line ∧ depth + braceBalance (above.flatten ++ line) = 0

lemma EndsOn.opened (h : EndsOn 0 above line) : '{' ∈ above.flatten ++ line := by
  by_contra hno
  have hzero := h.2
  have hcount : 0 < (above.flatten ++ line).count '}' := count_pos_iff.mpr (mem_append_right _ h.1)
  rw [braceBalance_of_not_mem hno] at hzero
  omega

lemma endsOn_cons {l : Text} : EndsOn depth (l :: above) line ↔ EndsOn (depth + braceBalance l) above line := by
  rw [EndsOn, EndsOn, flatten_cons, append_assoc, braceBalance_append, Int.add_assoc]

lemma endIn_eq_some (below : List Text) (hhere : EndsOn depth above line)
    (hnone : ∀ a l b, above = a ++ l :: b → ¬EndsOn depth a l) : endIn depth (above ++ line :: below) = some above.length := by
  induction above generalizing depth with
  | nil =>
    rw [nil_append, endIn, if_pos]
    · rfl
    · simpa [EndsOn, and_comm] using hhere
  | cons l above ih =>
    have hfirst : ¬EndsOn depth [] l := hnone [] l above rfl
    rw [cons_append, endIn, if_neg, ih]
    · rfl
    · exact endsOn_cons.mp hhere
    · rintro a l' b rfl hends
      exact hnone (l :: a) l' b rfl (endsOn_cons.mpr hends)
    · simpa [EndsOn, and_comm] using hfirst

lemma endIn_eq_none (hnone : ∀ a l b, ls = a ++ l :: b → ¬EndsOn depth a l) : endIn depth ls = none := by
  induction ls generalizing depth with
  | nil => rfl
  | cons l ls ih =>
    have hfirst : ¬EndsOn depth [] l := hnone [] l ls rfl
    rw [endIn, if_neg, ih]
    · rfl
    · rintro a l' b rfl hends
      exact hnone (l :: a) l' b rfl (endsOn_cons.mpr hends)
    · simpa [EndsOn, and_comm] using hfirst

/-! ## The first opening brace -/

lemma exists_line {r : Text} {c : Char} (h : ls.flatten = t ++ c :: r) :
    ∃ above line below u v, ls = above ++ line :: below ∧ line = u ++ c :: v ∧ above.flatten ++ u = t := by
  rcases flatten_eq_append_iff.mp h with ⟨as, bs, rfl, rfl, hbs⟩ | ⟨as, bs, d, cs, ds, rfl, rfl, hd⟩
  · obtain ⟨es, v, ds, rfl, hempty, -⟩ := flatten_eq_cons_iff.mp hbs.symm
    refine ⟨as ++ es, c :: v, ds, [], v, by rw [append_assoc], rfl, ?_⟩
    rw [flatten_append, flatten_eq_nil_iff.mpr hempty, append_nil, append_nil]
  · obtain ⟨rfl, -⟩ := cons.inj hd
    exact ⟨as, bs ++ c :: cs, ds, bs, cs, rfl, rfl, rfl⟩

/-- The first opening brace from a line on is closed by a brace on line `e`: what stands between the two is balanced. -/
def FirstClosedOn (code : List Text) (start e : Nat) : Prop :=
  ∃ above line below, code.drop start = above ++ line :: below ∧ e = start + above.length ∧
    ∃ u v, line = u ++ '}' :: v ∧ ∃ a c, above.flatten ++ u = a ++ '{' :: c ∧ '{' ∉ a ∧ Balanced c

lemma not_endsOn_open {a c : Text} (hnever : NeverNegative (a ++ '{' :: c)) (ha : '{' ∉ a)
    (hc : NeverNegative c) (hinit : above.flatten ++ line <+: a ++ '{' :: c) : ¬EndsOn 0 above line := by
  intro hends
  have hzero := hends.2
  have habove : ¬above.flatten ++ line <+: a := fun hp => ha (hp.subset hends.opened)
  rcases prefix_or_prefix_of_prefix hinit (prefix_append a _) with hp | ⟨p, hp⟩
  · exact habove hp
  · rw [← hp, prefix_append_right_inj] at hinit
    cases p with
    | nil => exact habove (by rw [← hp, append_nil])
    | cons d p =>
      obtain ⟨rfl, hpc⟩ := cons_prefix_cons.mp hinit
      have hbefore : 0 ≤ braceBalance a := hnever.of_prefix (prefix_append a _)
      have hinside : 0 ≤ braceBalance p := hc.of_prefix hpc
      have hone : braceBalance ['{'] = 1 := rfl
      rw [← hp, braceBalance_append, braceBalance_cons] at hzero
      omega

lemma firstClosedOn_of_endsOn {below : List Text}
    (hnever : NeverNegative (code.drop start).flatten) (hdrop : code.drop start = above ++ line :: below)
    (hends : EndsOn 0 above line) : ∃ e, FirstClosedOn code start e := by
  have hzero := hends.2
  obtain ⟨a, c, hsplit, ha⟩ := eq_append_cons_of_mem hends.opened
  have hwhole : (code.drop start).flatten = a ++ '{' :: (c ++ below.flatten) := by
    rw [hdrop, flatten_append, flatten_cons, ← append_assoc, hsplit, append_assoc, cons_append]
  have hbefore : braceBalance a = 0 := by
    have hle : 0 ≤ braceBalance a := hnever.of_prefix (by rw [hwhole]; exact prefix_append a _)
    rw [braceBalance_of_not_mem ha] at hle ⊢
    omega
  -- one brace more is closed than opened behind the first opening brace
  obtain ⟨p, r, rfl, hbalance, hpos⟩ := @exists_closing 0 c (by
    have hone : braceBalance ['{'] = 1 := rfl
    rw [hsplit, braceBalance_append, braceBalance_cons] at hzero
    omega)
  have hflatten : (code.drop start).flatten = (a ++ '{' :: p) ++ '}' :: (r ++ below.flatten) := by
    rw [hwhole]
    simp
  obtain ⟨above', line', below', u, v, hlines, hline, hu⟩ := exists_line hflatten
  refine ⟨start + above'.length, above', line', below', hlines, rfl, u, v, hline, a, p, hu, ha, by omega, fun q hq => ?_⟩
  have := hpos q ((mem_inits q p).mp hq)
  omega

lemma not_firstClosedOn
    (h : ∀ p ∈ ((code.drop start).flatten).inits, '{' ∈ p → 0 < braceBalance p) (e : Nat) : ¬FirstClosedOn code start e := by
  rintro ⟨above, line, below, hdrop, -, u, v, rfl, a, c, hu, ha, hc, -⟩
  have hinit : a ++ '{' :: c ++ ['}'] <+: (code.drop start).flatten := by
    rw [hdrop, ← hu]
    simp
  have hpos := h _ ((mem_inits _ _).mpr hinit) (by simp)
  have hone : braceBalance ['{'] = 1 ∧ braceBalance ['}'] = -1 := ⟨rfl, rfl⟩
  rw [braceBalance_append, braceBalance_append, braceBalance_cons, braceBalance_of_not_mem ha] at hpos
  omega

/-- Where no brace is closed that was not opened, a function ends on the line on which its first opening brace is closed, if no brace
is open at the end of this line; and it has no end if no opening brace is found or the first one is never closed. -/
theorem endLine_matches {ls : List Text} {start : Nat} (hstart : start ≤ ls.length)
    (hnever : NeverNegative ((codeLines ls).drop start).flatten) :
    (∀ e, FirstClosedOn (codeLines ls) start e → braceBalance (((codeLines ls).drop start).take (e + 1 - start)).flatten = 0 →
      endLine ls start = .ok (some e)) ∧
    ((∀ e, ¬FirstClosedOn (codeLines ls) start e) → endLine ls start = .ok none) := by
  constructor
  · rintro e ⟨above, line, below, hdrop, rfl, u, v, rfl, a, c, hu, ha, -, hc⟩ hzero
    have htake : ((codeLines ls).drop start).take (start + above.length + 1 - start) = above ++ [u ++ '}' :: v] := by
      rw [hdrop, show start + above.length + 1 - start = above.length + 1 by omega, List.take_append]
      simp
    have hhere : EndsOn 0 above (u ++ '}' :: v) := by
      rw [htake, List.flatten_append, List.flatten_singleton] at hzero
      exact ⟨by simp, by omega⟩
    have hopen : NeverNegative (a ++ '{' :: c) := by
      intro p hp
      refine hnever.of_prefix (((List.mem_inits p _).mp hp).trans ?_)
      rw [← hu, hdrop]
      simp
    rw [endLine_eq hstart, hdrop, endIn_eq_some below hhere]
    · rfl
    · rintro x l y rfl
      refine not_endsOn_open hopen ha hc ?_
      rw [← hu]
      simp
  · intro hnone
    rw [endLine_eq hstart, endIn_eq_none]
    · rfl
    · intro a l b hdrop hends
      obtain ⟨e, he⟩ := firstClosedOn_of_endsOn hnever hdrop hends
      exact hnone e he

/-- A function with braces in a literal and in a comment, and one with a brace that stays open. -/
def twoBodies : List Text :=
  ["int f() \x7b", "  g(\"\x7d\"); // \x7d", "  if (x) \x7b y(); \x7d", "\x7d", "int h() \x7b", "  for (;;) \x7b", "\x7d"]

/-- The first function of `twoBodies` ends on line 3 and the second one has no end. -/
theorem twoBodies_ends :
    FirstClosedOn (codeLines twoBodies) 0 3 ∧ endLine twoBodies 0 = .ok (some 3) ∧ endLine twoBodies 4 = .ok none := by
  have hclosed : FirstClosedOn (codeLines twoBodies) 0 3 :=
    ⟨(codeLines twoBodies).take 3, ['}'], (codeLines twoBodies).drop 4, by decide, rfl, [], [], rfl,
      "int f() ".toList, "  g(\"\");   if (x) \x7b y(); \x7d".toList, by decide⟩
  have hfirst := (@endLine_matches twoBodies 0 (by decide) (by decide)).1 3 hclosed (by decide)
  have hsecond := (@endLine_matches twoBodies 4 (by decide) (by decide)).2
  exact ⟨hclosed, hfirst, hsecond (not_firstClosedOn (by decide))⟩

end FunctionDocs.Source
