import FunctionDocs.Source.Block
import Mathlib.Data.List.Forall2

/-!
# Block comments on joined lines

Where a block comment is found after lines were joined. The joined lines are in the order of the lines they start on, so those
that start on a line or above it come first, and the line belongs to the last of them.
-/

open List

namespace FunctionDocs.Source

variable {starts rest : List Int} {b : Block} {count s x y : Int} {i k : Nat} {found : Option Nat}

/-- How many joined lines start on a line or above it. -/
def startedBy (starts : List Int) (x : Int) : Nat := starts.countP (· ≤ x)

lemma startedBy_cons : startedBy (s :: rest) x = startedBy rest x + if s ≤ x then 1 else 0 := by
  simp [startedBy, countP_cons]

lemma startedBy_append (ss ts : List Int) (x : Int) : startedBy (ss ++ ts) x = startedBy ss x + startedBy ts x := countP_append

lemma startedBy_eq_zero_iff : startedBy starts x = 0 ↔ ∀ s ∈ starts, x < s := by simp [startedBy]

lemma startedBy_eq_length (h : ∀ s ∈ starts, s ≤ x) : startedBy starts x = starts.length :=
  countP_eq_length.mpr fun s hs => decide_eq_true (h s hs)

lemma startedBy_le (h : x ≤ y) : startedBy starts x ≤ startedBy starts y :=
  countP_mono_left fun _ _ hs => decide_eq_true (Int.le_trans (of_decide_eq_true hs) h)

/-- A joined line starts on a line or above it exactly if it is one of the first ones, as many as do so. -/
lemma le_iff_lt_startedBy (hsorted : starts.Pairwise (· ≤ ·)) (hs : starts[i]? = some s) : s ≤ x ↔ i < startedBy starts x := by
  induction starts generalizing i with
  | nil => cases hs
  | cons a rest ih =>
    obtain ⟨ha, hrest⟩ := pairwise_cons.mp hsorted
    have hnone : x < a → startedBy rest x = 0 := fun hx => startedBy_eq_zero_iff.mpr fun t ht => Int.lt_of_lt_of_le hx (ha t ht)
    rw [startedBy_cons]
    cases i with
    | zero =>
      cases hs
      split <;> omega
    | succ i =>
      have hlater := ih hrest hs
      split <;> omega

/-- The joined line that a line belongs to, of those from joined line `k` on; `found` if all of them start below it. -/
def foundFrom (k : Nat) (starts : List Int) (x : Int) (found : Option Nat) : Option Nat :=
  if startedBy starts x = 0 then found else some (k + startedBy starts x - 1)

/-- Line `x` is found on the joined line `k` if it lies between the first lines of this one and of the next. -/
def place (s next x : Int) (k : Nat) (found : Option Nat) : Option Nat := if s ≤ x && x < next then some k else found

lemma locateBlock_cons (count : Int) (b : Block) (k : Nat) (first last : Option Nat) (s : Int) (ss : List Int) :
    locateBlock count b k first last (s :: ss) =
      if (place s (ss.headD count) b.first k first).isSome && (place s (ss.headD count) b.last k last).isSome then
        (place s (ss.headD count) b.first k first, place s (ss.headD count) b.last k last)
      else locateBlock count b (k + 1) (place s (ss.headD count) b.first k first) (place s (ss.headD count) b.last k last) ss :=
  rfl

/-- One step of the search: a line that lies between two starts is found, and is not found again. -/
lemma foundFrom_cons (hsorted : (s :: rest).Pairwise (· ≤ ·)) (hx : x < count)
    (hfound : found.isSome → startedBy (s :: rest) x = 0) :
    foundFrom k (s :: rest) x found = foundFrom (k + 1) rest x (place s (rest.headD count) x k found) ∧
      ((place s (rest.headD count) x k found).isSome → startedBy rest x = 0) := by
  obtain ⟨hs, hrest⟩ := pairwise_cons.mp hsorted
  have hnone : x < s → startedBy rest x = 0 := fun hx => startedBy_eq_zero_iff.mpr fun t ht => Int.lt_of_lt_of_le hx (hs t ht)
  have hnext : x < rest.headD count ↔ startedBy rest x = 0 := by
    cases rest with
    | nil => simpa [startedBy] using hx
    | cons t rest =>
      have hhead := @le_iff_lt_startedBy _ t x 0 hrest rfl
      rw [headD_cons]
      omega
  rw [startedBy_cons] at hfound
  simp only [foundFrom, place, startedBy_cons]
  grind

lemma locateBlock_eq {first last : Option Nat} (hsorted : starts.Pairwise (· ≤ ·)) (hle : b.first ≤ b.last) (hlt : b.last < count)
    (hfirst : first.isSome → startedBy starts b.first = 0) (hlast : last.isSome → startedBy starts b.last = 0) :
    locateBlock count b k first last starts = (foundFrom k starts b.first first, foundFrom k starts b.last last) := by
  induction starts generalizing k first last with
  | nil => rfl
  | cons s rest ih =>
    obtain ⟨hfound, hfirst⟩ := foundFrom_cons hsorted (Int.lt_of_le_of_lt hle hlt) hfirst
    obtain ⟨hfound', hlast⟩ := foundFrom_cons hsorted hlt hlast
    rw [locateBlock_cons, hfound, hfound']
    split
    next hboth =>
      obtain ⟨hsome, hsome'⟩ := Bool.and_eq_true_iff.mp hboth
      rw [foundFrom, foundFrom, if_pos (hfirst hsome), if_pos (hlast hsome')]
    · exact ih (pairwise_cons.mp hsorted).2 hfirst hlast

/-- A block takes the joined lines from the last one that starts at its first line or above to the last one that starts at its last
line or above. -/
lemma onJoined_eq (hsorted : starts.Pairwise (· ≤ ·)) (hle : b.first ≤ b.last) (hlt : b.last < count) :
    b.onJoined count starts = ⟨(startedBy starts b.first - 1 : Nat), (startedBy starts b.last - 1 : Nat), b.text⟩ := by
  have hmono := @startedBy_le starts _ _ hle
  rw [Block.onJoined, locateBlock_eq hsorted hle hlt (by simp) (by simp)]
  simp only [foundFrom]
  grind

/-- The last of the joined lines that start on a line or above it. -/
def LastStart (starts : List Int) (x : Int) (i : Nat) : Prop :=
  (∃ s, starts[i]? = some s ∧ s ≤ x) ∧ ∀ j s, i < j → starts[j]? = some s → x < s

lemma lastStart_startedBy (hsorted : starts.Pairwise (· ≤ ·)) (x : Int) :
    LastStart starts x (startedBy starts x - 1) ∨ (∀ s ∈ starts, x < s) ∧ startedBy starts x = 0 := by
  by_cases hnone : startedBy starts x = 0
  · exact .inr ⟨startedBy_eq_zero_iff.mp hnone, hnone⟩
  · have hlt : startedBy starts x - 1 < starts.length := by
      have := @countP_le_length _ (fun s => decide (s ≤ x)) starts
      rw [startedBy] at hnone ⊢
      omega
    refine .inl ⟨⟨_, getElem?_eq_getElem hlt, ?_⟩, fun j s hj hs => ?_⟩
    · exact (le_iff_lt_startedBy hsorted (getElem?_eq_getElem hlt)).mpr (by omega)
    · have := @le_iff_lt_startedBy _ _ x _ hsorted hs
      omega

/-- A block and its place on the joined lines: from the last one that starts on its first line or above, or the first one of all, to
the last one that starts on its last line or above, or the same one again. -/
def Reindexed (starts : List Int) (b c : Block) : Prop :=
  ∃ first last : Nat, c = ⟨first, last, b.text⟩ ∧ first ≤ last ∧
    (LastStart starts b.first first ∨ (∀ s ∈ starts, b.first < s) ∧ first = 0) ∧
    (LastStart starts b.last last ∨ (∀ s ∈ starts, b.last < s) ∧ last = first)

/-- Blocks are found on the joined lines that their first and last lines belong to. So a joined line that starts within a block
behind its first line is in it, and one that starts below it is not, unless it is the first of all. -/
theorem blocksOnJoined_reindexed {bs : List Block} (hsorted : starts.Pairwise (· ≤ ·))
    (hbs : ∀ b ∈ bs, b.first ≤ b.last ∧ b.last < count) :
    List.Forall₂ (fun b c => Reindexed starts b c ∧ ∀ (i : Nat) s, starts[i]? = some s →
      (b.first < s → s ≤ b.last → inBlocks i [c]) ∧ (b.last < s → inBlocks i [c] → i = 0)) bs (blocksOnJoined count starts bs) := by
  rw [blocksOnJoined, forall₂_map_right_iff, forall₂_same]
  intro b hb
  obtain ⟨hle, hlt⟩ := hbs b hb
  have hmono := @startedBy_le starts _ _ hle
  rw [onJoined_eq hsorted hle hlt]
  refine ⟨⟨_, _, rfl, by omega, ?_, ?_⟩, fun i s hs => ?_⟩
  · exact (lastStart_startedBy hsorted b.first).imp_right fun h => ⟨h.1, by omega⟩
  · exact (lastStart_startedBy hsorted b.last).imp_right fun h => ⟨h.1, by omega⟩
  · have hfirst := @le_iff_lt_startedBy _ _ b.first _ hsorted hs
    have hlast := @le_iff_lt_startedBy _ _ b.last _ hsorted hs
    simp only [inBlocks, any_cons, any_nil, Bool.or_false, Bool.and_eq_true, decide_eq_true_eq]
    omega

/-- Of two blocks on lines of which none starts on the first, one lies within a line and the other one above all lines. -/
theorem blocksOnJoined_twoBlocks :
    blocksOnJoined 7 [1, 1, 3, 5] [⟨2, 4, "c"⟩, ⟨0, 0, "d"⟩] = [⟨1, 2, "c"⟩, ⟨0, 0, "d"⟩] ∧
      List.Forall₂ (Reindexed [1, 1, 3, 5]) [⟨2, 4, "c"⟩, ⟨0, 0, "d"⟩] [⟨1, 2, "c"⟩, ⟨0, 0, "d"⟩] := by
  have heq : blocksOnJoined 7 [1, 1, 3, 5] [⟨2, 4, "c"⟩, ⟨0, 0, "d"⟩] = [⟨1, 2, "c"⟩, ⟨0, 0, "d"⟩] := by decide
  exact ⟨heq, heq ▸ (blocksOnJoined_reindexed (by decide) (by decide)).imp fun _ _ h => h.1⟩

end FunctionDocs.Source
