import FunctionDocs.Proofs.Text
import FunctionDocs.Source.Block

/-!
# Where block comments begin and end

The blocks of some lines, read off the lines themselves. Lines begin with one that opens no block, or with a block from an opening
line to the first one that closes, or with a block that no line closes. So blocks follow one another, each ends on the first
line that can end it, and no opening line is left out unless nothing closes it.
-/

open List

namespace FunctionDocs.Source

open Text

/-! ## The scan -/

def blockWith (i : Nat) (l : Text) (pending : OpenBlock) : OpenBlock :=
  match pending with
  | some (first, body) => some (first, l :: body)
  | none => if startsWith (trim l) "/*" then some (i, [l]) else none

lemma blocksFrom_cons (i : Nat) (pending : OpenBlock) (l : Text) (ls : List Text) :
    blocksFrom i pending (l :: ls) =
      match blockWith i l pending with
      | some b =>
        if endsWith (trim l) "*/" then ⟨b.1, i, unlines b.2.reverse⟩ :: blocksFrom (i + 1) none ls
        else blocksFrom (i + 1) (some b) ls
      | none => blocksFrom (i + 1) none ls := by
  cases pending with
  | some p => rfl
  | none =>
    rw [blocksFrom, blockWith]
    cases startsWith (trim l) "/*" <;> rfl

def Block.move (n : Nat) (b : Block) : Block := ⟨b.first + n, b.last + n, b.text⟩

lemma Block.move_comp (m n : Nat) : move m ∘ move n = move (n + m) := by
  funext b
  simp [move, Int.add_assoc]

lemma Block.move_zero : move 0 = id := by
  funext b
  simp [move]

lemma blocksFrom_move (n : Nat) (ls : List Text) (i : Nat) (pending : OpenBlock) :
    blocksFrom (i + n) (pending.map fun p => (p.1 + n, p.2)) ls = (blocksFrom i pending ls).map (.move n) := by
  induction ls generalizing i pending with
  | nil => rfl
  | cons l ls ih =>
    have hnext : i + n + 1 = i + 1 + n := by omega
    have hwith : blockWith (i + n) l (pending.map fun p => (p.1 + n, p.2)) =
        (blockWith i l pending).map fun p => (p.1 + n, p.2) := by
      cases pending with
      | some p => rfl
      | none =>
        rw [Option.map_none, blockWith, blockWith]
        split <;> rfl
    have hnone := ih (i + 1) none
    rw [blocksFrom_cons, blocksFrom_cons, hwith, hnext]
    cases hb : blockWith i l pending with
    | none => exact hnone
    | some b =>
      rw [Option.map_some]
      dsimp only
      split
      · congr 1
      · exact ih (i + 1) (some b)

lemma blocksFrom_within {ms rest : List Text} {i first : Nat} {body : List Text} (h : ∀ l ∈ ms, endsWith (trim l) "*/" = false) :
    blocksFrom i (some (first, body)) (ms ++ rest) = blocksFrom (i + ms.length) (some (first, ms.reverse ++ body)) rest := by
  induction ms generalizing i body with
  | nil => rfl
  | cons l ms ih =>
    obtain ⟨hl, hms⟩ := forall_mem_cons.mp h
    have hlen : i + (l :: ms).length = i + 1 + ms.length := by rw [length_cons]; omega
    rw [cons_append, blocksFrom_cons, blockWith]
    simp only [hl]
    rw [ih hms, hlen]
    simp

/-! ## Lines and their blocks -/

/-- A text of block comments: `M` and `c` are the lines of a block, `B` the lines below it. -/
inductive Blocked : List Text → List Block → Prop
  | code {l ls bs} (h : startsWith (trim l) "/*" = false) (rest : Blocked ls bs) : Blocked (l :: ls) (bs.map (Block.move 1))
  | block {M c B bs} (opens : ∀ l ∈ (M ++ [c]).head?, startsWith (trim l) "/*") (inside : ∀ m ∈ M, endsWith (trim m) "*/" = false)
      (closes : endsWith (trim c) "*/") (rest : Blocked B bs) :
      Blocked (M ++ c :: B) (⟨0, M.length, unlines (M ++ [c])⟩ :: bs.map (Block.move (M.length + 1)))
  | unclosed {ls} (opens : ∀ l ∈ ls.head?, startsWith (trim l) "/*") (inside : ∀ m ∈ ls, endsWith (trim m) "*/" = false) :
      Blocked ls []

/-- A block of some lines, with the lines above it, in it and below it. -/
inductive IsBlock : List Text → Block → Prop
  | mk {M c} (A : List Text) (opens : ∀ l ∈ (M ++ [c]).head?, startsWith (trim l) "/*")
      (inside : ∀ m ∈ M, endsWith (trim m) "*/" = false) (closes : endsWith (trim c) "*/") (B : List Text) :
      IsBlock (A ++ (M ++ c :: B)) ⟨A.length, (A.length + M.length : Nat), unlines (M ++ [c])⟩

variable {b : Block} {l c : Text} {ls M : List Text} {bs : List Block}

lemma blocks_cons (h : startsWith (trim l) "/*" = false) (ls : List Text) : blocks (l :: ls) = (blocks ls).map (.move 1) := by
  rw [blocks, blocksFrom_cons, blockWith, h]
  exact blocksFrom_move 1 ls 0 none

/-- A block that opens is one that was open before its first line and had no line yet. -/
lemma blocks_opening (h : ∀ l ∈ ls.head?, startsWith (trim l) "/*") : blocks ls = blocksFrom 0 (some (0, [])) ls := by
  cases ls with
  | nil => rfl
  | cons l ls =>
    have hwith : blockWith 0 l none = some (0, [l]) := by rw [blockWith, h l rfl]; rfl
    rw [blocks, blocksFrom_cons, hwith]
    rfl

lemma blocks_block (opens : ∀ l ∈ (M ++ [c]).head?, startsWith (trim l) "/*")
    (inside : ∀ m ∈ M, endsWith (trim m) "*/" = false) (closes : endsWith (trim c) "*/") (B : List Text) :
    blocks (M ++ c :: B) = ⟨0, M.length, unlines (M ++ [c])⟩ :: (blocks B).map (.move (M.length + 1)) := by
  have hmove := blocksFrom_move (M.length + 1) B 0 none
  rw [Nat.zero_add, Option.map_none] at hmove
  rw [blocks_opening (by cases M <;> exact opens), blocksFrom_within inside, blocksFrom_cons, blockWith, Nat.zero_add]
  simp only [closes, hmove]
  simp [blocks]

lemma blocked_blocks (ls : List Text) : Blocked ls (blocks ls) := by
  induction hn : ls.length using Nat.strong_induction_on generalizing ls with
  | _ n ih =>
    subst hn
    have hM : ∀ m ∈ ls.takeWhile (fun m => !endsWith (trim m) "*/"), endsWith (trim m) "*/" = false :=
      fun m hm => by simpa using mem_takeWhile_imp hm
    have hsplit := @takeWhile_append_dropWhile _ (fun m => !endsWith (trim m) "*/") ls
    have hstop := head?_dropWhile_not (fun m => !endsWith (trim m) "*/") ls
    by_cases hopen : ∀ l ∈ ls.head?, startsWith (trim l) "/*"
    · generalize ls.takeWhile (fun m => !endsWith (trim m) "*/") = M at hM hsplit
      cases hD : ls.dropWhile (fun m => !endsWith (trim m) "*/") with
      | nil =>
        rw [hD, append_nil] at hsplit
        subst hsplit
        have hnone := @blocksFrom_within M [] 0 0 [] hM
        rw [append_nil] at hnone
        rw [blocks_opening hopen, hnone]
        exact .unclosed hopen hM
      | cons c B =>
        rw [hD] at hsplit hstop
        subst hsplit
        have hopen : ∀ l ∈ (M ++ [c]).head?, startsWith (trim l) "/*" := by cases M <;> exact hopen
        have hclose : endsWith (trim c) "*/" := by simpa using hstop
        rw [blocks_block hopen hM hclose]
        exact .block hopen hM hclose (ih _ (by simp only [length_append, length_cons]; omega) B rfl)
    · cases ls with
      | nil => exact absurd nofun hopen
      | cons l ls =>
        have hl : startsWith (trim l) "/*" = false := by simpa using hopen
        rw [blocks_cons hl]
        exact .code hl (ih _ (Nat.lt_succ_self _) ls rfl)

lemma IsBlock.move (h : IsBlock ls b) (X : List Text) : IsBlock (X ++ ls) (b.move X.length) := by
  obtain ⟨A, hopen, hM, hc, B⟩ := h
  have hmoved := IsBlock.mk (X ++ A) hopen hM hc B
  rw [append_assoc, length_append, Nat.add_comm X.length, Nat.add_right_comm] at hmoved
  exact_mod_cast hmoved

lemma Blocked.isBlock (h : Blocked ls bs) : ∀ b ∈ bs, IsBlock ls b := by
  induction h with
  | @code l ls bs _ _ ih =>
    rw [forall_mem_map]
    exact fun b hb => (ih b hb).move [l]
  | @block M c B bs hopen hM hc _ ih =>
    rw [forall_mem_cons, forall_mem_map]
    refine ⟨by simpa using IsBlock.mk [] hopen hM hc B, fun b hb => ?_⟩
    have hmoved := (ih b hb).move (M ++ [c])
    rwa [append_assoc, length_append, length_singleton] at hmoved
  | unclosed => exact nofun

lemma Blocked.pairwise (h : Blocked ls bs) : bs.Pairwise fun b c => b.last < c.first := by
  have hmove : ∀ n {bs : List Block}, bs.Pairwise (fun b c => b.last < c.first) →
      (bs.map (Block.move n)).Pairwise fun b c => b.last < c.first := by
    intro n bs hbs
    rw [pairwise_map]
    exact hbs.imp fun h => by simpa [Block.move] using h
  induction h with
  | code _ _ ih => exact hmove 1 ih
  | block _ _ _ rest ih =>
    refine pairwise_cons.mpr ⟨forall_mem_map.mpr fun b hb => ?_, hmove _ ih⟩
    obtain ⟨A, -⟩ := rest.isBlock b hb
    dsimp only [Block.move]
    omega
  | unclosed => exact .nil

lemma inBlocks_move (n k : Nat) (bs : List Block) : inBlocks ((k + n : Nat) : Int) (bs.map (.move n)) = inBlocks k bs := by
  rw [inBlocks, any_map]
  refine congrArg bs.any (funext fun b => ?_)
  have hfirst : b.first + n ≤ (k + n : Nat) ↔ b.first ≤ k := by omega
  have hlast : ((k + n : Nat) : Int) ≤ b.last + n ↔ k ≤ b.last := by omega
  simp only [Function.comp_apply, Block.move, hfirst, hlast]

/-- An opening line is in a block if a line from there on closes. -/
lemma Blocked.complete (h : Blocked ls bs) {k j : Nat} {m : Text} (hl : ls[k]? = some l) (hopen : startsWith (trim l) "/*")
    (hkj : k ≤ j) (hm : ls[j]? = some m) (hclose : endsWith (trim m) "*/") : inBlocks k bs := by
  induction h generalizing k j with
  | @code l₀ ls bs hl₀ _ ih =>
    obtain _ | k := k
    · cases hl
      rw [hopen] at hl₀
      cases hl₀
    · obtain ⟨j, rfl⟩ : ∃ i, j = i + 1 := ⟨j - 1, by omega⟩
      rw [inBlocks_move]
      exact ih hl (Nat.le_of_succ_le_succ hkj) hm
  | @block M c B bs _ _ _ _ ih =>
    rw [inBlocks, any_cons, Bool.or_eq_true]
    by_cases hk : k ≤ M.length
    · exact .inl (by simpa using hk)
    · have hat : ∀ n, M.length < n → (M ++ c :: B)[n]? = B[n - (M.length + 1)]? := by
        intro n hn
        rw [append_cons, getElem?_append_right (by simp; omega)]
        simp
      rw [hat _ (by omega)] at hl hm
      have hrest := ih hl (by omega) hm
      rw [← inBlocks_move (M.length + 1)] at hrest
      rw [show k - (M.length + 1) + (M.length + 1) = k by omega] at hrest
      exact .inr hrest
  | unclosed _ hM =>
    rw [hM m (mem_of_getElem? hm)] at hclose
    cases hclose

/-! ## The lines of a block -/

lemma lines_of_block (hb : b ∈ blocks ls) :
    ∃ first last : Nat, b = ⟨first, last, unlines ((ls.take (last + 1)).drop first)⟩ ∧ first ≤ last ∧
      (∃ l, ls[first]? = some l ∧ startsWith (trim l) "/*") ∧ (∃ l, ls[last]? = some l ∧ endsWith (trim l) "*/") ∧
      ∀ k l, first ≤ k → k < last → ls[k]? = some l → endsWith (trim l) "*/" = false := by
  obtain @⟨M, c, A, hopen, hM, hc, B⟩ := (blocked_blocks ls).isBlock b hb
  refine ⟨A.length, A.length + M.length, ?_, by omega, ?_, ⟨c, by simp, hc⟩, fun k l hk hlt hl => ?_⟩
  · have htake : (A ++ (M ++ c :: B)).take (A.length + M.length + 1) = A ++ (M ++ [c]) := by
      rw [append_cons M, Nat.add_assoc, take_length_add_append, take_left' (by simp)]
    rw [htake, drop_left]
  · cases M with
    | nil => exact ⟨c, by simp, hopen c rfl⟩
    | cons m M => exact ⟨m, by simp, hopen m rfl⟩
  · refine hM l (mem_of_getElem? (i := k - A.length) ?_)
    rwa [getElem?_append_right hk, getElem?_append_left (by omega)] at hl

lemma mem_blocks (hb : b ∈ blocks ls) : 0 ≤ b.first ∧ b.first ≤ b.last ∧ b.last < ls.length := by
  obtain ⟨first, last, rfl, hle, -, ⟨l, hl, -⟩, -⟩ := lines_of_block hb
  have := (List.getElem?_eq_some_iff.mp hl).1
  refine ⟨?_, ?_, ?_⟩ <;> dsimp only <;> omega

/-- Blocks follow one another. Each one takes the lines from one that opens it to the first one from there on that closes it, and
every opening line lies in a block unless no line from there on closes. -/
theorem blocks_ordered_complete (ls : List Text) :
    (blocks ls).Pairwise (fun b c => b.last < c.first) ∧
      (∀ b ∈ blocks ls, ∃ first last : Nat, b = ⟨first, last, unlines ((ls.take (last + 1)).drop first)⟩ ∧ first ≤ last ∧
        (∃ l, ls[first]? = some l ∧ startsWith (trim l) "/*") ∧ (∃ l, ls[last]? = some l ∧ endsWith (trim l) "*/") ∧
        ∀ k l, first ≤ k → k < last → ls[k]? = some l → endsWith (trim l) "*/" = false) ∧
      ∀ (k : Nat) l, ls[k]? = some l → startsWith (trim l) "/*" → inBlocks k (blocks ls) ∨
        ∀ j m, k ≤ j → ls[j]? = some m → endsWith (trim m) "*/" = false := by
  refine ⟨(blocked_blocks ls).pairwise, fun b hb => lines_of_block hb, fun k l hl hopen => ?_⟩
  by_cases hclosed : ∃ j m, k ≤ j ∧ ls[j]? = some m ∧ endsWith (trim m) "*/"
  · obtain ⟨j, m, hkj, hm, hclose⟩ := hclosed
    exact .inl ((blocked_blocks ls).complete hl hopen hkj hm hclose)
  · exact .inr fun j m hkj hm => Bool.eq_false_iff.mpr fun hclose => hclosed ⟨j, m, hkj, hm, hclose⟩

end FunctionDocs.Source
