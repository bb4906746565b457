import FunctionDocs.Files.Search
import FunctionDocs.Proofs.Text
import FunctionDocs.Proofs.Tree
import Mathlib.Data.List.Perm.Subperm

/-!
# Finding source files

The search for source files follows the names from a directory down. In a tree as a file system has it, it comes to each file
below the directory once, so it gives every source file there exactly once, those in the directory itself first.
-/

open List

namespace FunctionDocs

variable {t : Tree} {p q : Place} {n path : Text}

/-- A tree as a file system has it: nothing stands twice at a place, all that stands somewhere stands in a directory, and a name
is not empty and has no slash. -/
structure Tree.Sound (t : Tree) : Prop where
  once : (t.nodes.map (·.1)).Nodup
  inside : ∀ p ∈ t.nodes.map (·.1), p ≠ [] ∧ t.at? p.dropLast = some .dir
  names : ∀ p ∈ t.nodes.map (·.1), ∀ n ∈ p, n ≠ [] ∧ '/' ∉ n

def Path.joinAll (path : Text) (q : Place) : Text := q.foldl join path

/-- Names lead from a place down to a directory, and there is a source file with a name in it. -/
def Tree.IsSourceBelow (t : Tree) (p q : Place) (n : Text) : Prop :=
  (∃ bs, t.at? (p ++ q ++ [n]) = some (.file bs)) ∧ Path.isSource n

/-! ## Names in a directory -/

lemma Text.perm_insertBy {α : Type} (key : α → Text) (a : α) (as : List α) : insertBy key a as ~ a :: as := by
  induction as with
  | nil => exact .refl _
  | cons b bs ih =>
    rw [insertBy]
    split
    · exact .refl _
    · exact (ih.cons b).trans (.swap a b bs)

lemma Text.perm_sort (ts : List Text) : sort ts ~ ts := by
  induction ts with
  | nil => exact .refl _
  | cons t ts ih => exact (perm_insertBy id t _).trans (ih.cons t)

namespace Tree

def nameIn (p q : Place) : Option Text := if q.length == p.length + 1 && p.isPrefixOf q then q.getLast? else none

lemma nameIn_eq_some : nameIn p q = some n ↔ q = p ++ [n] := by
  rw [nameIn]
  constructor
  · intro h
    split at h
    next hq =>
      obtain ⟨hlen, hprefix⟩ := (Bool.and_eq_true _ _).mp hq
      obtain ⟨r, rfl⟩ := isPrefixOf_iff_prefix.mp hprefix
      obtain ⟨m, rfl⟩ := length_eq_one_iff.mp (by simpa using hlen : r.length = 1)
      simpa using h
    · cases h
  · rintro rfl
    simp

lemma names_perm (t : Tree) (p : Place) : t.names p ~ (t.nodes.map (·.1)).filterMap (nameIn p) := by
  rw [filterMap_map]
  exact Text.perm_sort _

lemma mem_places (hp : p ≠ []) : p ∈ t.nodes.map (·.1) ↔ (t.at? p).isSome := by
  rw [at?, if_neg (by simpa using hp)]
  simp

lemma mem_names : n ∈ t.names p ↔ (t.at? (p ++ [n])).isSome := by
  rw [(t.names_perm p).mem_iff, mem_filterMap, ← mem_places (by simp)]
  simp only [nameIn_eq_some, exists_eq_right]

lemma mem_fileNames : n ∈ t.fileNames p ↔ ∃ bs, t.at? (p ++ [n]) = some (.file bs) := by
  rw [fileNames, mem_filter, mem_names]
  rcases t.at? (p ++ [n]) with _ | _ | bs <;> simp

lemma mem_dirNames : n ∈ t.dirNames p ↔ t.at? (p ++ [n]) = some .dir := by
  rw [dirNames, mem_filter, mem_names]
  rcases t.at? (p ++ [n]) with _ | _ | bs <;> simp

lemma Sound.nodup_names (ht : t.Sound) (p : Place) : (t.names p).Nodup := by
  refine (t.names_perm p).nodup_iff.mpr (ht.once.filterMap fun q q' n hq hq' => ?_)
  rw [nameIn_eq_some.mp hq, nameIn_eq_some.mp hq']

lemma Sound.name (ht : t.Sound) (h : (t.at? (p ++ q)).isSome) (hn : n ∈ q) : n ≠ [] ∧ '/' ∉ n :=
  ht.names _ ((mem_places (by rintro hnil; simp_all)).mpr h) n (mem_append_right p hn)

lemma Sound.dir_above (ht : t.Sound) (h : (t.at? (p ++ q)).isSome) (hq : q ≠ []) : t.at? p = some .dir := by
  induction q using reverseRecOn with
  | nil => exact absurd rfl hq
  | append_singleton q n ih =>
    have hinside := (ht.inside _ ((mem_places (by simp)).mpr h)).2
    rw [← append_assoc, dropLast_concat] at hinside
    by_cases hnil : q = []
    · rwa [hnil, append_nil] at hinside
    · exact ih (by rw [hinside]; rfl) hnil

lemma Sound.length_le (ht : t.Sound) (h : (t.at? (p ++ q ++ [n])).isSome) : q.length ≤ t.nodes.length := by
  have hplaces : ((range q.length).map fun k => p ++ q.take (k + 1)) ⊆ t.nodes.map (·.1) := by
    intro r hr
    obtain ⟨k, hk, rfl⟩ := mem_map.mp hr
    have hway : p ++ q ++ [n] = p ++ q.take (k + 1) ++ (q.drop (k + 1) ++ [n]) := by
      rw [append_assoc p (q.take _), ← append_assoc (q.take _), take_append_drop, append_assoc]
    have hne : p ++ q.take (k + 1) ≠ [] := by
      rintro hnil
      simp_all
    rw [hway] at h
    rw [mem_places hne, ht.dir_above h (by simp)]
    rfl
  have hnodup : ((range q.length).map fun k => p ++ q.take (k + 1)).Nodup := by
    refine nodup_range.map_on fun k hk k' hk' heq => ?_
    have hlen := congrArg length heq
    simp only [length_append, length_take, mem_range] at hlen hk hk'
    omega
  simpa using (hnodup.subperm hplaces).length_le

/-! ## The way down -/

/-- The files below a place, each with the names that lead to its directory, in the order of the walk. -/
def filesFrom (t : Tree) : Nat → Place → List (Place × Text)
  | 0, _ => []
  | fuel + 1, p =>
    (t.fileNames p).map ([], ·) ++
      (t.dirNames p).flatMap fun d => (filesFrom t fuel (p ++ [d])).map fun f => (d :: f.1, f.2)

lemma walkFrom_eq (t : Tree) (fuel : Nat) (path : Text) (p : Place) :
    t.walkFrom fuel path p = (t.filesFrom fuel p).map fun f => (Path.joinAll path f.1, f.2) := by
  induction fuel generalizing path p with
  | zero => rfl
  | succ fuel ih =>
    simp only [walkFrom, filesFrom, map_append, map_map, map_flatMap, ih]
    rfl

lemma Sound.mem_filesFrom (ht : t.Sound) {fuel : Nat} :
    (q, n) ∈ t.filesFrom fuel p ↔ q.length < fuel ∧ ∃ bs, t.at? (p ++ q ++ [n]) = some (.file bs) := by
  induction fuel generalizing p q with
  | zero => simp [filesFrom]
  | succ fuel ih =>
    rw [filesFrom, mem_append]
    cases q with
    | nil => simp [mem_fileNames]
    | cons d q =>
      have hway : p ++ d :: q ++ [n] = p ++ [d] ++ q ++ [n] := by simp
      have hdir : ∀ bs, t.at? (p ++ [d] ++ q ++ [n]) = some (.file bs) → t.at? (p ++ [d]) = some .dir := by
        intro bs hbs
        rw [append_assoc (p ++ [d])] at hbs
        exact ht.dir_above (by rw [hbs]; rfl) (by simp)
      rw [hway, length_cons, Nat.add_lt_add_iff_right]
      constructor
      · rintro (h | h)
        · simp at h
        · obtain ⟨e, he, h⟩ := mem_flatMap.mp h
          obtain ⟨f, hf, heq⟩ := mem_map.mp h
          cases heq
          exact ih.mp hf
      · rintro ⟨hlen, bs, hbs⟩
        exact .inr (mem_flatMap.mpr ⟨d, mem_dirNames.mpr (hdir bs hbs), mem_map.mpr ⟨(q, n), ih.mpr ⟨hlen, bs, hbs⟩, rfl⟩⟩)

lemma Sound.nodup_filesFrom (ht : t.Sound) (fuel : Nat) (p : Place) : (t.filesFrom fuel p).Nodup := by
  induction fuel generalizing p with
  | zero => exact nodup_nil
  | succ fuel ih =>
    have hfiles : ((t.fileNames p).map fun n => (([] : Place), n)).Nodup :=
      ((ht.nodup_names p).filter _).map fun n n' h => by cases h; rfl
    have hdirs : ((t.dirNames p).flatMap fun d => (t.filesFrom fuel (p ++ [d])).map fun f => (d :: f.1, f.2)).Nodup := by
      refine nodup_flatMap.mpr ⟨fun d _ => (ih (p ++ [d])).map fun f g h => ?_, ?_⟩
      · obtain ⟨q, n⟩ := f
        cases h
        rfl
      · refine ((ht.nodup_names p).filter _).imp fun {d e} hne f hd he => hne ?_
        obtain ⟨g, -, rfl⟩ := mem_map.mp hd
        obtain ⟨g', -, heq⟩ := mem_map.mp he
        exact (head_eq_of_cons_eq (Prod.ext_iff.mp heq).1).symm
    refine hfiles.append hdirs fun f hf hd => ?_
    obtain ⟨n, -, rfl⟩ := mem_map.mp hf
    obtain ⟨d, -, hd⟩ := mem_flatMap.mp hd
    obtain ⟨g, -, heq⟩ := mem_map.mp hd
    cases heq

end Tree

/-! ## Joined paths -/

lemma Path.joinAll_concat (path : Text) (q : Place) (n : Text) : joinAll path (q ++ [n]) = join (joinAll path q) n :=
  foldl_concat ..

def Path.opened (path : Text) : Text := if path.isEmpty || Text.endsWith path "/" then path else path ++ "/"

lemma Path.join_name (hn : n ≠ [] ∧ '/' ∉ n) : join path n = opened path ++ n := by
  have hrelative : isAbsolute n = false := by
    rw [Bool.eq_false_iff]
    intro h
    exact hn.2 ((Text.startsWith_iff.mp h).subset mem_cons_self)
  rw [join, hrelative, if_neg Bool.false_ne_true, opened]
  split
  · rfl
  · rfl

lemma Path.opened_append (hn : n ≠ [] ∧ '/' ∉ n) : opened (path ++ n) = path ++ n ++ "/" := by
  have hends : ¬Text.endsWith (path ++ n) "/" := by
    intro h
    obtain ⟨r, c, rfl⟩ := eq_nil_or_concat' n |>.resolve_left hn.1
    obtain ⟨s, hs⟩ := Text.endsWith_iff.mp h
    rw [← append_assoc] at hs
    have hc : '/' = c := by simpa using (append_inj' hs rfl).2
    exact hn.2 (by rw [hc]; simp)
  rw [opened, if_neg]
  rintro h
  rcases Bool.or_eq_true_iff.mp h with h | h
  · simp [hn.1] at h
  · exact hends h

lemma Path.joinAll_eq (hn : n ≠ [] ∧ '/' ∉ n) (hq : ∀ m ∈ q, m ≠ [] ∧ '/' ∉ m) :
    joinAll path (n :: q) = opened path ++ Text.joinWith "/" (n :: q) := by
  induction q generalizing path n with
  | nil => exact join_name hn
  | cons m q ih =>
    obtain ⟨hm, hq⟩ := forall_mem_cons.mp hq
    have hstep : joinAll path (n :: m :: q) = joinAll (join path n) (m :: q) := rfl
    rw [hstep, ih hm hq, join_name hn, opened_append hn, Text.joinWith]
    simp only [append_assoc]

lemma Path.joinAll_injective {q' : Place} (hq : ∀ m ∈ q, m ≠ [] ∧ '/' ∉ m) (hq' : ∀ m ∈ q', m ≠ [] ∧ '/' ∉ m) (hne : q ≠ [])
    (hne' : q' ≠ []) (h : joinAll path q = joinAll path q') : q = q' := by
  obtain ⟨n, r, rfl⟩ := exists_cons_of_ne_nil hne
  obtain ⟨n', r', rfl⟩ := exists_cons_of_ne_nil hne'
  have hsplit : ∀ {n r}, (∀ m ∈ n :: r, m ≠ [] ∧ '/' ∉ m) → Text.splitOnChar '/' (.joinWith "/" (n :: r)) = n :: r :=
    fun h => Text.splitOnChar_joinWith (by simp) fun m hm => (h m hm).2
  obtain ⟨hn, hr⟩ := forall_mem_cons.mp hq
  obtain ⟨hn', hr'⟩ := forall_mem_cons.mp hq'
  rw [joinAll_eq hn hr, joinAll_eq hn' hr'] at h
  rw [← hsplit hq, append_cancel_left h, hsplit hq']

lemma sourceFiles_dir (hpath : t.resolve path = .ok p) (hdir : t.at? p = some .dir) :
    sourceFiles t path true = ((t.filesFrom (t.nodes.length + 1) p).filter fun f => Path.isSource f.2).map
        (fun f => Path.joinAll path (f.1 ++ [f.2])) ∧
      sourceFiles t path false = ((t.fileNames p).filter Path.isSource).map (Path.join path) := by
  have hstat : t.stat path = .ok .dir := by
    simp only [Tree.stat, hpath, bind, Except.bind, hdir]
    rfl
  have hfile : t.isFile path = false := by rw [Tree.isFile, hstat]
  have hisDir : t.isDir path := by rw [Tree.isDir, hstat]
  rw [sourceFiles, sourceFiles, hfile, hisDir, Tree.walk, hpath]
  refine ⟨?_, rfl⟩
  change ((t.walkFrom _ path p).filter _).map _ = _
  rw [Tree.walkFrom_eq, filter_map, map_map]
  exact map_congr_left fun f _ => (Path.joinAll_concat path f.1 f.2).symm

/-- In a directory, the search with all directories below gives each source file below it exactly once, and the search in the
directory alone gives the first of them, which are those in the directory itself. -/
theorem sourceFiles_below (ht : t.Sound) (hpath : t.resolve path = .ok p) (hdir : t.at? p = some .dir) :
    (sourceFiles t path true).Nodup ∧
      (∀ f, f ∈ sourceFiles t path true ↔ ∃ q n, t.IsSourceBelow p q n ∧ f = Path.join (Path.joinAll path q) n) ∧
      sourceFiles t path false <+: sourceFiles t path true ∧
      ∀ f, f ∈ sourceFiles t path false ↔ ∃ n, t.IsSourceBelow p [] n ∧ f = Path.join path n := by
  obtain ⟨hdeep, hshallow⟩ := sourceFiles_dir hpath hdir
  have hproper : ∀ f ∈ t.filesFrom (t.nodes.length + 1) p, ∀ n ∈ f.1 ++ [f.2], n ≠ [] ∧ '/' ∉ n := by
    intro f hf n hn
    obtain ⟨-, bs, hbs⟩ := ht.mem_filesFrom.mp hf
    rw [append_assoc] at hbs
    exact ht.name (by rw [hbs]; rfl) hn
  refine ⟨?_, fun f => ?_, ?_, fun f => ?_⟩
  · rw [hdeep]
    refine ((ht.nodup_filesFrom _ p).filter _).map_on fun f hf g hg heq => ?_
    have hway := Path.joinAll_injective (hproper f (mem_filter.mp hf).1) (hproper g (mem_filter.mp hg).1) (by simp) (by simp) heq
    exact Prod.ext_iff.mpr (by simpa using hway)
  · rw [hdeep, mem_map]
    constructor
    · rintro ⟨⟨q, n⟩, hf, rfl⟩
      obtain ⟨hf, hsource⟩ := mem_filter.mp hf
      exact ⟨q, n, ⟨(ht.mem_filesFrom.mp hf).2, hsource⟩, Path.joinAll_concat path q n⟩
    · rintro ⟨q, n, ⟨⟨bs, hbs⟩, hsource⟩, rfl⟩
      have hlen : q.length < t.nodes.length + 1 := Nat.lt_succ_of_le (ht.length_le (by rw [hbs]; rfl))
      exact ⟨(q, n), mem_filter.mpr ⟨ht.mem_filesFrom.mpr ⟨hlen, bs, hbs⟩, hsource⟩, Path.joinAll_concat path q n⟩
  · rw [hdeep, hshallow, Tree.filesFrom, filter_append, map_append, filter_map, map_map]
    exact prefix_append _ _
  · rw [hshallow, mem_map]
    simp only [mem_filter, Tree.mem_fileNames, Tree.IsSourceBelow, append_nil, eq_comm]

def lookalikes : Tree where
  nodes := [(["w".toList], .dir), (["w".toList, "b.h".toList], .dir), (["w".toList, "a.cpp".toList], .file []),
    (["w".toList, "b.h".toList, "c.ino".toList], .file []), (["w".toList, "notes.txt".toList], .file [])]

theorem lookalikes_found :
    sourceFiles lookalikes "w" true = ["w/a.cpp".toList, "w/b.h/c.ino".toList] ∧ (sourceFiles lookalikes "w" true).Nodup ∧
      (∀ f, f ∈ sourceFiles lookalikes "w" false ↔ ∃ n, lookalikes.IsSourceBelow ["w".toList] [] n ∧ f = Path.join "w" n) := by
  have hsound : lookalikes.Sound := ⟨by decide, by decide, by decide⟩
  have hpath : lookalikes.resolve "w" = .ok ["w".toList] := by decide
  obtain ⟨hnodup, -, -, hshallow⟩ := sourceFiles_below hsound hpath (by decide)
  exact ⟨by decide, hnodup, hshallow⟩

end FunctionDocs
