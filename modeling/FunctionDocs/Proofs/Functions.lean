import FunctionDocs.Source.Function
import Mathlib.Data.List.Forall2
import Mathlib.Data.List.Induction
import Mathlib.Data.List.Nodup

/-!
# How the list of functions grows

The functions of a text are collected one after the other. `Found` says all that is known of a function when it joins the
list; a property that every such step keeps holds of the whole list.
-/

open List

namespace FunctionDocs

/-- Results are compared by their values or by their failures. -/
instance {α : Type} [DecidableEq α] : DecidableEq (Except Failure α)
  | .ok a, .ok b => decidable_of_iff (a = b) ⟨congrArg Except.ok, Except.ok.inj⟩
  | .error e, .error f => decidable_of_iff (e = f) ⟨congrArg Except.error, Except.error.inj⟩
  | .ok _, .error _ => isFalse nofun
  | .error _, .ok _ => isFalse nofun

instance {α : Type} (x : Except Failure α) : Decidable (∃ a, x = .ok a) :=
  match x with
  | .ok a => .isTrue ⟨a, rfl⟩
  | .error _ => .isFalse nofun

/-- A result that comes after another one: both steps gave a result. -/
lemma ok_of_bind_ok {α β : Type} {x : Except Failure α} {k : α → Except Failure β} {b : β}
    (h : x >>= k = .ok b) : ∃ a, x = .ok a ∧ k a = .ok b := by
  cases x with
  | error e => cases h
  | ok a => exact ⟨a, rfl, h⟩

namespace Source

variable {f : Function} {fs : List Function} {s : Sheet} {js : List Joined} {before gs : List Function} {hidden : List Block}
  {content file : Text} {template : PendingTemplate}

/-- A function joins the list `before`: it was made from the head on one of the joined lines. -/
def Sheet.Found (s : Sheet) (js : List Joined) (before : List Function) (f : Function) : Prop :=
  ∃ j ∈ js, ∃ (pending : PendingTemplate) (below : List Joined) (h : Head),
    readHead (headText (readTemplate (mask j.text) pending).2) below = .ok (some h) ∧
      s.function before (mask j.text) (readTemplate (mask j.text) pending).1 j h = .ok f

lemma Sheet.Found.mono {js' : List Joined} (h : s.Found js before f) (hsub : ∀ j ∈ js, j ∈ js') : s.Found js' before f := by
  obtain ⟨j, hj, rest⟩ := h
  exact ⟨j, hsub j hj, rest⟩

lemma Sheet.functionsFrom_induct (P : List Function → Prop) :
    ∀ {js : List Joined} {i : Nat} {template : PendingTemplate} {before fs : List Function},
      (∀ before f, P before → s.Found js before f → P (before ++ [f])) → P before →
        s.functionsFrom hidden i template before js = .ok fs → P fs := by
  intro js
  induction js with
  | nil =>
    intro i template before fs _ hb h
    cases h
    exact hb
  | cons j below ih =>
    intro i template before fs hstep hb h
    have hrest : ∀ before f, P before → s.Found below before f → P (before ++ [f]) :=
      fun before f hp hf => hstep before f hp (hf.mono fun j hj => mem_cons_of_mem _ hj)
    simp only [functionsFrom] at h
    split at h
    · exact ih hrest hb h
    · split at h
      · exact ih hrest hb h
      · obtain ⟨head, hhead, h⟩ := ok_of_bind_ok h
        cases head with
        | none => exact ih hrest hb h
        | some head =>
          obtain ⟨f, hf, h⟩ := ok_of_bind_ok h
          exact ih hrest (hstep before f hb ⟨j, mem_cons_self, template, below, head, hhead, hf⟩) h

lemma functionsOf_induct (P : List Function → Prop) (hnil : P []) (hstep : ∀ before f, P before →
      (⟨file, content.lines, blocks content.lines⟩ : Sheet).Found (joinLines content.lines) before f → P (before ++ [f]))
    (h : functionsOf content file = .ok fs) : P fs :=
  Sheet.functionsFrom_induct P hstep hnil h

/-- The function made from a head: its comment is the one above its line, and all else comes from the head. -/
lemma Sheet.function_ok {m : Masked} {j : Joined} {h : Head} (hf : s.function before m template j h = .ok f) :
    ∃ comment, commentAbove s.lines j.first s.blocks = .ok comment ∧
      f = ⟨h.name, m.restore h.returnType, m.restore h.params, h.isConst, comment, isDoxygenComment comment, s.file,
        j.first, countSame h.name (m.restore h.params) before + 1, template.isSome, template.join⟩ := by
  obtain ⟨comment, hc, hf⟩ := ok_of_bind_ok hf
  cases hf
  exact ⟨comment, hc, rfl⟩

/-! ## Counts -/

/-- Every function of the list carries its number among those with its name and parameters. -/
def Counted (fs : List Function) : Prop :=
  ∀ before f after, fs = before ++ f :: after → f.count = countSame f.name f.params before + 1

lemma Counted.append (h : Counted fs) (hf : f.count = countSame f.name f.params fs + 1) : Counted (fs ++ [f]) := by
  intro before g after heq
  rcases eq_nil_or_concat' after with rfl | ⟨after', x, rfl⟩
  · obtain ⟨rfl, hg⟩ := append_inj' heq rfl
    cases hg
    exact hf
  · rw [← cons_append, ← append_assoc] at heq
    exact h before g after' (append_inj' heq rfl).1

lemma Counted.of_append (h : Counted (fs ++ [f])) : Counted fs ∧ f.count = countSame f.name f.params fs + 1 :=
  ⟨fun before g after heq => h before g (after ++ [f]) (by rw [heq, append_assoc, cons_append]), h fs f [] rfl⟩

/-- The functions with one name and one list of parameters are numbered from one on. -/
lemma Counted.counts (h : Counted fs) (name params : Text) :
    (fs.filter fun f => f.name == name && f.params == params).map (·.count) = range' 1 (countSame name params fs) := by
  induction fs using reverseRecOn with
  | nil => rfl
  | append_singleton fs f ih =>
    obtain ⟨hfs, hf⟩ := h.of_append
    rw [filter_append, map_append, ih hfs, countSame, countSame, countP_append, countP_singleton]
    cases hsame : f.name == name && f.params == params with
    | false => simp [hsame]
    | true =>
      obtain ⟨rfl, rfl⟩ : f.name = name ∧ f.params = params := by simpa using hsame
      rw [if_pos rfl, range'_1_concat, Nat.add_comm 1]
      simp [hf, countSame]

lemma Counted.count_le (h : Counted fs) (hf : f ∈ fs) : f.count ≤ countSame f.name f.params fs := by
  have hmem : f.count ∈ range' 1 (countSame f.name f.params fs) := by
    rw [← h.counts]
    exact mem_map_of_mem (mem_filter.mpr ⟨hf, by simp⟩)
  have := mem_range'_1.mp hmem
  omega

lemma Counted.nodup (h : Counted fs) : (fs.map fun f => (f.name, f.params, f.count)).Nodup := by
  induction fs using reverseRecOn with
  | nil => exact nodup_nil
  | append_singleton fs f ih =>
    obtain ⟨hfs, hf⟩ := h.of_append
    rw [map_append, nodup_append]
    refine ⟨ih hfs, nodup_singleton _, ?_⟩
    rintro _ hmem _ hlast rfl
    obtain ⟨g, hg, hkey⟩ := mem_map.mp hmem
    obtain ⟨hname, hparams, hcount⟩ : g.name = f.name ∧ g.params = f.params ∧ g.count = f.count := by
      simpa using hkey.trans (mem_singleton.mp hlast)
    have hle := hfs.count_le hg
    rw [hname, hparams] at hle
    omega

lemma Sheet.functionsFrom_counted {i : Nat} (h : s.functionsFrom hidden i template [] js = .ok fs) : Counted fs := by
  refine functionsFrom_induct Counted ?_ ?_ h
  · rintro before f hb ⟨j, -, pending, below, head, -, hf⟩
    obtain ⟨comment, -, rfl⟩ := function_ok hf
    exact hb.append rfl
  · intro before f after heq
    simp at heq

lemma functionsOf_counted (h : functionsOf content file = .ok fs) : Counted fs := Sheet.functionsFrom_counted h

/-- The same function in two lists: its name, its parameters and its number agree. -/
structure Same (f g : Function) : Prop where
  name : g.name = f.name
  params : g.params = f.params
  count : g.count = f.count

lemma Same.trans {g h : Function} (hfg : Same f g) (hgh : Same g h) : Same f h :=
  ⟨hgh.name.trans hfg.name, hgh.params.trans hfg.params, hgh.count.trans hfg.count⟩

lemma countSame_congr {name params : Text}
    (h : Forall₂ (fun f g => g.name = f.name ∧ g.params = f.params) fs gs) :
    countSame name params gs = countSame name params fs := by
  induction h with
  | nil => rfl
  | cons hfg _ ih =>
    rw [countSame, countSame, countP_cons, countP_cons, hfg.1, hfg.2]
    exact congrArg (· + _) ih

lemma Counted.same (hfs : Counted fs) (hgs : Counted gs)
    (h : List.Forall₂ (fun f g => g.name = f.name ∧ g.params = f.params) fs gs) : Forall₂ Same fs gs := by
  have hwhole : ∀ {before before' after after' : List Function},
      List.Forall₂ (fun f g => g.name = f.name ∧ g.params = f.params) before before' →
      Forall₂ (fun f g => g.name = f.name ∧ g.params = f.params) after after' →
      fs = before ++ after → gs = before' ++ after' → List.Forall₂ Same after after' := by
    intro before before' after after' hbefore hafter
    induction hafter generalizing before before' with
    | nil => exact fun _ _ => .nil
    | @cons f g after after' hfg _ ih =>
      intro hf hg
      refine .cons ⟨hfg.1, hfg.2, ?_⟩ (ih (rel_append hbefore (.cons hfg .nil)) ?_ ?_)
      · rw [hfs _ _ _ hf, hgs _ _ _ hg, hfg.1, hfg.2, countSame_congr hbefore]
      · rw [hf, append_assoc, singleton_append]
      · rw [hg, append_assoc, singleton_append]
  exact hwhole .nil h rfl rfl

end Source

end FunctionDocs
