import FunctionDocs.Proofs.Changelog
import FunctionDocs.Proofs.Tree
import Mathlib.Data.List.Flatten

/-!
# Runs that bring a changelog up to date

The body for a list of commits has a row for each of them, below the title of its kind. A run puts this body into the part of its
version as a whole: it is left out if that part holds it already, and the rows of commits that are known from an earlier run come
again with those of newer ones.
-/

open List

namespace FunctionDocs.Release.Changelog

open Text Code DocBlock WorldM

variable {cs ds : List Commit} {c d : Commit} {k : CommitKind} {l v : Text} {code : Int} {err content new : Text} {x : Char}
  {p : Part} {ps' : List Part}

/-! ## The body for commits -/

def item (c : Commit) : Text := "* " ++ c.summary

def titleRow (k : CommitKind) : Text := "## " ++ k.title

/-- A commit whose summary fits on a row. -/
structure Told (c : Commit) : Prop where
  flat : Flat c.summary
  trimmed : Trimmed c.summary
  filled : c.summary ≠ []

/-- The rows for commits, with an empty one behind each group. -/
def groups (cs : List Commit) : List Text := CommitKind.all.flatMap (groupLines cs)

def rows (cs : List Commit) : List Text := (groups cs).dropLast

lemma groupLines_cases (cs : List Commit) (k : CommitKind) :
    (cs.filter (·.kind == k) = [] ∧ groupLines cs k = []) ∨
      cs.filter (·.kind == k) ≠ [] ∧ groupLines cs k = titleRow k :: [] :: (cs.filter (·.kind == k)).map item ++ [[]] := by
  rw [groupLines]
  split
  · exact .inl ⟨‹_›, rfl⟩
  · exact .inr ⟨‹_›, rfl⟩

lemma item_inj : item c = item d ↔ c.summary = d.summary := append_right_inj _

lemma countP_summary_pos (hc : c ∈ cs) : 0 < cs.countP (·.summary == c.summary) := countP_pos_iff.mpr ⟨c, hc, beq_self_eq_true _⟩

lemma count_groupLines (cs : List Commit) (k : CommitKind) (c : Commit) :
    (groupLines cs k).count (item c) = (cs.filter (·.kind == k)).countP (·.summary == c.summary) := by
  have htitle : titleRow k ≠ item c := by cases k <;> rintro ⟨⟩
  have hnil : ([] : Text) ≠ item c := by rintro ⟨⟩
  rcases groupLines_cases cs k with ⟨hown, hlines⟩ | ⟨-, hlines⟩
  · rw [hlines, hown]
    rfl
  · have hitem : ∀ d : Commit, (item d == item c) = (d.summary == c.summary) := by
      intro d
      rw [Bool.eq_iff_iff, beq_iff_eq, beq_iff_eq, item_inj]
    rw [hlines, count_append, count_cons_of_ne htitle, count_cons_of_ne hnil, count_cons_of_ne hnil, count, countP_map]
    exact countP_congr fun d _ => by simp [hitem]

lemma count_groups (cs : List Commit) (c : Commit) : (groups cs).count (item c) = cs.countP (·.summary == c.summary) := by
  rw [groups, count_flatMap]
  induction cs with
  | nil => rfl
  | cons d cs ih =>
    simp only [CommitKind.all, Function.comp_def, count_groupLines, map_cons, map_nil, sum_cons, sum_nil, filter_cons] at ih ⊢
    cases d.kind <;> simp [countP_cons] <;> omega

lemma mem_groups (h : l ∈ groups cs) : l = [] ∨ (∃ k, l = titleRow k) ∨ ∃ c ∈ cs, l = item c := by
  obtain ⟨k, -, hl⟩ := mem_flatMap.mp h
  rcases groupLines_cases cs k with ⟨-, hlines⟩ | ⟨-, hlines⟩
  · rw [hlines] at hl
    cases hl
  · rw [hlines] at hl
    simp only [cons_append, mem_cons, mem_append, mem_map, not_mem_nil, or_false] at hl
    rcases hl with rfl | rfl | ⟨c, hc, rfl⟩ | rfl
    · exact .inr (.inl ⟨k, rfl⟩)
    · exact .inl rfl
    · exact .inr (.inr ⟨c, (mem_filter.mp hc).1, rfl⟩)
    · exact .inl rfl

lemma flatMap_groupLines (cs : List Commit) (ks : List CommitKind) :
    ks.flatMap (groupLines cs) = [] ∨ ∃ k m, ∃ c ∈ cs, ks.flatMap (groupLines cs) = titleRow k :: m ++ [item c] ++ [[]] := by
  induction ks with
  | nil => exact .inl rfl
  | cons k ks ih =>
    rw [flatMap_cons]
    rcases groupLines_cases cs k with ⟨-, hlines⟩ | ⟨hne, hlines⟩
    · rw [hlines]
      exact ih
    · refine .inr ?_
      rw [hlines]
      rcases ih with ih | ⟨k', m, c, hc, ih⟩
      · obtain ⟨init, c, hown⟩ := (eq_nil_or_concat' (cs.filter (·.kind == k))).resolve_left hne
        have hc : c ∈ cs.filter (·.kind == k) := by rw [hown]; simp
        exact ⟨k, [] :: init.map item, c, (mem_filter.mp hc).1, by rw [ih, hown]; simp⟩
      · exact ⟨k, [] :: (cs.filter (·.kind == k)).map item ++ [] :: titleRow k' :: m, c, hc, by rw [ih]; simp⟩

lemma rows_spec (hcs : cs ≠ []) : groups cs = rows cs ++ [[]] ∧ ∃ k m, ∃ c ∈ cs, rows cs = titleRow k :: m ++ [item c] := by
  obtain ⟨c, hc⟩ := exists_mem_of_ne_nil cs hcs
  rcases flatMap_groupLines cs CommitKind.all with hnil | ⟨k, m, c, hc, hgroups⟩
  · have hcount := count_groups cs c
    rw [groups, hnil] at hcount
    exact absurd hcount (countP_summary_pos hc).ne
  · have hrows : rows cs = titleRow k :: m ++ [item c] := by rw [rows, groups, hgroups, dropLast_concat]
    exact ⟨by rw [hrows, groups, hgroups], k, m, c, hc, hrows⟩

lemma Told.item (h : Told c) : Flat (item c) ∧ Trimmed (item c) ∧ item c ≠ [] := by
  refine ⟨.append (by decide) h.flat, ⟨?_, fun d hd => h.trimmed.last d ?_⟩, by simp [Changelog.item]⟩
  · rintro _ ⟨⟩
    rfl
  · rwa [Changelog.item, getLast?_append_of_ne_nil _ h.filled] at hd

lemma titleRow_neat (k : CommitKind) : Flat (titleRow k) ∧ Trimmed (titleRow k) ∧ titleRow k ≠ [] := by
  cases k <;> exact ⟨by decide, ⟨by decide, by decide⟩, by decide⟩

lemma rows_lines (hcs : ∀ c ∈ cs, Told c) (hl : l ∈ rows cs) : Flat l ∧ Trimmed l ∧ ¬headingStart <+: l := by
  rcases mem_groups (mem_of_mem_dropLast hl) with rfl | ⟨k, rfl⟩ | ⟨c, hc, rfl⟩
  · exact ⟨by decide, trimmed_nil, by decide⟩
  · exact ⟨(titleRow_neat k).1, (titleRow_neat k).2.1, by cases k <;> decide⟩
  · refine ⟨(hcs c hc).item.1, (hcs c hc).item.2.1, ?_⟩
    rintro ⟨r, hr⟩
    cases hr

lemma body_spec (hne : cs ≠ []) (hcs : ∀ c ∈ cs, Told c) :
    body cs = unlines (rows cs) ∧ Neat (body cs) ∧ lines (body cs) = rows cs := by
  obtain ⟨hgroups, k, m, c, hc, hrows⟩ := rows_spec hne
  have hfilled : rows cs ≠ [] := by rw [hrows]; simp
  obtain ⟨htrimmed, hnil⟩ := trimmed_unlines hfilled
    (by rw [hrows]; rintro _ ⟨⟩; exact (titleRow_neat k).2)
    (by rw [hrows, getLast?_concat]; rintro _ ⟨⟩; exact (hcs c hc).item.2)
  have hbody : body cs = unlines (rows cs) := by
    have hfeed : unlines (groups cs) = unlines (rows cs) ++ ['\n'] := by
      rw [hgroups, unlines_append_cons, unlines_feed hfilled]
      simp [below, feed]
    rw [body, ← groups, hfeed]
    simpa using trim_of_split (l := []) rfl htrimmed rfl
  have hneat : Neat (body cs) := by
    rw [hbody]
    exact ⟨joinWith_fed (by decide) fun l hl => fed_of_flat (rows_lines hcs hl).1, htrimmed, hnil⟩
  refine ⟨hbody, hneat, ?_⟩
  rw [hneat.lines_eq, hbody]
  exact splitOnChar_joinWith hfilled fun l hl => (rows_lines hcs hl).1.not_mem

lemma tidy_body (hne : cs ≠ []) (hcs : ∀ c ∈ cs, Told c) : tidy (body cs) = body cs := by
  obtain ⟨hbody, hneat, hlines⟩ := body_spec hne hcs
  have hmap : (rows cs).map trim = rows cs := by
    refine (map_congr_left fun l hl => ?_).trans (map_id _)
    exact (rows_lines hcs hl).2.1.trim_eq
  rw [tidy, hneat.trimmed.trim_eq, hlines, hmap, hbody]

/-! ## How often a row occurs -/

lemma count_rows (hne : cs ≠ []) (c : Commit) : (rows cs).count (item c) = cs.countP (·.summary == c.summary) := by
  rw [← count_groups, (rows_spec hne).1]
  simp [item]

lemma rows_sublist (hne : cs ≠ []) (ds : List Commit) : rows cs <+ rows (ds ++ cs) := by
  have hgroups : groups cs <+ groups (ds ++ cs) := by
    refine .flatMap_right _ fun k _ => ?_
    have hown : cs.filter (·.kind == k) <+ (ds ++ cs).filter (·.kind == k) := (sublist_append_right ds cs).filter _
    rcases groupLines_cases cs k with ⟨-, hlines⟩ | ⟨hfew, hlines⟩
    · rw [hlines]
      exact nil_sublist _
    · rcases groupLines_cases (ds ++ cs) k with ⟨hnil, -⟩ | ⟨-, hmore⟩
      · rw [hnil, sublist_nil] at hown
        exact absurd hown hfew
      · rw [hlines, hmore]
        exact (((hown.map item).cons_cons []).cons_cons (titleRow k)).append_right [[]]
  rw [(rows_spec hne).1, (rows_spec (by simp [hne])).1] at hgroups
  exact (append_sublist_append_right _).mp hgroups

lemma body_not_infix (hne : cs ≠ []) (hds : ds ≠ []) (hcs : ∀ c ∈ ds ++ cs, Told c) : ¬body (ds ++ cs) <:+: body cs := by
  intro hinfix
  have hmore : ds ++ cs ≠ [] := by simp [hne]
  have hold : ∀ c ∈ cs, Told c := fun c hc => hcs c (mem_append_right _ hc)
  have hfeed : ∀ {cs}, cs ≠ [] → (∀ c ∈ cs, Told c) → feed (rows cs) = body cs ++ ['\n'] := by
    intro cs hne hcs
    obtain ⟨-, hneat, hlines⟩ := body_spec hne hcs
    rw [← hlines, hneat.feed_lines]
  have hsub : feed (rows cs) <+ feed (rows (ds ++ cs)) := (rows_sublist hne ds).flatMap _
  -- The longer list has no more rows, so it has the same ones; but a further commit has a row more.
  have heq : feed (rows cs) = feed (rows (ds ++ cs)) := by
    refine hsub.eq_of_length_le ?_
    rw [hfeed hne hold, hfeed hmore hcs, length_append, length_append]
    exact Nat.add_le_add_right hinfix.length_le _
  have hrows : rows cs = rows (ds ++ cs) := by
    rw [← lines_feed fun l hl => (rows_lines hold hl).1, heq, lines_feed fun l hl => (rows_lines hcs hl).1]
  obtain ⟨d, hd⟩ := exists_mem_of_ne_nil ds hds
  have hcount := count_rows hmore d
  rw [← hrows, count_rows hne, countP_append] at hcount
  have hpos := countP_summary_pos hd
  omega

/-! ## What git answers -/

/-- The answers to the two questions of a run: the latest tag, if there is one, and the subjects of the commits since then. -/
structure Answers (as : List ProcessAnswer) (subjects : List Text) (rest : List ProcessAnswer) : Prop where
  git : ∃ code tag err err', as = .done code tag err :: .done 0 (unlines subjects) err' :: rest ∧
    (rangeSince (if code = 0 then some (trim tag) else none)).all isRangeChar
  flat : ∀ s ∈ subjects, Flat s
  trimmed : Trimmed (unlines subjects)

variable {w : World} {as rest : List ProcessAnswer} {subjects : List Text} {ps : List Part}

def told (subjects : List Text) : List Commit := subjects.filterMap Commit.ofMessage?

lemma Answers.commits (h : Answers as subjects rest) : commitsOf (unlines subjects) = told subjects := by
  rw [commitsOf, h.trimmed.trim_eq]
  cases subjects with
  | nil => rfl
  | cons s ss => rw [unlines, splitOnChar_joinWith (by simp) fun l hl => (h.flat l hl).not_mem, told]

lemma summary_of_mem_told (h : c ∈ told subjects) : ∃ s ∈ subjects, c.summary ⊆ s ∧ Trimmed c.summary := by
  obtain ⟨s, hs, hc⟩ := mem_filterMap.mp h
  obtain ⟨k, -, rfl⟩ := Option.map_eq_some_iff.mp hc
  exact ⟨s, hs, fun d hd => mem_of_mem_drop (trim_subset _ hd), trimmed_trim _⟩

lemma told_told (hflat : ∀ s ∈ subjects, Flat s) (h : ∀ c ∈ told subjects, c.summary ≠ []) : ∀ c ∈ told subjects, Told c := by
  intro c hc
  obtain ⟨s, hs, hsub, htrimmed⟩ := summary_of_mem_told hc
  exact ⟨(hflat s hs).of_subset hsub, htrimmed, h c hc⟩

lemma run_nextProcess {a : ProcessAnswer} (h : w.processes = a :: rest) :
    nextProcess.run.run w = (.ok a, { w with processes := rest }) := by
  cases w
  cases h
  rfl

lemma run_startChecked {command : List Text} {out : Text}
    (h : w.processes = .done code out err :: rest) :
    (startChecked command none none).run.run w =
      (if code = 0 then .ok (out, err) else .error (.failed (.processFailed command code)),
        { w with processes := rest, calls := w.calls ++ [.process command none none] }) := by
  have hstart : (start command none none).run.run w =
      (.ok (code, out, err), { w with processes := rest, calls := w.calls ++ [.process command none none] }) := by
    have hnext := run_nextProcess (w := { w with calls := w.calls ++ [.process command none none] }) h
    rw [start, Run.run_bind]
    change (nextProcess >>= _).run.run { w with calls := w.calls ++ [.process command none none] } = _
    rw [Run.run_bind, hnext]
    rfl
  rw [startChecked, Run.run_bind, hstart]
  by_cases hcode : code = 0
  · subst hcode
    rfl
  · simp only [bne_iff_ne, ne_eq, hcode]
    rfl

lemma run_latestTag {tag : Text} (h : w.processes = .done code tag err :: rest) :
    ∃ calls, latestTag.run.run w =
      (.ok (if code = 0 then some (trim tag) else none), { w with processes := rest, calls := calls }) := by
  refine ⟨w.calls ++ [.process ["git", "describe", "--tags", "--abbrev=0"] none none], ?_⟩
  rw [latestTag, recover, Run.run_tryCatch, Run.run_bind, run_startChecked h]
  by_cases hcode : code = 0
  · rw [if_pos hcode, if_pos hcode]
    rfl
  · rw [if_neg hcode, if_neg hcode]
    rfl

lemma run_updateChangelog (h : Answers w.processes subjects rest) {sec : Text} {t : Tree}
    (hnone : told subjects = [] → sec = [] ∧ t = w.tree)
    (hsome : told subjects ≠ [] → ∀ printed calls,
      Ends (recordCommits v (told subjects)) { w with processes := rest, printed := printed, calls := calls } (.ok sec) t) :
    ∃ w', (updateChangelog v).run.run w = (.ok sec, w') ∧ w'.processes = rest ∧ w'.tree = t := by
  obtain ⟨code, tag, err, err', has, hrange⟩ := h.git
  obtain ⟨calls, htag⟩ := run_latestTag has
  rw [updateChangelog, Run.run_bind, htag]
  generalize (if code = 0 then some (trim tag) else none) = latest at hrange
  have hprint : ∀ text w, (print text).run.run w = (.ok (), { w with printed := w.printed ++ (text ++ "\n") }) := fun _ _ => rfl
  simp only [Run.run_bind, hprint, hrange, Bool.not_true, Bool.false_eq_true, if_false]
  rw [recover, Run.run_tryCatch, Run.run_bind, run_startChecked rfl, if_pos rfl]
  simp only [h.commits]
  cases hcommits : told subjects with
  | nil =>
    obtain ⟨rfl, rfl⟩ := hnone hcommits
    exact ⟨_, rfl, rfl, rfl⟩
  | cons c cs =>
    rw [hcommits] at hsome
    obtain ⟨printed, log, hends⟩ := hsome (cons_ne_nil c cs) (w.printed ++ ("Last Tag: " ++ shownTag latest ++ "\n"))
      (calls ++ [.process ["git", "log", rangeSince latest, "--pretty=format:%s"] none none])
    rw [hends]
    exact ⟨_, rfl, rfl, rfl⟩

/-! ## One run -/

lemma readable_file {t : Tree} {path old : Text} (h : t.readText path = .ok old) :
    t.pathExists path ∧ ∀ new, ∃ t', t.writeText path new = .ok t' := by
  obtain ⟨bs, hbs, -⟩ := ok_of_bind_ok h
  obtain ⟨p, hp, hfile⟩ := Tree.readBytes_iff.mp hbs
  constructor
  · simp only [Tree.pathExists, Tree.stat, hp, bind, Except.bind, hfile]
    rfl
  · intro new
    simp only [Tree.writeText, Tree.writeBytes, hp, bind, Except.bind, hfile]
    exact ⟨_, rfl⟩

lemma ends_save {message : Text} {t : Tree} (h : w.tree.writeText "changelog.md" (trim content ++ "\n") = .ok t) :
    Ends (do print message; change (·.writeText "changelog.md" (trim content ++ "\n")) : WorldM Unit) w (.ok ()) t := by
  refine (ends_print message).bind fun printed log => ⟨printed, log, ?_⟩
  rw [change, Run.run_bind]
  change ((settle (w.tree.writeText "changelog.md" (trim content ++ "\n"))) >>= _).run.run _ = _
  rw [h]
  rfl

lemma recordCommits_steps {u : Update} {t : Tree} (hfile : w.tree.readText "changelog.md" = .ok content)
    (hupdate : update v (body cs) content = .ok u)
    (hsave : ∀ w' : World, w'.tree = w.tree → match u with
      | .current => t = w'.tree
      | .extended new | .started new => w'.tree.writeText "changelog.md" (trim new ++ "\n") = .ok t) :
    Ends (recordCommits v cs) w (.ok (sectionText v (body cs))) t := by
  have hlook := ends_look (w := w) (·.readText "changelog.md")
  rw [hfile] at hlook
  refine .get ?_
  simp only [(readable_file hfile).1]
  refine hlook.bind fun printed log => ?_
  rw [hupdate]
  refine (ends_settle (.ok u)).bind fun printed log => ?_
  have hsave := hsave { w with printed := printed, log := log } rfl
  cases u with
  | current =>
    cases hsave
    exact (ends_print _).bind fun _ _ => ends_pure _
  | extended new => exact (ends_save hsave).bind fun _ _ => ends_pure _
  | started new => exact (ends_save hsave).bind fun _ _ => ends_pure _

lemma recordCommits_ends (hfile : w.tree.readText "changelog.md" = .ok (written ps)) (hps : Apart v ps) (hne : cs ≠ [])
    (hcs : ∀ c ∈ cs, Told c) (hplain : ∀ p ∈ ps, p.version = v → '\\' ∉ (p.extend (body cs)).text) :
    ∃ ps' t, Recorded v (body cs) ps ps' ∧ t.readText "changelog.md" = .ok (written ps') ∧
      ∀ w' : World, w'.tree = w.tree → Ends (recordCommits v cs) w' (.ok (sectionText v (body cs))) t := by
  obtain ⟨ps', u, hrecorded, hupdate, hfed, hu⟩ := update_recorded hps (body_spec hne hcs).2.1 hplain
  rcases hu with ⟨rfl, rfl⟩ | ⟨content, hu, hsaved⟩
  · refine ⟨_, w.tree, hrecorded, hfile, fun w' hw => ?_⟩
    exact recordCommits_steps (by rwa [hw]) hupdate fun w'' hw' => (hw'.trans hw).symm
  · obtain ⟨t, ht⟩ := (readable_file hfile).2 (trim content ++ ['\n'])
    have hreturn : '\r' ∉ trim content ++ ['\n'] := by
      rw [hsaved]
      exact fun hr => absurd (hfed _ hr (by decide)) (by decide)
    refine ⟨ps', t, hrecorded, by rw [Tree.readText_writeText hfile hreturn ht, hsaved], fun w' hw => ?_⟩
    refine recordCommits_steps (by rwa [hw]) hupdate fun w'' hw' => ?_
    rw [hw', hw]
    rcases hu with rfl | rfl
    · exact ht
    · exact ht

lemma mem_unlines {ls : List Text} (h : x ∈ unlines ls) : x = '\n' ∨ ∃ l ∈ ls, x ∈ l := by
  rw [unlines] at h
  fun_induction joinWith _ ls with
  | case1 => cases h
  | case2 l => exact .inr ⟨l, mem_cons_self, h⟩
  | case3 l m ls ih =>
    simp only [mem_append] at h
    rcases h with (h | h) | h
    · exact .inr ⟨l, mem_cons_self, h⟩
    · exact .inl (by simpa using h)
    · rcases ih h with h | ⟨k, hk, hx⟩
      · exact .inl h
      · exact .inr ⟨k, mem_cons_of_mem _ hk, hx⟩

lemma mem_tidy {t : Text} (h : x ∈ tidy t) : x = '\n' ∨ x ∈ t := by
  rcases mem_unlines h with h | ⟨_, hl, hx⟩
  · exact .inl h
  · obtain ⟨l, hrow, rfl⟩ := mem_map.mp hl
    exact .inr (trim_subset _ ((mem_lines hrow).1 (trim_subset _ hx)))

lemma plain_body (hx : x = '\\' ∨ x = '\r') (h : ∀ s ∈ subjects, x ∉ s) : x ∉ body (told subjects) := by
  intro hmem
  rcases mem_unlines (trim_subset _ hmem) with rfl | ⟨l, hl, hmem⟩
  · revert hx
    decide
  · rcases mem_groups hl with rfl | ⟨k, rfl⟩ | ⟨c, hc, rfl⟩
    · cases hmem
    · rcases hx with rfl | rfl <;> exact absurd hmem (by cases k <;> decide)
    · obtain ⟨s, hs, hsub, -⟩ := summary_of_mem_told hc
      exact h s hs (hsub ((mem_append.mp hmem).resolve_left (by rcases hx with rfl | rfl <;> decide)))

lemma plain_extend (hp : '\\' ∉ p.text) (hnew : '\\' ∉ new) : '\\' ∉ (p.extend new).text := by
  rw [text_eq] at hp ⊢
  simp only [mem_append, mem_cons, not_or, Part.extend] at hp ⊢
  refine ⟨⟨hp.1.1, by decide, by decide, fun h => ?_⟩, hp.2⟩
  have h := trim_subset _ h
  simp only [mem_append] at h
  rcases h with (h | h) | h
  · rcases mem_tidy h with h | h
    · cases h
    · exact hp.1.2.2.2 h
  · exact absurd h (by decide)
  · rcases mem_tidy h with h | h
    · cases h
    · exact hnew h

lemma updateChangelog_step (hgit : Answers w.processes subjects rest)
    (hfile : w.tree.readText "changelog.md" = .ok (written ps)) (hps : Apart v ps)
    (hsummary : ∀ c ∈ told subjects, c.summary ≠ [])
    (hplain : ∀ p ∈ ps, p.version = v → '\\' ∉ p.text ∧ ∀ s ∈ subjects, '\\' ∉ s) :
    ∃ sec w' ps', (updateChangelog v).run.run w = (.ok sec, w') ∧ w'.processes = rest ∧
      w'.tree.readText "changelog.md" = .ok (written ps') ∧
      if told subjects = [] then ps' = ps else Recorded v (body (told subjects)) ps ps' := by
  by_cases hnone : told subjects = []
  · obtain ⟨w', hrun, hrest, htree⟩ := run_updateChangelog hgit (fun _ => ⟨rfl, rfl⟩) fun hne => absurd hnone hne
    refine ⟨_, w', ps, hrun, hrest, by rwa [htree], ?_⟩
    rw [if_pos hnone]
  · have hplain' : ∀ p ∈ ps, p.version = v → '\\' ∉ (p.extend (body (told subjects))).text := by
      intro p hp hversion
      obtain ⟨htext, hsubjects⟩ := hplain p hp hversion
      exact plain_extend htext (plain_body (.inl rfl) hsubjects)
    obtain ⟨ps', t, hrecorded, hread, hends⟩ := recordCommits_ends hfile hps hnone (told_told hgit.flat hsummary) hplain'
    obtain ⟨w', hrun, hrest, htree⟩ := run_updateChangelog hgit (fun h => absurd h hnone) fun _ printed calls => hends _ rfl
    refine ⟨_, w', ps', hrun, hrest, by rwa [htree], ?_⟩
    rwa [if_neg hnone]

lemma Recorded.others (h : Recorded v new ps ps') : ps'.filter (·.version ≠ v) = ps.filter (·.version ≠ v) := by
  cases h with
  | started => simp
  | current => rfl
  | extended hversion => simp [Part.extend, hversion]

lemma Recorded.items_iff (h : Recorded v (body cs) ps ps') (hps : Apart v ps) (hne : cs ≠ [])
    (hcs : ∀ c ∈ cs, Told c) :
    (∃ p ∈ ps', p.version = v ∧ ∀ c ∈ cs, item c ∈ lines p.body) ↔
      ∀ p ∈ ps, p.version = v → body cs <:+: tidy p.body → ∀ c ∈ cs, item c ∈ lines p.body := by
  obtain ⟨-, hneat, hlines⟩ := body_spec hne hcs
  have hrow : ∀ c ∈ cs, item c ∈ lines (body cs) := by
    intro c hc
    rw [hlines, ← count_pos_iff, count_rows hne]
    exact countP_summary_pos hc
  cases h with
  | started hother =>
    exact ⟨fun _ p hp hversion => absurd hversion (hother p hp), fun _ => ⟨_, mem_cons_self, rfl, hrow⟩⟩
  | @current front back p hversion hheld =>
    rw [tidy_body hne hcs] at hheld
    refine ⟨?_, fun hall => ⟨p, by simp, hversion, hall p (by simp) hversion hheld⟩⟩
    rintro ⟨p', hp', hversion', hitems⟩ q hq hq' -
    obtain rfl := inj_on_of_nodup_map hps.nodup hp' hq (hversion'.trans hq'.symm)
    exact hitems
  | @extended front back p hversion hheld =>
    rw [tidy_body hne hcs] at hheld
    refine ⟨fun _ q hq hq' hq'' => ?_, fun _ => ⟨p.extend (body cs), by simp, hversion, fun c hc => ?_⟩⟩
    · obtain rfl := inj_on_of_nodup_map hps.nodup hq (by simp) (hq'.trans hversion.symm)
      exact absurd hq'' hheld
    · have hp : Neat p.body := (hps.proper p (by simp)).neat
      rw [(neat_extend hp hneat).2, tidy_body hne hcs, hp.tidy.lines_join hneat]
      exact mem_append_right _ (hrow c hc)

/-- Over parts that can be told apart, a run that git answers ends well and keeps the parts of other versions; and its version's
part has a row for each commit exactly if it did not hold the new body as a stretch of text before while it lacked such a row. -/
theorem updateChangelog_rows_iff (hgit : Answers w.processes subjects rest)
    (hfile : w.tree.readText "changelog.md" = .ok (written ps)) (hps : Apart v ps)
    (hsummary : ∀ c ∈ told subjects, c.summary ≠ [])
    (hplain : ∀ p ∈ ps, p.version = v → '\\' ∉ p.text ∧ ∀ s ∈ subjects, '\\' ∉ s) :
    ∃ sec w' ps', (updateChangelog v).run.run w = (.ok sec, w') ∧ w'.tree.readText "changelog.md" = .ok (written ps') ∧
      ps'.filter (·.version ≠ v) = ps.filter (·.version ≠ v) ∧
      ((told subjects ≠ [] → ∃ p ∈ ps', p.version = v ∧ ∀ c ∈ told subjects, item c ∈ lines p.body) ↔
        ∀ p ∈ ps, p.version = v → body (told subjects) <:+: tidy p.body → ∀ c ∈ told subjects, item c ∈ lines p.body) := by
  obtain ⟨sec, w', ps', hrun, -, hread, hparts⟩ := updateChangelog_step hgit hfile hps hsummary hplain
  refine ⟨sec, w', ps', hrun, hread, ?_⟩
  by_cases hnone : told subjects = []
  · rw [if_pos hnone] at hparts
    exact ⟨by rw [hparts], by simp [hnone]⟩
  · rw [if_neg hnone] at hparts
    refine ⟨hparts.others, ?_⟩
    rw [← hparts.items_iff hps hnone (told_told hgit.flat hsummary)]
    exact ⟨fun h => h hnone, fun h _ => h⟩

/-- A changelog in the working directory, and what git answers there run after run. -/
def atChangelog (ps : List Part) (logs : List Text) : World :=
  { tree := ⟨[(["changelog.md"], .file (Bytes.ofText (written ps)))], []⟩
    processes := logs.flatMap fun log => [.done 0 "0.9\n" [], .done 0 log []] }

def olderPart : Part := ⟨"0.9", "## Bug Fixes\n\n* cd"⟩

lemma olderPart_proper : olderPart.Proper "1.0" := by
  refine ⟨by decide, ⟨by decide, ⟨by decide, by decide⟩, by decide⟩, by decide, by decide⟩

/-- A longer summary than one that is there gets its row. -/
theorem updateChangelog_adds_row :
    (⟨"1.0", "## Features\n\n* ab"⟩ : Part).Proper "1.0" ∧ told ["feat: abc"] = [⟨.feature, "abc"⟩] ∧
      ∃ sec w' ps', (updateChangelog "1.0").run.run (atChangelog [⟨"1.0", "## Features\n\n* ab"⟩, olderPart] ["feat: abc"]) =
          (.ok sec, w') ∧ w'.tree.readText "changelog.md" = .ok (written ps') ∧
        ps'.filter (·.version ≠ "1.0".toList) = [olderPart] ∧
        ∃ p ∈ ps', p.version = "1.0" ∧ ∀ c ∈ told ["feat: abc"], item c ∈ lines p.body := by
  have hproper : (⟨"1.0", "## Features\n\n* ab"⟩ : Part).Proper "1.0" :=
    ⟨by decide, ⟨by decide, ⟨by decide, by decide⟩, by decide⟩, by decide, by decide⟩
  have hgit : Answers (atChangelog [⟨"1.0", "## Features\n\n* ab"⟩, olderPart] ["feat: abc"]).processes ["feat: abc"] [] :=
    ⟨⟨0, "0.9\n", [], [], rfl, by decide⟩, by decide, ⟨by decide, by decide⟩⟩
  have hfile : (atChangelog [⟨"1.0", "## Features\n\n* ab"⟩, olderPart] ["feat: abc"]).tree.readText "changelog.md" =
      .ok (written [⟨"1.0", "## Features\n\n* ab"⟩, olderPart]) := by decide +kernel
  obtain ⟨sec, w', ps', hrun, hread, hothers, hiff⟩ := updateChangelog_rows_iff (v := "1.0") hgit hfile
    ⟨by decide, by simpa using ⟨hproper, olderPart_proper⟩, by decide⟩ (by decide) (by decide)
  exact ⟨hproper, by decide, sec, w', ps', hrun, hread, hothers, hiff.mpr (by decide) (by decide)⟩

/-- The rows for a commit may be a stretch of the text for another one; then the commit is left out. -/
theorem updateChangelog_drops_row :
    told ["feat: ab"] = [⟨.feature, "ab"⟩] ∧
      ((updateChangelog "1.0").run.run (atChangelog [⟨"1.0", "## Features\n\n* abc"⟩] ["feat: ab"])).2.tree.readText
        "changelog.md" = .ok (written [⟨"1.0", "## Features\n\n* abc"⟩]) ∧
      item ⟨.feature, "ab"⟩ ∉ lines (written [⟨"1.0", "## Features\n\n* abc"⟩]) := by
  decide

/-! ## Two runs -/

lemma Recorded.of_absent (h : Recorded v new ps ps') (hps : ∀ p ∈ ps, p.version ≠ v) : ps' = ⟨v, new⟩ :: ps := by
  cases h with
  | started => rfl
  | current hversion => exact absurd hversion (hps _ (by simp))
  | extended hversion => exact absurd hversion (hps _ (by simp))

lemma Recorded.of_head (h : Recorded p.version new (p :: ps) ps')
    (hps : ∀ q ∈ ps, q.version ≠ p.version) :
    tidy new <:+: tidy p.body ∧ ps' = p :: ps ∨ ¬tidy new <:+: tidy p.body ∧ ps' = p.extend new :: ps := by
  generalize hall : p :: ps = qs at h
  cases h with
  | started hother => exact absurd rfl (hother p (by rw [← hall]; simp))
  | @current front back q hversion hheld =>
    cases front with
    | nil => cases hall; exact .inl ⟨hheld, rfl⟩
    | cons r front => cases hall; exact absurd hversion (hps q (by simp))
  | @extended front back q hversion hheld =>
    cases front with
    | nil => cases hall; exact .inr ⟨hheld, rfl⟩
    | cons r front => cases hall; exact absurd hversion (hps q (by simp))

lemma proper_body (hv : Flat v) (hne : cs ≠ []) (hcs : ∀ c ∈ cs, Told c) : (⟨v, body cs⟩ : Part).Proper v := by
  obtain ⟨-, hneat, hlines⟩ := body_spec hne hcs
  refine ⟨hv, hneat, fun l hl => ?_, fun h => absurd rfl h⟩
  rw [hlines] at hl
  exact (rows_lines hcs hl).2.2

lemma lines_extend_body (hne : cs ≠ []) (hcs : ∀ c ∈ cs, Told c) (hds : ds ≠ []) (hds' : ∀ c ∈ ds, Told c) :
    lines (Part.extend ⟨v, body cs⟩ (body ds)).body = rows cs ++ rows ds := by
  obtain ⟨-, hneat, hlines⟩ := body_spec hne hcs
  obtain ⟨-, hneat', hlines'⟩ := body_spec hds hds'
  rw [(neat_extend hneat hneat').2, tidy_body hne hcs, tidy_body hds hds', hneat.lines_join hneat', hlines, hlines']

lemma Recorded.again_iff (h : Recorded v (body (ds ++ cs)) (⟨v, body cs⟩ :: ps) ps')
    (hps : ∀ p ∈ ps, p.version ≠ v) (hne : cs ≠ []) (hcs : ∀ c ∈ ds ++ cs, Told c) :
    (∀ c ∈ ds ++ cs, ∃ p ∈ ps', p.version = v ∧
      (lines p.body).count (item c) = (ds ++ cs).countP (·.summary == c.summary)) ↔ ds = [] := by
  have hold : ∀ c ∈ cs, Told c := fun c hc => hcs c (mem_append_right _ hc)
  have hmore : ds ++ cs ≠ [] := by simp [hne]
  rcases Recorded.of_head (p := ⟨v, body cs⟩) h hps with ⟨hheld, rfl⟩ | ⟨hlacks, rfl⟩
  · rw [tidy_body hmore hcs, tidy_body hne hold] at hheld
    have hds : ds = [] := by
      by_contra hds
      exact body_not_infix hne hds hcs hheld
    refine iff_of_true (fun c _ => ⟨_, mem_cons_self, rfl, ?_⟩) hds
    rw [hds, nil_append, (body_spec hne hold).2.2, count_rows hne]
  · refine iff_of_false (fun hcount => ?_) fun hds => hlacks (by rw [hds]; exact infix_refl _)
    obtain ⟨c, hc⟩ := exists_mem_of_ne_nil cs hne
    obtain ⟨p, hp, hversion, hrows⟩ := hcount c (mem_append_right _ hc)
    obtain rfl := (mem_cons.mp hp).resolve_right fun hmem => hps p hmem hversion
    rw [lines_extend_body hne hold hmore hcs, count_append, count_rows hne, count_rows hmore] at hrows
    have hpos := countP_summary_pos hc
    omega

/-- In a changelog without the version, two runs, the second with newer commits before those of the first, leave a row for each
commit of the second exactly as often as its summary occurs among them if and only if one of the runs had nothing new to tell. -/
theorem updateChangelog_again_iff {newer older : List Text} {mid : List ProcessAnswer}
    (hfirst : Answers w.processes older mid) (hsecond : Answers mid (newer ++ older) rest)
    (hfile : w.tree.readText "changelog.md" = .ok (written ps)) (hps : Apart v ps) (habsent : ∀ p ∈ ps, p.version ≠ v)
    (hsummary : ∀ c ∈ told (newer ++ older), c.summary ≠ []) (hversion : '\\' ∉ v) (hplain : ∀ s ∈ newer ++ older, '\\' ∉ s) :
    ∃ sec sec' w' w'' ps', (updateChangelog v).run.run w = (.ok sec, w') ∧ (updateChangelog v).run.run w' = (.ok sec', w'') ∧
      w''.tree.readText "changelog.md" = .ok (written ps') ∧ ps'.filter (·.version ≠ v) = ps ∧
      ((∀ c ∈ told (newer ++ older), ∃ p ∈ ps', p.version = v ∧
          (lines p.body).count (item c) = (told (newer ++ older)).countP (·.summary == c.summary)) ↔
        told older = [] ∨ told newer = []) := by
  have htold : told (newer ++ older) = told newer ++ told older := filterMap_append
  have hall := told_told hsecond.flat hsummary
  have hsame : ps.filter (·.version ≠ v) = ps := filter_eq_self.mpr fun p hp => by simpa using habsent p hp
  obtain ⟨sec, w', ps₁, hrun, hmid, hread, hparts⟩ := updateChangelog_step hfirst hfile hps
    (fun c hc => hsummary c (by rw [htold]; exact mem_append_right _ hc)) fun p hp h => absurd h (habsent p hp)
  rw [← hmid] at hsecond
  by_cases hold : told older = []
  · -- The first run changes nothing, so the second one starts a part.
    rw [if_pos hold] at hparts
    obtain rfl := hparts
    obtain ⟨sec', w'', ps₂, hrun', -, hread', hparts'⟩ := updateChangelog_step hsecond hread hps hsummary
      fun p hp h => absurd h (habsent p hp)
    refine ⟨sec, sec', w', w'', ps₂, hrun, hrun', hread', ?_⟩
    split at hparts'
    · next hnone => exact ⟨by rw [hparts', hsame], iff_of_true (by simp [hnone]) (.inl hold)⟩
    · next hsome =>
      obtain rfl := hparts'.of_absent habsent
      refine ⟨hparts'.others.trans hsame, iff_of_true (fun c _ => ⟨_, mem_cons_self, rfl, ?_⟩) (.inl hold)⟩
      rw [(body_spec hsome hall).2.2, count_rows hsome]
  · rw [if_neg hold] at hparts
    obtain rfl := hparts.of_absent habsent
    have htold' : ∀ c ∈ told older, Told c := fun c hc => hall c (by rw [htold]; exact mem_append_right _ hc)
    have hps' : Apart v (⟨v, body (told older)⟩ :: ps) :=
      Apart.cons (p := ⟨v, body (told older)⟩) hps (proper_body hps.version hold htold') habsent
    have hplain' : ∀ p ∈ ⟨v, body (told older)⟩ :: ps, p.version = v → '\\' ∉ p.text ∧ ∀ s ∈ newer ++ older, '\\' ∉ s := by
      refine fun p hp hpv => ⟨?_, hplain⟩
      obtain rfl := (mem_cons.mp hp).resolve_right fun hmem => habsent p hmem hpv
      have hbody : '\\' ∉ body (told older) := plain_body (.inl rfl) fun s hs => hplain s (mem_append_right _ hs)
      rw [text_eq]
      simp only [mem_append, mem_cons, not_or, heading]
      exact ⟨⟨⟨by decide, hversion⟩, by decide, by decide, hbody⟩, by decide, by simp⟩
    obtain ⟨sec', w'', ps₂, hrun', -, hread', hparts'⟩ :=
      updateChangelog_step hsecond hread hps' hsummary hplain'
    rw [if_neg (by rw [htold]; simp [hold]), htold] at hparts'
    refine ⟨sec, sec', w', w'', ps₂, hrun, hrun', hread', ?_, ?_⟩
    · exact hparts'.others.trans (hparts.others.trans hsame)
    · rw [htold] at hall ⊢
      rw [hparts'.again_iff habsent hold hall]
      exact ⟨.inr, fun h => h.resolve_left hold⟩

/-- A second run with a commit of no kind repeats nothing. -/
theorem updateChangelog_again_same :
    told ["wip", "feat: a"] = [⟨.feature, "a"⟩] ∧
      ∃ sec sec' w' w'' ps', (updateChangelog "1.0").run.run (atChangelog [olderPart] ["feat: a", "wip\nfeat: a"]) = (.ok sec, w') ∧
        (updateChangelog "1.0").run.run w' = (.ok sec', w'') ∧ w''.tree.readText "changelog.md" = .ok (written ps') ∧
        ps'.filter (·.version ≠ "1.0".toList) = [olderPart] ∧
        ∀ c ∈ told ["wip", "feat: a"], ∃ p ∈ ps', p.version = "1.0" ∧
          (lines p.body).count (item c) = (told ["wip", "feat: a"]).countP (·.summary == c.summary) := by
  have hfirst : Answers (atChangelog [olderPart] ["feat: a", "wip\nfeat: a"]).processes ["feat: a"]
      [.done 0 "0.9\n" [], .done 0 "wip\nfeat: a" []] :=
    ⟨⟨0, "0.9\n", [], [], rfl, by decide⟩, by decide, ⟨by decide, by decide⟩⟩
  have hsecond : Answers [.done 0 "0.9\n" [], .done 0 "wip\nfeat: a" []] (["wip"] ++ ["feat: a"]) [] :=
    ⟨⟨0, "0.9\n", [], [], rfl, by decide⟩, by decide, ⟨by decide, by decide⟩⟩
  have hfile : (atChangelog [olderPart] ["feat: a", "wip\nfeat: a"]).tree.readText "changelog.md" = .ok (written [olderPart]) := by
    decide
  obtain ⟨sec, sec', w', w'', ps', hrun, hrun', hread, hothers, hiff⟩ := updateChangelog_again_iff (v := "1.0") hfirst hsecond
    hfile ⟨by decide, by simpa using olderPart_proper, by decide⟩ (by decide) (by decide) (by decide) (by decide)
  exact ⟨by decide, sec, sec', w', w'', ps', hrun, hrun', hread, hothers, hiff.mpr (.inr (by decide))⟩

/-- A second run with a newer commit tells the older one again. -/
theorem updateChangelog_again_repeats :
    let second := ((updateChangelog "1.0").run.run
      ((updateChangelog "1.0").run.run (atChangelog [olderPart] ["feat: a", "feat: b\nfeat: a"])).2).2
    second.tree.readText "changelog.md" =
        .ok (written [⟨"1.0", "## Features\n\n* a\n## Features\n\n* b\n* a"⟩, olderPart]) ∧
      (lines "## Features\n\n* a\n## Features\n\n* b\n* a").count (item ⟨.feature, "a"⟩) = 2 ∧
      (told ["feat: b", "feat: a"]).countP (·.summary == "a".toList) = 1 := by
  decide +kernel

end FunctionDocs.Release.Changelog
