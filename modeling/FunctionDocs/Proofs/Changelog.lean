import FunctionDocs.Proofs.Code
import FunctionDocs.Proofs.World
import FunctionDocs.Release.Installer

/-!
# The parts of a changelog

A changelog is written from its parts, one for each version. The search for the section of a version passes over the parts of
all others, so an update finds, replaces or leaves out the part of its own version alone.
-/

open List

namespace FunctionDocs.Release

open Text Code DocBlock

/-! ## Templates without escapes -/

namespace Template

variable {t : Text}

lemma units_plain (h : '\\' ∉ t) (n : Nat) : units t n = .ok (t.map ([·])) := by
  fun_induction units t n with
  | case1 => rfl
  | case2 => exact absurd mem_cons_self h
  | case3 => exact absurd mem_cons_self h
  | case4 n c r _ _ ih =>
    rw [ih fun hr => h (mem_cons_of_mem _ hr)]
    rfl

lemma piecesFrom_plain {groups fuel : Nat} (hfuel : t.length < fuel) (n : Nat) :
    piecesFrom groups fuel (t.map ([·])) n = .ok (t.map fun c => .text [c]) := by
  induction t generalizing fuel n with
  | nil =>
    obtain ⟨fuel, rfl⟩ := Nat.exists_eq_add_of_lt hfuel
    rfl
  | cons c r ih =>
    obtain ⟨fuel, rfl⟩ : ∃ k, fuel = k + 1 := ⟨fuel - 1, by rw [length_cons] at hfuel; omega⟩
    rw [map_cons, piecesFrom]
    · rw [ih (by rw [length_cons] at hfuel; omega)]
      rfl
    all_goals simp

lemma parse_plain (h : '\\' ∉ t) (groups : Nat) : ∃ ps, parse groups t = .ok ps ∧ ∀ f, expand f ps = t := by
  refine ⟨t.map fun c => .text [c], ?_, fun f => ?_⟩
  · have hpieces : (do let us ← (.ok (t.map ([·])) : Except Fault (List Text)); piecesFrom groups (us.length + 1) us 0) =
        .ok (t.map fun c => .text [c]) := piecesFrom_plain (by simp) 0
    rw [parse, units_plain h, hpieces]
  · simp [expand, flatMap_map]

end Template

namespace Changelog

variable {ls : List Text} {t v x y : Text} {l b : Text} {c : Char}

/-! ## The search for a section -/

lemma sectionAt_none (h : ¬heading v ++ ['\n'] <+: t) : sectionAt? v t = none := if_neg (mt startsWith_iff.mp h)

lemma linesToSection_line (h : '\n' ∉ l) (t : Text) :
    linesToSection false (l ++ '\n' :: t) = (linesToSection true t).map (l ++ '\n' :: ·) := by
  induction l with
  | nil => rfl
  | cons c l ih =>
    rw [mem_cons, not_or] at h
    have hc : (c == '\n') = false := beq_false_of_ne (symm h.1)
    rw [cons_append, linesToSection, hc, ih h.2, Option.map_map]
    rfl

lemma linesToSection_start {r : Text} (h : ¬headingStart <+: c :: r) :
    linesToSection true (c :: r) = linesToSection false (c :: r) := by
  rw [linesToSection, linesToSection, Bool.true_and, if_neg (mt startsWith_iff.mp h), Bool.false_and, if_neg Bool.false_ne_true]

lemma linesToSection_feed (hls : ∀ l ∈ ls, Flat l ∧ ¬headingStart <+: l) (ht : t = [] ∨ headingStart <+: t) :
    linesToSection true (feed ls ++ t) = some (feed ls) := by
  induction ls with
  | nil =>
    rcases ht with rfl | ⟨r, rfl⟩
    · rfl
    · rfl
  | cons l ls ih =>
    obtain ⟨⟨hl, hstart⟩, hls⟩ := forall_mem_cons.mp hls
    have hline : ¬headingStart <+: l ++ '\n' :: (feed ls ++ t) := by
      rwa [prefix_append_cons_iff (by decide)]
    obtain ⟨c, r, hcr⟩ : ∃ c r, l ++ '\n' :: (feed ls ++ t) = c :: r := exists_cons_of_ne_nil (by simp)
    rw [feed_cons, append_assoc, cons_append, hcr, linesToSection_start (hcr ▸ hline), ← hcr, linesToSection_line hl.not_mem, ih hls]
    rfl

/-- The search for the section of a version goes over a text, whatever follows. -/
structure Passes (v x : Text) : Prop where
  find : ∀ t, findSection? v (x ++ t) = findSection? v t
  replace : ∀ new t, replaceSections v new 0 (x ++ t) = x ++ replaceSections v new 0 t

lemma passes_nil (v : Text) : Passes v [] := ⟨fun _ => rfl, fun _ _ => rfl⟩

lemma Passes.append (hx : Passes v x) (hy : Passes v y) : Passes v (x ++ y) :=
  ⟨fun t => by rw [append_assoc, hx.find, hy.find], fun new t => by rw [append_assoc, hx.replace, hy.replace, append_assoc]⟩

lemma passes_cons (h : ∀ t, sectionAt? v (c :: x ++ t) = none) (hx : Passes v x) : Passes v (c :: x) := by
  constructor
  · intro t
    have hc := h t
    rw [cons_append] at hc ⊢
    rw [findSection?, hc, hx.find]
    rfl
  · intro new t
    have hc := h t
    rw [cons_append] at hc ⊢
    rw [replaceSections, hc, hx.replace]
    rfl

lemma flat_heading (hv : Flat v) : Flat (heading v) := .append (by decide) hv

lemma passes_feed (v : Text) : Passes v ['\n'] := by
  refine passes_cons (fun t => sectionAt_none ?_) (passes_nil v)
  rintro ⟨r, hr⟩
  cases hr

lemma passes_lines (hv : Flat v) (hx : x.getLast? = some '\n') (h : ¬heading v ++ ['\n'] <:+: x) : Passes v x := by
  induction x with
  | nil => cases hx
  | cons c x ih =>
    have hnone : ∀ t, sectionAt? v (c :: x ++ t) = none := by
      intro t
      -- The line feed of a heading is its last character, and so it cannot lie beyond that of the text.
      refine sectionAt_none fun hp => h ?_
      rcases prefix_or_prefix_of_prefix hp (prefix_append _ _) with hpre | hpre
      · exact hpre.isInfix
      · rcases prefix_concat_iff.mp hpre with heq | hpre
        · exact ⟨[], [], by rw [heq]; simp⟩
        · exact absurd (hpre.subset (mem_of_getLast? hx)) (flat_heading hv).not_mem
    refine passes_cons hnone ?_
    cases x with
    | nil => exact passes_nil v
    | cons d x => exact ih (by rwa [getLast?_cons_cons] at hx) fun hi => h (hi.trans (suffix_cons _ _).isInfix)

lemma replaceSections_skip (new : Text → Text) (x t : Text) :
    replaceSections v new x.length (x ++ t) = replaceSections v new 0 t := by
  induction x with
  | nil => rfl
  | cons c x ih => exact ih

lemma findSection_front {s : Text} (hs : s ≠ []) (h : sectionAt? v (s ++ t) = some s) : findSection? v (s ++ t) = some s := by
  obtain ⟨c, r, rfl⟩ := exists_cons_of_ne_nil hs
  rw [cons_append] at h ⊢
  rw [findSection?, h]
  rfl

lemma replaceSections_front {new : Text → Text} {s : Text} (hs : s ≠ []) (h : sectionAt? v (s ++ t) = some s) :
    replaceSections v new 0 (s ++ t) = new s ++ replaceSections v new 0 t := by
  obtain ⟨c, r, rfl⟩ := exists_cons_of_ne_nil hs
  rw [cons_append] at h ⊢
  rw [replaceSections, h]
  exact congrArg _ (replaceSections_skip new r t)

/-! ## Neat texts -/

/-- A text on lines, without white space around it. -/
structure Neat (t : Text) : Prop where
  fed : Fed t
  trimmed : Trimmed t
  filled : t ≠ []

lemma Neat.last (h : Neat t) : ∃ c, t.getLast? = some c ∧ c ≠ '\n' := by
  refine ⟨t.getLast h.filled, getLast?_eq_some_getLast h.filled, fun hc => ?_⟩
  have hlast := h.trimmed.last _ (getLast?_eq_some_getLast h.filled)
  rw [hc] at hlast
  cases hlast

lemma Neat.lines_eq (h : Neat t) : lines t = splitOnChar '\n' t := lines_eq_splitOnChar h.fed h.last

lemma Neat.feed_lines (h : Neat t) : feed (lines t) = t ++ ['\n'] := by
  rcases Code.feed_lines h.fed with heq | heq
  · obtain ⟨c, hc, hne⟩ := h.last
    have hlines : lines t ≠ [] := by rw [h.lines_eq]; exact splitOnChar_ne_nil _ _
    rw [← heq, ← unlines_feed hlines, getLast?_concat] at hc
    exact absurd (Option.some.inj hc).symm hne
  · exact heq

lemma Neat.unlines_lines (h : Neat t) : unlines (lines t) = t := by
  have hlines : lines t ≠ [] := by rw [h.lines_eq]; exact splitOnChar_ne_nil _ _
  exact append_cancel_right ((unlines_feed hlines).trans h.feed_lines)

lemma Neat.trim_feed (h : Neat t) (hb : isBlankLine b) : trim (t ++ b) = t := by
  rw [trim_append_blank hb, h.trimmed.trim_eq]

lemma trimmed_below {u : Text} {s : Char} (ht : Trimmed t) (htne : t ≠ []) (hu : Trimmed u) (hune : u ≠ []) :
    Trimmed (t ++ s :: u) := by
  constructor
  · intro c hc
    rw [head?_append_of_ne_nil _ htne] at hc
    exact ht.head c hc
  · intro c hc
    rw [getLast?_append_of_ne_nil _ (by simp), getLast?_cons_of_ne_nil hune] at hc
    exact hu.last c hc

lemma Neat.join (ht : Neat t) (hx : Neat x) : Neat (t ++ '\n' :: x) :=
  ⟨ht.fed.append (fed_cons hx.fed), trimmed_below ht.trimmed ht.filled hx.trimmed hx.filled, by simp⟩

lemma Neat.lines_join (ht : Neat t) (hx : Neat x) : lines (t ++ '\n' :: x) = lines t ++ lines x := by
  rw [(ht.join hx).lines_eq, splitOnChar_append_cons, ← ht.lines_eq, ← hx.lines_eq]

lemma trimmed_unlines (hne : ls ≠ []) (hhead : ∀ l ∈ ls.head?, Trimmed l ∧ l ≠ [])
    (hlast : ∀ l ∈ ls.getLast?, Trimmed l ∧ l ≠ []) : Trimmed (unlines ls) ∧ unlines ls ≠ [] := by
  obtain ⟨l, ms, hfirst⟩ := exists_cons_of_ne_nil hne
  obtain ⟨hl, hlne⟩ := hhead l (by rw [hfirst]; rfl)
  obtain ⟨init, m, hend⟩ := (eq_nil_or_concat' ls).resolve_left hne
  obtain ⟨hm, hmne⟩ := hlast m (by rw [hend, getLast?_concat]; rfl)
  have hfront : unlines ls = l ++ below ms := by rw [hfirst]; exact unlines_append_cons [] l ms
  have hback : unlines ls = feed init ++ m := by rw [hend, unlines_append_cons]; simp [below, feed]
  refine ⟨⟨fun c hc => hl.head c ?_, fun c hc => hm.last c ?_⟩, by rw [hfront]; simp [hlne]⟩
  · rwa [hfront, head?_append_of_ne_nil _ hlne] at hc
  · rwa [hback, getLast?_append_of_ne_nil _ hmne] at hc

lemma Neat.head_row (h : Neat t) (hl : l ∈ (lines t).head?) : trim l ≠ [] := by
  intro hblank
  rw [trim_eq_nil_iff, isBlankLine_iff] at hblank
  obtain ⟨ms, hms⟩ := head?_eq_some_iff.mp hl
  have ht : l ++ below ms = t := by
    rw [← h.unlines_lines, hms]
    exact (unlines_append_cons [] l ms).symm
  have hhead : ∀ c, t.head? = some c → isBlank c := by
    intro c hc
    rw [← ht] at hc
    cases l with
    | nil =>
      cases ms with
      | nil => cases hc
      | cons m ms => cases hc; rfl
    | cons d l => cases hc; exact hblank c mem_cons_self
  obtain ⟨c, r, rfl⟩ := exists_cons_of_ne_nil h.filled
  exact absurd (hhead c rfl) (by rw [h.trimmed.head c rfl]; decide)

lemma Neat.last_row (h : Neat t) (hl : l ∈ (lines t).getLast?) : trim l ≠ [] := by
  intro hblank
  rw [trim_eq_nil_iff, isBlankLine_iff] at hblank
  obtain ⟨init, hinit⟩ := getLast?_eq_some_iff.mp hl
  have ht : feed init ++ l = t := by
    rw [← h.unlines_lines, hinit, unlines_append_cons]
    simp [below, feed]
  by_cases hne : l = []
  · obtain ⟨c, hc, hcne⟩ := h.last
    rw [hne, append_nil] at ht
    have hinit : init ≠ [] := by
      rintro rfl
      exact h.filled ht.symm
    rw [← ht, ← unlines_feed hinit, getLast?_concat] at hc
    exact hcne (Option.some.inj hc).symm
  · have hc : t.getLast? = some (l.getLast hne) := by
      rw [← ht, getLast?_append_of_ne_nil _ hne, getLast?_eq_some_getLast hne]
    exact absurd (hblank _ (getLast_mem hne)) (by rw [h.trimmed.last _ hc]; decide)

lemma Neat.tidy (h : Neat t) : Neat (tidy t) := by
  have hne : (lines t).map trim ≠ [] := by
    rw [h.lines_eq]
    simpa using splitOnChar_ne_nil '\n' t
  have hfed : Fed (unlines ((lines t).map trim)) := by
    refine joinWith_fed (by decide) fun l hl => ?_
    obtain ⟨l, hrow, rfl⟩ := mem_map.mp hl
    exact fed_of_flat ((mem_lines hrow).2.of_subset (trim_subset l))
  have htrimmed := trimmed_unlines hne
    (by
      rintro _ hl
      rw [head?_map] at hl
      obtain ⟨l, hrow, rfl⟩ := Option.map_eq_some_iff.mp hl
      exact ⟨trimmed_trim l, h.head_row hrow⟩)
    (by
      rintro _ hl
      rw [getLast?_map] at hl
      obtain ⟨l, hrow, rfl⟩ := Option.map_eq_some_iff.mp hl
      exact ⟨trimmed_trim l, h.last_row hrow⟩)
  rw [Changelog.tidy, h.trimmed.trim_eq]
  exact ⟨hfed, htrimmed.1, htrimmed.2⟩

/-! ## Parts -/

/-- What a changelog says of a version. -/
structure Part where
  version : Text
  body : Text
  deriving DecidableEq, Repr

def Part.text (p : Part) : Text := sectionText p.version p.body

def gap : List Part → List Text
  | [] => []
  | _ :: _ => [[]]

def written : List Part → Text
  | [] => []
  | p :: ps => p.text ++ feed (gap ps) ++ written ps

/-- A part whose lines are none of a heading, and which does not hold the heading of a version other than its own. -/
structure Part.Proper (v : Text) (p : Part) : Prop where
  version : Flat p.version
  neat : Neat p.body
  lines : ∀ l ∈ lines p.body, ¬headingStart <+: l
  clear : p.version ≠ v → ¬heading v ++ ['\n'] <:+: p.text

/-- Proper parts of versions that are all different. -/
structure Apart (v : Text) (ps : List Part) : Prop where
  version : Flat v
  proper : ∀ p ∈ ps, p.Proper v
  nodup : (ps.map (·.version)).Nodup

variable {back front ps : List Part} {p : Part}

lemma Apart.others (h : Apart p.version (front ++ p :: back)) :
    ∀ q ∈ front ++ back, q.Proper p.version ∧ q.version ≠ p.version := by
  have hnodup := h.nodup
  rw [(perm_middle.map _).nodup_iff, map_cons, nodup_cons] at hnodup
  exact fun q hq => ⟨h.proper q (by grind), fun heq => hnodup.1 (mem_map.mpr ⟨q, hq, heq⟩)⟩

lemma Apart.cons (h : Apart p.version ps) (hp : p.Proper p.version) (hps : ∀ q ∈ ps, q.version ≠ p.version) :
    Apart p.version (p :: ps) := by
  refine ⟨h.version, forall_mem_cons.mpr ⟨hp, h.proper⟩, ?_⟩
  rw [map_cons, nodup_cons]
  refine ⟨fun hmem => ?_, h.nodup⟩
  obtain ⟨q, hq, heq⟩ := mem_map.mp hmem
  exact hps q hq heq

lemma text_eq (p : Part) : p.text = heading p.version ++ '\n' :: '\n' :: p.body ++ ['\n'] := by
  simp only [Part.text, sectionText, append_assoc]
  rfl

lemma written_append (front : List Part) (p : Part) (back : List Part) :
    written (front ++ p :: back) = front.flatMap (·.text ++ ['\n']) ++ (p.text ++ feed (gap back) ++ written back) := by
  induction front with
  | nil => rfl
  | cons q front ih =>
    have hgap : gap (front ++ p :: back) = [[]] := by cases front <;> rfl
    rw [cons_append, written, ih, hgap]
    simp [feed]

lemma Part.Proper.passes (h : p.Proper v) (hv : Flat v) (hne : p.version ≠ v) : Passes v p.text :=
  passes_lines hv (by rw [text_eq, getLast?_concat]) (h.clear hne)

lemma passes_gap (v : Text) (ps : List Part) : Passes v (feed (gap ps)) := by
  cases ps with
  | nil => exact passes_nil v
  | cons p ps => exact passes_feed v

lemma passes_written (hv : Flat v) (h : ∀ p ∈ ps, p.Proper v ∧ p.version ≠ v) : Passes v (written ps) := by
  induction ps with
  | nil => exact passes_nil v
  | cons p ps ih =>
    obtain ⟨⟨hp, hne⟩, hps⟩ := forall_mem_cons.mp h
    exact ((hp.passes hv hne).append (passes_gap v ps)).append (ih hps)

lemma passes_front (hv : Flat v) (h : ∀ p ∈ front, p.Proper v ∧ p.version ≠ v) : Passes v (front.flatMap (·.text ++ ['\n'])) := by
  induction front with
  | nil => exact passes_nil v
  | cons p front ih =>
    obtain ⟨⟨hp, hne⟩, hfront⟩ := forall_mem_cons.mp h
    exact ((hp.passes hv hne).append (passes_feed v)).append (ih hfront)

lemma Part.Proper.text_feed (h : p.Proper v) (ps : List Part) :
    p.text ++ feed (gap ps) = heading p.version ++ '\n' :: feed ([] :: (Text.lines p.body ++ gap ps)) := by
  rw [text_eq, feed_cons, feed_append, h.neat.feed_lines]
  simp

lemma headingStart_written (ps : List Part) : written ps = [] ∨ headingStart <+: written ps := by
  cases ps with
  | nil => exact .inl rfl
  | cons p ps =>
    refine .inr ?_
    rw [written, text_eq, heading]
    simp only [append_assoc]
    exact prefix_append _ _

lemma Part.Proper.rows (h : p.Proper v) (ps : List Part) :
    ∀ l ∈ [] :: (Text.lines p.body ++ gap ps), Flat l ∧ ¬headingStart <+: l := by
  have hnil : Flat [] ∧ ¬headingStart <+: [] := by decide
  refine forall_mem_cons.mpr ⟨hnil, forall_mem_append.mpr ⟨fun l hl => ⟨(mem_lines hl).2, h.lines l hl⟩, ?_⟩⟩
  cases ps with
  | nil => simp [gap]
  | cons q ps => simpa [gap] using hnil

lemma Part.Proper.sectionAt (h : p.Proper v) (ps : List Part) :
    sectionAt? p.version (p.text ++ feed (gap ps) ++ written ps) = some (p.text ++ feed (gap ps)) := by
  have hhead : (heading p.version ++ "\n" : Text) = heading p.version ++ ['\n'] := rfl
  have hbelow := linesToSection_feed (h.rows ps) (headingStart_written ps)
  rw [h.text_feed, ← singleton_append, ← append_assoc, append_assoc, sectionAt?, hhead,
    if_pos (startsWith_iff.mpr (prefix_append _ _)), drop_left, hbelow]
  rfl

lemma Part.Proper.tidy_section (h : p.Proper v) (ps : List Part) :
    tidy (unlines ((Text.lines (p.text ++ feed (gap ps))).drop 2)) = tidy p.body := by
  have hbody : unlines (Text.lines p.body ++ gap ps) = p.body ++ feed (gap ps) := by
    cases ps with
    | nil => rw [gap, append_nil, h.neat.unlines_lines, feed, flatMap_nil, append_nil]
    | cons q ps => rw [gap, unlines_append_cons, ← feed, h.neat.feed_lines]; simp [below, feed]
  have hblank : isBlankLine (feed (gap ps)) := by cases ps <;> rfl
  rw [h.text_feed, lines_flat_append (flat_heading h.version), lines_feed fun l hl => (h.rows ps l hl).1, drop_succ_cons,
    drop_succ_cons, drop_zero, hbody, tidy, tidy, h.neat.trim_feed hblank, h.neat.trimmed.trim_eq]

/-- A changelog ends with the body of its last part and a line feed, which are all that is kept of blank ends. -/
lemma trim_written (hne : ps ≠ []) (hps : ∀ p ∈ ps, Neat p.body) (hb : isBlankLine b) :
    trim (written ps ++ b) ++ ['\n'] = written ps := by
  obtain ⟨u, hu, hlast⟩ : ∃ u, written ps = u ++ ['\n'] ∧ ∀ c, u.getLast? = some c → isBlank c = false := by
    rcases eq_nil_or_concat' ps with rfl | ⟨front, p, rfl⟩
    · exact absurd rfl hne
    · have hp : Neat p.body := hps p (by simp)
      refine ⟨front.flatMap (·.text ++ ['\n']) ++ (heading p.version ++ ['\n', '\n']) ++ p.body, ?_, fun c hc => ?_⟩
      · rw [written_append, text_eq]
        simp [gap, written, feed]
      · rw [getLast?_append_of_ne_nil _ hp.filled] at hc
        exact hp.trimmed.last c hc
  have hhead : ∀ c, u.head? = some c → isBlank c = false := by
    intro c hc
    have hstart := (headingStart_written ps).resolve_left (by rw [hu]; simp)
    rw [hu] at hstart
    obtain ⟨r, hr⟩ := hstart
    cases u with
    | nil => cases hc
    | cons d u =>
      cases hc
      obtain ⟨rfl, -⟩ := cons.inj hr
      rfl
  rw [hu]
  simpa using trim_of_split (l := []) rfl ⟨hhead, hlast⟩ (isBlankLine_append.mpr ⟨(rfl : isBlankLine ['\n']), hb⟩)

lemma written_spaced (front : List Part) (p : Part) (back : List Part) :
    ∃ b, isBlankLine b ∧
      front.flatMap (·.text ++ ['\n']) ++ (p.text ++ ['\n'] ++ written back) = written (front ++ p :: back) ++ b := by
  rw [written_append]
  cases back with
  | nil => exact ⟨['\n'], rfl, by simp [gap, written, feed]⟩
  | cons q back => exact ⟨[], rfl, by simp [gap, feed]⟩

lemma fed_written (hps : ∀ p ∈ ps, Flat p.version ∧ Neat p.body) : Fed (written ps) := by
  induction ps with
  | nil => decide
  | cons p ps ih =>
    obtain ⟨⟨hversion, hbody⟩, hps⟩ := forall_mem_cons.mp hps
    have hgap : Fed (feed (gap ps)) := by
      cases ps with
      | nil => exact (by decide)
      | cons q ps => exact (by decide : Fed ['\n'])
    have htext : Fed p.text := by
      rw [text_eq]
      exact ((fed_of_flat (flat_heading hversion)).append (fed_cons (fed_cons hbody.fed))).append (by decide)
    exact (htext.append hgap).append (ih hps)

/-! ## Updates -/

def Part.extend (p : Part) (new : Text) : Part := ⟨p.version, trim (tidy p.body ++ "\n" ++ tidy new)⟩

/-- What the parts of a changelog become when a body is put into it for a version. -/
inductive Recorded (v new : Text) : List Part → List Part → Prop
  | started {ps : List Part} : (∀ p ∈ ps, p.version ≠ v) → Recorded v new ps (⟨v, new⟩ :: ps)
  | current {front back : List Part} {p : Part} : p.version = v → tidy new <:+: tidy p.body →
      Recorded v new (front ++ p :: back) (front ++ p :: back)
  | extended {front back : List Part} {p : Part} : p.version = v → ¬tidy new <:+: tidy p.body →
      Recorded v new (front ++ p :: back) (front ++ p.extend new :: back)

lemma update_other (hv : Flat v) (hps : ∀ p ∈ ps, p.Proper v ∧ p.version ≠ v) (new : Text) :
    update v new (written ps) = .ok (.started (sectionText v new ++ "\n" ++ written ps)) := by
  have hnone := (passes_written hv hps).find []
  rw [append_nil] at hnone
  rw [update, hnone]
  rfl

lemma update_own {new : Text} (hp : p.Proper p.version) (hfront : ∀ q ∈ front, q.Proper p.version ∧ q.version ≠ p.version)
    (hback : ∀ q ∈ back, q.Proper p.version ∧ q.version ≠ p.version) (hplain : '\\' ∉ (p.extend new).text) :
    update p.version new (written (front ++ p :: back)) = .ok (if contains (tidy p.body) (tidy new) then .current else
      .extended (front.flatMap (·.text ++ ['\n']) ++ ((p.extend new).text ++ ['\n'] ++ written back))) := by
  have hne : p.text ++ feed (gap back) ≠ [] := by simp [text_eq]
  have hfound : findSection? p.version (written (front ++ p :: back)) = some (p.text ++ feed (gap back)) := by
    rw [written_append, (passes_front hp.version hfront).find, findSection_front hne (hp.sectionAt back)]
  have hreplaced : ∀ f, replaceSections p.version f 0 (written (front ++ p :: back)) =
      front.flatMap (·.text ++ ['\n']) ++ (f (p.text ++ feed (gap back)) ++ written back) := by
    intro f
    have hend := (passes_written hp.version hback).replace f []
    rw [append_nil, replaceSections, append_nil] at hend
    rw [written_append, (passes_front hp.version hfront).replace, replaceSections_front hne (hp.sectionAt back), hend]
  obtain ⟨pieces, hpieces, hexpand⟩ := Template.parse_plain (t := (p.extend new).text ++ ['\n']) (by simpa using hplain) 1
  rw [update, hfound]
  simp only [hp.tidy_section]
  split
  · rfl
  · have htemplate : sectionText p.version (trim (tidy p.body ++ "\n" ++ tidy new)) ++ "\n" = (p.extend new).text ++ ['\n'] := rfl
    rw [htemplate, hpieces]
    change Except.ok (Update.extended _) = _
    rw [hreplaced, hexpand]

lemma neat_extend {new : Text} (hp : Neat p.body) (hnew : Neat new) :
    Neat (p.extend new).body ∧ (p.extend new).body = tidy p.body ++ '\n' :: tidy new := by
  have hjoin : Neat (tidy p.body ++ '\n' :: tidy new) := hp.tidy.join hnew.tidy
  have hbody : (p.extend new).body = tidy p.body ++ '\n' :: tidy new := by
    have heq : tidy p.body ++ "\n" ++ tidy new = tidy p.body ++ '\n' :: tidy new := append_assoc _ _ _
    rw [Part.extend, heq, hjoin.trimmed.trim_eq]
  exact ⟨by rw [hbody]; exact hjoin, hbody⟩

/-- A neat body is put into the changelog: what is saved is written from the new parts. -/
lemma update_recorded {new : Text} (h : Apart v ps) (hnew : Neat new)
    (hplain : ∀ p ∈ ps, p.version = v → '\\' ∉ (p.extend new).text) :
    ∃ ps' u, Recorded v new ps ps' ∧ update v new (written ps) = .ok u ∧ Fed (written ps') ∧
      (u = .current ∧ ps' = ps ∨
        ∃ content, (u = .extended content ∨ u = .started content) ∧ trim content ++ ['\n'] = written ps') := by
  have hneat : ∀ p ∈ ps, Flat p.version ∧ Neat p.body := fun p hp => ⟨(h.proper p hp).version, (h.proper p hp).neat⟩
  by_cases hown : ∃ p ∈ ps, p.version = v
  · obtain ⟨p, hp, rfl⟩ := hown
    obtain ⟨front, back, rfl⟩ := append_of_mem hp
    obtain ⟨hfront, hback⟩ := forall_mem_append.mp h.others
    have hupdate := update_own (h.proper p hp) hfront hback (hplain p hp rfl)
    by_cases hheld : tidy new <:+: tidy p.body
    · rw [if_pos (contains_iff.mpr hheld)] at hupdate
      exact ⟨_, _, .current rfl hheld, hupdate, fed_written hneat, .inl ⟨rfl, rfl⟩⟩
    · rw [if_neg (mt Text.contains_iff.mp hheld)] at hupdate
      have hneat' : ∀ q ∈ front ++ p.extend new :: back, Flat q.version ∧ Neat q.body := by
        have hp' : Flat (p.extend new).version ∧ Neat (p.extend new).body := ⟨h.version, (neat_extend (h.proper p hp).neat hnew).1⟩
        exact forall_mem_append.mpr ⟨fun q hq => hneat q (mem_append_left _ hq),
          forall_mem_cons.mpr ⟨hp', fun q hq => hneat q (mem_append_right _ (mem_cons_of_mem _ hq))⟩⟩
      obtain ⟨b, hb, hcontent⟩ := written_spaced front (p.extend new) back
      refine ⟨_, _, .extended rfl hheld, hupdate, fed_written hneat', .inr ⟨_, .inl rfl, ?_⟩⟩
      rw [hcontent, trim_written (by simp) (fun q hq => (hneat' q hq).2) hb]
  · push Not at hown
    have hneat' : ∀ q ∈ ⟨v, new⟩ :: ps, Flat q.version ∧ Neat q.body := forall_mem_cons.mpr ⟨⟨h.version, hnew⟩, hneat⟩
    obtain ⟨b, hb, hcontent⟩ := written_spaced [] ⟨v, new⟩ ps
    refine ⟨_, _, .started hown, update_other h.version (fun p hp => ⟨h.proper p hp, hown p hp⟩) new, fed_written hneat',
      .inr ⟨_, .inr rfl, ?_⟩⟩
    rw [flatMap_nil, nil_append, nil_append] at hcontent
    change trim (Part.text ⟨v, new⟩ ++ ['\n'] ++ written ps) ++ _ = _
    rw [hcontent, trim_written (by simp) (fun q hq => (hneat' q hq).2) hb]

end Changelog

end FunctionDocs.Release
