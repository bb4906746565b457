import FunctionDocs.Proofs.Insertion
import FunctionDocs.Proofs.Descriptions

/-!
# Headers that are found again

A header is looked for upwards from the function, over the lines down from one that is blank or closes a function. A header that an
insertion puts in place is found again, as long as no line of it ends this search and it is in the wanted style; the edits of
headers above it keep it so.
-/

open List

namespace FunctionDocs.Header

open Text Code Source

variable {A B ls xs : List Text} {n : Nat} {l l' : Text} {t : Text} {m : Nat} {ys : List Text}

/-! ## Lines that end with a header -/

/-- Lines end with a block comment that is found as a header, and not with a line comment. -/
structure Headed (xs : List Text) : Prop where
  opens : ∃ h ∈ (candidate xs).head?, startsWith (trim h) "/*" = true
  last : ∀ l ∈ xs.getLast?, isSlashLine l = false
  second : ∀ k ∈ xs.dropLast.getLast?, endsWith (trim k) ['}'] = false

lemma candidate_append (xs ys : List Text) :
    candidate (xs ++ ys) = if ys.all (!stopsHeader ·) then candidate xs ++ ys else candidate ys := by
  rw [candidate, candidate, candidate, reverse_append, takeWhile_append]
  by_cases hall : ys.all (!stopsHeader ·)
  · have hrev : ∀ l ∈ ys.reverse, (!stopsHeader l) := by simpa using hall
    rw [if_pos hall, takeWhile_eq_self_iff.mpr hrev, if_pos rfl, reverse_append, reverse_reverse]
  · rw [if_neg hall, if_neg]
    intro hlen
    have hself := ( takeWhile_prefix (!stopsHeader ·)).eq_of_length hlen
    have hrev := takeWhile_eq_self_iff.mp hself
    exact hall (by simpa using hrev)

lemma mem_candidate (h : l ∈ candidate xs) : stopsHeader l = false := by
  have hstops := mem_takeWhile_imp (mem_reverse.mp h)
  simpa using hstops

lemma isBlankLine_of_not_stops (h : stopsHeader l = false) : isBlankLine l = false := by
  rw [Bool.eq_false_iff]
  intro hblank
  rw [stopsHeader, trim_eq_nil_iff.mpr hblank] at h
  cases h

lemma startsWith_trim_iff : startsWith (trim t) "/*" ↔ "/*" <+: trimLeft t := by
  rw [startsWith_iff]
  constructor
  · intro h
    exact h.trans ( trimRight_prefix _)
  · rintro ⟨u, hu⟩
    rw [trim, ← hu, trimRight_append_of_last (by decide)]
    exact prefix_append _ _

lemma startsWith_trim_unlines (h : isBlankLine l = false) (ls : List Text) :
    startsWith (trim (unlines (l :: ls))) "/*" = startsWith (trim l) "/*" := by
  obtain ⟨t, ht, hlines⟩ : ∃ t, (∀ c ∈ t.head?, c = '\n') ∧ unlines (l :: ls) = l ++ t := by
    cases ls with
    | nil => exact ⟨[], nofun, (append_nil l).symm⟩
    | cons m ls => exact ⟨'\n' :: unlines (m :: ls), by simp, by rw [unlines, joinWith, append_assoc]; rfl⟩
  rw [Bool.eq_iff_iff, startsWith_trim_iff, startsWith_trim_iff, hlines, trimLeft_append_of_not_blank h]
  refine ⟨fun hp => ?_, fun hp => hp.trans (prefix_append _ _)⟩
  rcases prefix_append_cases hp with hp | ⟨c, q, ⟨r, rfl⟩, hq⟩
  · exact hp
  · obtain rfl := ht c rfl
    have hfeed : '\n' ∈ "/*".toList := by rw [hq]; simp
    exact absurd hfeed (by decide)

lemma headerExists_concat (ys : List Text) (l : Text) :
    headerExists (ys ++ [l]) ((ys.length + 1 : Nat) : Int) =
      .ok (!isBlankLine l && !ys.getLast?.any (fun k => endsWith (trim k) ['}']) &&
        (startsWith (trim (unlines (candidate (ys ++ [l])))) "/*" ||
          !(candidate (ys ++ [l])).isEmpty && (candidate (ys ++ [l])).all isSlashLine)) := by
  have hlen : (ys ++ [l]).length = ys.length + 1 := by simp
  have hline : lineAt (ys ++ [l]) (((ys.length + 1 : Nat) : Int) - 1) = .ok l := by
    have hat : (((ys.length + 1 : Nat) : Int) - 1).toNat = ys.length := by omega
    rw [lineAt, itemAt?, if_pos (by omega), hat, getElem?_concat_length]
  have hzero : ¬((ys.length + 1 : Nat) : Int) = 0 := by omega
  have hpos : (0 : Int) < ((ys.length + 1 : Nat) : Int) := by omega
  have htake : (ys ++ [l]).take (((ys.length + 1 : Nat) : Int)).toNat = ys ++ [l] := by
    rw [Int.toNat_natCast, ← hlen, take_length]
  rw [headerExists, if_neg hzero, hline]
  simp only [bind, Except.bind, pure, Except.pure, hpos, if_true, htake]
  cases isBlankLine l with
  | true => rfl
  | false =>
    rcases eq_nil_or_concat' ys with rfl | ⟨zs, k, rfl⟩
    · rfl
    · have hzs : (zs ++ [k]).length = zs.length + 1 := by simp
      have htwo : (2 : Int) ≤ (((zs ++ [k]).length + 1 : Nat) : Int) := by omega
      have hsecond : lineAt (zs ++ [k] ++ [l]) ((((zs ++ [k]).length + 1 : Nat) : Int) - 2) = .ok k := by
        have hat : ((((zs ++ [k]).length + 1 : Nat) : Int) - 2).toNat = zs.length := by omega
        rw [lineAt, itemAt?, if_pos (by omega), hat]
        simp
      rw [if_pos htwo, hsecond]
      simp only [getLast?_concat, Option.any_some]
      cases endsWith (trim k) ['}'] <;> rfl

lemma headerExists_succ (hm : m < ls.length) :
    ∃ l, ls[m]? = some l ∧ ls.take (m + 1) = ls.take m ++ [l] ∧
      headerExists ls ((m + 1 : Nat) : Int) = headerExists (ls.take m ++ [l]) (((ls.take m).length + 1 : Nat) : Int) := by
  have hlen : (ls.take m).length = m := by
    rw [length_take]
    omega
  refine ⟨ls[m], getElem?_eq_getElem hm, take_succ_eq_append_getElem hm, ?_⟩
  rw [hlen, ← take_succ_eq_append_getElem hm]
  exact headerExists_congr (by rw [take_take, min_self])

lemma candidate_concat (ys : List Text) (l : Text) :
    candidate (ys ++ [l]) = if stopsHeader l then [] else candidate ys ++ [l] := by
  cases hstops : stopsHeader l <;> simp [candidate, hstops]

lemma not_stops_of_candidate (h : candidate (ys ++ [l]) ≠ []) : stopsHeader l = false := by
  rw [Bool.eq_false_iff]
  intro hstops
  rw [candidate_concat, hstops] at h
  exact h rfl

lemma slashAbove_concat (htake : ls.take n = ys ++ [l]) (hblank : isBlankLine l = false) : slashAbove ls n = isSlashLine l := by
  rw [slashAbove, Int.toNat_natCast, htake, reverse_append, reverse_singleton, singleton_append,
    dropWhile_cons_of_neg (by rw [hblank]; exact Bool.false_ne_true)]
  rfl

lemma headed_iff (hn : n ≤ ls.length) : Headed (ls.take n) ↔ headerExists ls n = .ok true ∧ slashAbove ls n = false := by
  cases n with
  | zero =>
    refine iff_of_false (fun h => ?_) fun h => ?_
    · obtain ⟨h, hh, -⟩ := h.opens
      cases hh
    · cases h.1
  | succ m =>
    obtain ⟨l, -, htake, hexists⟩ := headerExists_succ hn
    rw [hexists, headerExists_concat, htake]
    constructor
    · rintro ⟨⟨h, hh, hopens⟩, hlast, hsecond⟩
      obtain ⟨rest, hcandidate⟩ := head?_eq_some_iff.mp hh
      have hfilled : isBlankLine h = false := isBlankLine_of_not_stops (mem_candidate (hcandidate ▸ mem_cons_self))
      have hstops : stopsHeader l = false := not_stops_of_candidate (by rw [hcandidate]; exact cons_ne_nil _ _)
      have hblank := isBlankLine_of_not_stops hstops
      have hbrace : (ls.take m).getLast?.any (fun k => endsWith (trim k) ['}']) = false := by
        rw [dropLast_concat] at hsecond
        cases hk : (ls.take m).getLast? with
        | none => rfl
        | some k => exact hsecond k hk
      refine ⟨?_, ?_⟩
      · rw [hblank, hbrace, hcandidate, startsWith_trim_unlines hfilled, hopens]
        rfl
      · rw [slashAbove_concat htake hblank]
        exact hlast l (by simp)
    · rintro ⟨hfound, hslash⟩
      simp only [Except.ok.injEq, Bool.and_eq_true, Bool.not_eq_true', Bool.or_eq_true] at hfound
      obtain ⟨⟨hblank, hbrace⟩, hfound⟩ := hfound
      rw [slashAbove_concat htake hblank] at hslash
      cases hc : candidate (ls.take m ++ [l]) with
      | nil =>
        rw [hc] at hfound
        rcases hfound with hfound | hfound
        · cases hfound
        · cases hfound.1
      | cons h rest =>
        have hstops : stopsHeader l = false := not_stops_of_candidate (by rw [hc]; exact cons_ne_nil _ _)
        have hmem : l ∈ h :: rest := by
          rw [← hc, candidate_concat, hstops]
          simp
        have hfilled : isBlankLine h = false := isBlankLine_of_not_stops (mem_candidate (hc ▸ mem_cons_self))
        refine ⟨⟨h, by rw [hc]; rfl, ?_⟩, fun k hk => ?_, fun k hk => ?_⟩
        · rw [hc, startsWith_trim_unlines hfilled] at hfound
          refine hfound.resolve_right fun hall => ?_
          rw [all_eq_true.mp hall.2 l hmem] at hslash
          cases hslash
        · rw [getLast?_concat] at hk
          cases hk
          exact hslash
        · rw [dropLast_concat] at hk
          rw [hk] at hbrace
          exact hbrace

lemma Headed.candidate_ne_nil (h : Headed xs) : candidate xs ≠ [] := by
  intro hnil
  obtain ⟨h, hh, -⟩ := h.opens
  rw [hnil] at hh
  cases hh

lemma Headed.not_closing (h : Headed xs) : ∀ l ∈ xs.getLast?, endsWith (trim l) ['}'] = false := by
  intro l hl
  obtain ⟨ys, rfl⟩ := getLast?_eq_some_iff.mp hl
  have hstops := not_stops_of_candidate h.candidate_ne_nil
  rw [stopsHeader] at hstops
  simp only [Bool.or_eq_false_iff, endsWithAny, any_cons] at hstops
  exact hstops.1.2.1

lemma Headed.append {X X' M : List Text} (h : Headed (X ++ M)) (hX' : Headed X') (hM : M ≠ []) : Headed (X' ++ M) := by
  obtain ⟨init, l, rfl⟩ := (eq_nil_or_concat' M).resolve_left hM
  refine ⟨?_, ?_, ?_⟩
  · by_cases hall : (init ++ [l]).all (!stopsHeader ·)
    · rw [candidate_append, if_pos hall]
      obtain ⟨k, hk, hopens⟩ := hX'.opens
      exact ⟨k, mem_head?_append_of_mem_head? hk, hopens⟩
    · have hopens := h.opens
      rw [candidate_append, if_neg hall] at hopens ⊢
      exact hopens
  · have hlast := h.last
    rw [← append_assoc, getLast?_concat] at hlast ⊢
    exact hlast
  · have hsecond := h.second
    rw [← append_assoc, dropLast_concat] at hsecond ⊢
    rcases eq_nil_or_concat' init with rfl | ⟨init, k, rfl⟩
    · rw [append_nil]
      exact hX'.not_closing
    · rw [← append_assoc, getLast?_concat] at hsecond ⊢
      exact hsecond

lemma headed_gapped {body : List Text} (h : ∀ l ∈ body, stopsHeader l = false) (above : List Text) : Headed (above ++ gapped body) := by
  have hall : (framed body).all (!stopsHeader ·) := by
    rw [all_eq_true]
    intro l hl
    rw [framed, mem_append, mem_cons] at hl
    rcases hl with (rfl | hl) | hl
    · decide
    · rw [h l hl]
      rfl
    · revert l
      decide
  have hcandidate : candidate (above ++ gapped body) = framed body := by
    have hshape : above ++ gapped body = above ++ [[]] ++ [[]] ++ framed body := by simp [gapped]
    have hgap : candidate (above ++ [[]] ++ [[]]) = [] := by
      rw [candidate_concat]
      rfl
    rw [hshape, candidate_append, if_pos hall, hgap, nil_append]
  have hend : above ++ gapped body =
      above ++ [[], []] ++ openingLine :: body ++ [" * ----------------------------------------------------------------------------".toList] ++
        ["*/".toList] := by
    simp [gapped, framed, closingLines]
  refine ⟨⟨openingLine, ?_, by decide⟩, ?_, ?_⟩
  · rw [hcandidate]
    rfl
  · rw [hend, getLast?_concat]
    simp only [Option.mem_some_iff, forall_eq']
    decide
  · rw [hend, dropLast_concat, getLast?_concat]
    simp only [Option.mem_some_iff, forall_eq']
    decide

lemma candidate_set_stops (hl : stopsHeader l)
    (hstops : stopsHeader l' ∨ ∀ k ∈ B.head?, stopsHeader k) (hB : B ≠ []) :
    candidate (A ++ [l'] ++ B) = candidate (A ++ [l] ++ B) := by
  rw [candidate_append (A ++ [l']), candidate_append (A ++ [l])]
  by_cases hall : B.all (!stopsHeader ·)
  · have hl' : stopsHeader l' := by
      refine hstops.resolve_right fun hnext => ?_
      obtain ⟨k, B, rfl⟩ := exists_cons_of_ne_nil hB
      rw [all_cons, hnext k rfl] at hall
      cases hall
    rw [candidate_concat, candidate_concat, hl, hl']
    rfl
  · rw [if_neg hall, if_neg hall]

lemma opens_set_passes (hl : stopsHeader l = false) (hl' : stopsHeader l' = false)
    (hblock : startsWith (trim l) "/*" = false) (h : ∃ h ∈ (candidate (A ++ [l] ++ B)).head?, startsWith (trim h) "/*") :
    ∃ h ∈ (candidate (A ++ [l'] ++ B)).head?, startsWith (trim h) "/*" := by
  obtain ⟨k, hk, hopens⟩ := h
  refine ⟨k, ?_, hopens⟩
  rw [candidate_append (A ++ _)] at hk ⊢
  by_cases hall : B.all (!stopsHeader ·)
  · rw [if_pos hall, candidate_concat, hl] at hk
    rw [if_pos hall, candidate_concat, hl']
    cases hA : candidate A with
    | nil =>
      rw [hA] at hk
      cases hk
      rw [hblock] at hopens
      cases hopens
    | cons m ms =>
      rw [hA] at hk
      exact hk
  · rw [if_neg hall] at hk ⊢
    exact hk

lemma Headed.set (h : Headed (A ++ l :: B)) (hl : Firm l) (hl' : Firm l') (hclose : endsWith (trim l') ['}'] = false)
    (hstops : stopsHeader l' = stopsHeader l ∨ stopsHeader l ∧ ∀ k ∈ B.head?, stopsHeader k) :
    Headed (A ++ l' :: B) := by
  refine ⟨?_, ?_, ?_⟩
  · have hopens := h.opens
    rw [append_cons] at hopens ⊢
    cases hstop : stopsHeader l with
    | true =>
      have hB : B ≠ [] := by
        rintro rfl
        rw [append_nil, candidate_concat, hstop] at hopens
        obtain ⟨k, hk, -⟩ := hopens
        cases hk
      rw [candidate_set_stops hstop (hstops.imp (fun hsame => hsame.trans hstop) And.right) hB]
      exact hopens
    | false =>
      have hpass : stopsHeader l' = false := by
        refine (hstops.resolve_right fun hnext => ?_).trans hstop
        rw [hstop] at hnext
        cases hnext.1
      exact opens_set_passes hstop hpass hl.block hopens
  · have hlast := h.last
    rcases eq_nil_or_concat' B with rfl | ⟨init, k, rfl⟩
    · rw [getLast?_concat]
      intro k hk
      cases hk
      exact hl'.slash
    · rw [← cons_append, ← append_assoc, getLast?_concat] at hlast ⊢
      exact hlast
  · have hsecond := h.second
    rcases eq_nil_or_concat' B with rfl | ⟨init, k, rfl⟩
    · rw [dropLast_concat] at hsecond ⊢
      exact hsecond
    · rw [← cons_append, ← append_assoc, dropLast_concat] at hsecond ⊢
      rcases eq_nil_or_concat' init with rfl | ⟨init, k, rfl⟩
      · rw [getLast?_concat]
        intro k hk
        cases hk
        exact hclose
      · rw [← cons_append, ← append_assoc, getLast?_concat] at hsecond ⊢
        exact hsecond

/-! ## Headers that stay -/

lemma startsWith_slash {head : Text} (h : "//" <+: t) (hlen : head.length ≤ 2) (hhead : ¬head <+: "//") :
    startsWith t head = false := by
  rw [Bool.eq_false_iff, Ne, startsWith_iff]
  exact fun hp => hhead (prefix_of_prefix_length_le hp h hlen)

lemma blockOver_slash (hl : ls[m]? = some l) (hslash : isSlashLine l) {bs : List Block}
    (hbs : ∀ b ∈ bs, 0 ≤ b.first ∧ b.first ≤ b.last) : blockOver ls (m + 1) bs = [] := by
  have htrim : "//".toList <+: trim l := startsWith_iff.mp hslash
  have hblock : isBlockLine l = false := by
    rw [isBlockLine, startsWith_slash htrim (by decide) (by decide), startsWith_slash htrim (by decide) (by decide)]
    rfl
  have hgap : isGapLine l = false := by
    have hempty : (trim l).isEmpty = false := by
      obtain ⟨u, hu⟩ := htrim
      rw [← hu]
      rfl
    have hleft : "//".toList <+: trimLeft l := htrim.trans ( trimRight_prefix _)
    rw [isGapLine, hempty, startsWith_slash hleft (by decide) (by decide)]
    rfl
  have hmem : ∀ {lo hi : Nat}, lo ≤ m → m < hi → l ∈ (ls.take hi).drop lo := by
    intro lo hi hlo hhi
    have hat : lo + (m - lo) = m := by omega
    exact mem_of_getElem? (i := m - lo) (by rw [getElem?_drop, hat, getElem?_take_of_lt hhi, hl])
  induction bs with
  | nil => rfl
  | cons b bs ih =>
    obtain ⟨⟨hfirst, hle⟩, hbs⟩ := forall_mem_cons.mp hbs
    rw [blockOver]
    split
    next hover =>
      obtain ⟨hlast, hall⟩ := Bool.and_eq_true_iff.mp hover
      have hlast := of_decide_eq_true hlast
      refine if_neg fun hgaps => ?_
      by_cases hm : b.last < m
      · have hline := all_eq_true.mp hgaps l (hmem (by omega) (by omega))
        rw [hgap] at hline
        cases hline
      · have hline := all_eq_true.mp hall l (hmem (by omega) (by omega))
        rw [hblock] at hline
        cases hline
    · exact ih hbs

lemma slashAbove_of_blank (hn : n ≤ ls.length) (hexists : headerExists ls n = .ok true)
    (hcomment : isBlankLine (commentOf ls n)) : slashAbove ls n = false := by
  cases n with
  | zero => rfl
  | succ m =>
    obtain ⟨l, hl, htake, hsame⟩ := headerExists_succ hn
    rw [hsame, headerExists_concat] at hexists
    simp only [Except.ok.injEq, Bool.and_eq_true, Bool.not_eq_true'] at hexists
    rw [slashAbove_concat htake hexists.1.1, Bool.eq_false_iff]
    intro hslash
    obtain ⟨u, hu⟩ := startsWith_iff.mp hslash
    have hrun : Source.slashRun (ls.take (m + 1)).reverse = Source.slashRun (ls.take m).reverse ++ [trim l] := by
      rw [htake, reverse_append, reverse_singleton, singleton_append, Source.slashRun, ← hu]
      rfl
    have hmem : '/' ∈ unlines (Source.slashRun (ls.take (m + 1)).reverse) := by
      rw [hrun]
      exact (DocBlock.infix_joinWith (mem_append_right _ (mem_singleton_self _))).subset (by rw [← hu]; exact mem_cons_self)
    rw [commentOf, blockOver_slash hl hslash (blocks_ordered ls)] at hcomment
    exact absurd (isBlankLine_iff.mp hcomment '/' hmem) (by decide)

lemma isDoxygenComment_blank {comment : Text} (h : isBlankLine comment) : isDoxygenComment comment = false := by
  rw [isBlankLine_iff] at h
  rw [isDoxygenComment, Bool.or_eq_false_iff, Bool.eq_false_iff, Bool.eq_false_iff, Ne, Ne, startsWith_iff, contains_iff]
  exact ⟨fun hp => absurd (h '/' (hp.subset (by decide))) (by decide), fun hin => absurd (h '@' (hin.subset (by decide))) (by decide)⟩

/-- A function has a header above it that the next insertion leaves as it is. -/
structure Steady (style : Option Value) (ls : List Text) (g : Function) : Prop where
  headed : Headed (ls.take g.startLine)
  style : g.isDoxygen = true → wantsDoxygen style = .ok true

lemma Steady.headerFor_eq {style : Option Value} {g : Function} (h : Steady style ls g) (hlt : g.startLine < ls.length)
    (hfound : lineOf ls g.name g.params g.count .subtraction = .ok g.startLine) : headerFor style ls g = .ok ls := by
  obtain ⟨hexists, hslash⟩ := (headed_iff hlt.le).mp h.headed
  have hstart : ¬(g.startLine : Int) = -1 := by omega
  have hadd : ∀ text, addHeader ls g.name g.startLine text = .ok ls := by
    intro text
    rw [addHeader, hexists]
    rfl
  rw [headerFor, hfound]
  simp only [bind, Except.bind, pure, pure, hstart, if_false, hexists, hslash, hadd]
  cases hblank : isBlankLine g.comment with
  | true => rfl
  | false =>
    cases hdoxygen : g.isDoxygen with
    | false => rfl
    | true =>
      rw [h.style hdoxygen]
      rfl

/-- An edit leaves a header that the next insertion finds: no line of it ends the search for a header, it is in the wanted style, and
a comment that is to be restyled gives way. -/
@[mk_iff]
structure HeaderEdit.Lasting (style : Option Value) (f : Function) (ls : List Text) (e : HeaderEdit) : Prop where
  body : ∀ l ∈ e.body f ls, stopsHeader l = false
  style : isDoxygenComment (unlines (framed (e.body f ls))) = true → wantsDoxygen style = .ok true
  gives : e.GivesWay ls

instance (style : Option Value) (f : Function) (ls : List Text) (e : HeaderEdit) : Decidable (e.Lasting style f ls) :=
  decidable_of_iff _ (HeaderEdit.lasting_iff ..).symm

/-- The edit of a function's header leaves one that the next insertion finds. -/
def HeaderLasts (style : Option Value) (ls : List Text) (f : Function) : Prop :=
  Then (headerEdit style ls f) fun e => e.Lasting style f ls
  deriving Decidable

lemma byHeader_steady (style : Option Value) (content : List Text) :
    ByHeader style content (HeaderLasts style) fun ls _ g => Steady style ls g where
  stays := by
    intro ls f g e he htidy hlasts hstays hline hread hsame
    have hlasting := (Then.of_ok he).mp hlasts
    have hsteady : headerExists ls f.startLine = .ok true → slashAbove ls f.startLine = false →
        (f.isDoxygen → wantsDoxygen style = .ok true) → Steady style ls g := by
      intro hexists hslash hstyle
      refine ⟨(headed_iff hread.lt.le).mpr ?_, by rw [hsame.doxygen]; exact hstyle⟩
      rw [hsame.line]
      exact ⟨hexists, hslash⟩
    rcases headerEdit_cases htidy.found he with
      ⟨hblank, rfl⟩ | ⟨-, ⟨hexists, rfl⟩ | ⟨hexists, ⟨-, rfl⟩ | ⟨hstyle, ⟨-, rfl⟩ | ⟨hslash, rfl⟩⟩⟩⟩
    · have hcomment : isBlankLine (commentOf ls f.startLine) := by
        rw [← hsame.line, ← hread.comment, hsame.comment]
        exact hblank
      refine hsteady hstays (slashAbove_of_blank (hsame.line ▸ hread.lt.le) hstays hcomment) fun hdoxygen => ?_
      rw [← hsame.doxygen, hread.doxygen, hsame.comment, isDoxygenComment_blank hblank] at hdoxygen
      cases hdoxygen
    · cases hexists.symm.trans hstays
    · exact absurd hstays hlasting.gives.not_stays
    · cases hstays
    · exact hsteady hexists hslash hstyle
  casts := by
    intro ls f g e he htidy hlasts hcasts hcast hline hread hsame hstart hcomment
    have hlasting := (Then.of_ok he).mp hlasts
    refine ⟨?_, fun hdoxygen => hlasting.style ?_⟩
    · rw [hstart, ← hcast.length_header, recast, take_left]
      exact headed_gapped hlasting.body _
    · rw [hread.doxygen, hcomment] at hdoxygen
      exact hdoxygen
  upper := by
    intro ls u f g h e he hlasts hcast hread hread' hlt hstart hcomment hsteady
    have hlasting := (Then.of_ok he).mp hlasts
    refine ⟨?_, fun hdoxygen => hsteady.style ?_⟩
    · have hheaded := hsteady.headed
      have hold : ls.take g.startLine = ls.take u.startLine ++ (ls.drop u.startLine).take (g.startLine - u.startLine) := by
        rw [← take_add, Nat.add_sub_cancel' hlt.le]
      have hnew : (recast ls (e.kept ls) u.startLine (e.body u ls)).take h.startLine =
          ls.take (e.kept ls) ++ gapped (e.body u ls) ++ (ls.drop u.startLine).take (g.startLine - u.startLine) := by
        have hat : h.startLine = (ls.take (e.kept ls) ++ gapped (e.body u ls)).length + (g.startLine - u.startLine) := by
          rw [hcast.length_header]
          omega
        rw [recast, hat, take_length_add_append]
      rw [hold] at hheaded
      rw [hnew]
      refine hheaded.append (headed_gapped hlasting.body _) fun hnil => ?_
      have hlen := congrArg List.length hnil
      have hend := hread.lt
      rw [length_take, length_drop, length_nil] at hlen
      omega
    · rw [hread'.doxygen, hcomment, ← hread.doxygen] at hdoxygen
      exact hdoxygen

end FunctionDocs.Header
