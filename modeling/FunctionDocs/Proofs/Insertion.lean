import FunctionDocs.Proofs.KeptCode
import FunctionDocs.Proofs.Recast

/-!
# What insertion does to the functions of a text

Functions get their headers from the last to the first and then their closing comments from the first to the last. An edit is tidy
if it is made where the function starts and exchanges lines that define no function for a header. Along a run of tidy edits the
functions stay the same; a property of a function holds in the end if its own edit brings it about and the edits of the others
keep it.
-/

open List

namespace FunctionDocs.Header

open Text Code Source

variable {f : Function} {ls ls' : List Text} {Q : List Text → Function → Function → Prop} {start : Nat} {style : Option Value}

/-! ## Header edits -/

/-- The lines above the header that an edit puts in place, with the blank lines at their end. -/
def HeaderEdit.above (ls : List Text) : HeaderEdit → List Text
  | leave => []
  | add start => ls.take start.toNat
  | restyle start => ((headerCut? ls start).map (·.1)).getD []
  | fromSlashes start => slashBefore ls start

def HeaderEdit.kept (ls : List Text) (e : HeaderEdit) : Nat := (dropBlankTail (e.above ls)).length

def HeaderEdit.body (f : Function) (ls : List Text) : HeaderEdit → List Text
  | leave => []
  | add _ => (headerTexts f.name none).map fun t => " * " ++ t
  | restyle _ => (headerTexts f.name (some (plainText f.comment))).map fun t => " * " ++ t
  | fromSlashes start => (Header.slashRun ls start).map fun l => starLine (slashText l)

/-- An edit that leaves the lines as they are. -/
def HeaderEdit.Stays (ls : List Text) : HeaderEdit → Prop
  | leave => True
  | add start => headerExists ls start = .ok true
  | restyle start => headerCut? ls start = none
  | fromSlashes _ => False

/-- An edit that puts a header in place; one that gives way stands directly above the start, and the function is found again
without it. -/
def HeaderEdit.Casts (f : Function) (ls : List Text) : HeaderEdit → Prop
  | leave => False
  | add start => headerExists ls start = .ok false
  | restyle start => ∃ cut ∈ headerCut? ls start, ls.take start.toNat = cut.1 ++ cut.2 ∧
      lineOf (cut.1 ++ ls.drop start.toNat) f.name f.params f.count .subtraction = .ok cut.1.length ∧
      headerExists (cut.1 ++ ls.drop start.toNat) cut.1.length = .ok false
  | fromSlashes _ => True

instance (ls : List Text) (e : HeaderEdit) : Decidable (e.Stays ls) :=
  match e with
  | .leave => inferInstanceAs (Decidable True)
  | .add start => inferInstanceAs (Decidable (headerExists ls start = .ok true))
  | .restyle start => decidable_of_iff ((headerCut? ls start).isNone = true) Option.isNone_iff_eq_none
  | .fromSlashes _ => inferInstanceAs (Decidable False)

instance (f : Function) (ls : List Text) (e : HeaderEdit) : Decidable (e.Casts f ls) :=
  match e with
  | .leave => inferInstanceAs (Decidable False)
  | .add start => inferInstanceAs (Decidable (headerExists ls start = .ok false))
  | .restyle start => inferInstanceAs (Decidable (∃ cut ∈ headerCut? ls start, _ ∧ _ ∧ _))
  | .fromSlashes _ => inferInstanceAs (Decidable True)

/-- A comment that is to be restyled gives way. -/
def HeaderEdit.GivesWay (ls : List Text) : HeaderEdit → Prop
  | restyle start => (headerCut? ls start).isSome = true
  | _ => True

instance (ls : List Text) (e : HeaderEdit) : Decidable (e.GivesWay ls) :=
  match e with
  | .leave | .add _ | .fromSlashes _ => inferInstanceAs (Decidable True)
  | .restyle start => inferInstanceAs (Decidable ((headerCut? ls start).isSome = true))

lemma HeaderEdit.GivesWay.not_stays {start : Int} (h : GivesWay ls (.restyle start)) : ¬Stays ls (.restyle start) := by
  intro hstays
  rw [GivesWay, show headerCut? ls start = none from hstays] at h
  cases h

/-- The header of a function is edited where it starts; the lines stay, or some of them give way to a header. -/
@[mk_iff]
structure HeaderTidy (style : Option Value) (ls : List Text) (f : Function) : Prop where
  found : lineOf ls f.name f.params f.count .subtraction = .ok f.startLine
  edit : Then (headerEdit style ls f) fun e => e.Stays ls ∨ e.Casts f ls ∧ Recast ls (e.kept ls) f.startLine (e.body f ls)

instance (style : Option Value) (ls : List Text) (f : Function) : Decidable (HeaderTidy style ls f) :=
  decidable_of_iff _ (headerTidy_iff ..).symm

lemma headerExists_congr {n : Nat} (h : ls.take n = ls'.take n) : headerExists ls n = headerExists ls' n := by
  have hline : ∀ k : Int, 0 < k → k ≤ n → lineAt ls (n - k) = lineAt ls' (n - k) := by
    intro k hpos hk
    have hlt : ((n : Int) - k).toNat < n := by omega
    have hget : ls[((n : Int) - k).toNat]? = ls'[((n : Int) - k).toNat]? := by
      rw [← getElem?_take_of_lt hlt, h, getElem?_take_of_lt hlt]
    rw [lineAt, lineAt, itemAt?, itemAt?, if_pos (by omega), if_pos (by omega), hget]
  rcases Nat.eq_zero_or_pos n with rfl | hpos
  · rfl
  · have hone := hline 1 Int.one_pos (by omega)
    by_cases htwo : (2 : Int) ≤ n
    · rw [headerExists, headerExists, hone, hline 2 (by omega) htwo, Int.toNat_natCast, h]
    · simp only [headerExists, hone, htwo, if_false, Int.toNat_natCast, h]

lemma headerEdit_cases {e : HeaderEdit}
    (hfound : lineOf ls f.name f.params f.count .subtraction = .ok f.startLine) (h : headerEdit style ls f = .ok e) :
    isBlankLine f.comment ∧ e = .add f.startLine ∨
      isBlankLine f.comment = false ∧ (headerExists ls f.startLine = .ok false ∧ e = .add f.startLine ∨
        headerExists ls f.startLine = .ok true ∧
          ((f.isDoxygen ∧ wantsDoxygen style = .ok false) ∧ e = .restyle f.startLine ∨
            (f.isDoxygen → wantsDoxygen style = .ok true) ∧
              (slashAbove ls f.startLine ∧ e = .fromSlashes f.startLine ∨ slashAbove ls f.startLine = false ∧ e = .leave))) := by
  rw [headerEdit, hfound] at h
  have hstart : ¬(f.startLine : Int) = -1 := by omega
  simp only [bind, Except.bind] at h
  cases hblank : isBlankLine f.comment with
  | true =>
    rw [hblank] at h
    cases h
    exact .inl ⟨rfl, rfl⟩
  | false =>
    rw [hblank] at h
    refine .inr ⟨rfl, ?_⟩
    cases hexists : headerExists ls f.startLine with
    | error x =>
      rw [hexists] at h
      cases h
    | ok found =>
      rw [hexists] at h
      cases found with
      | false =>
        cases h
        exact .inl ⟨rfl, rfl⟩
      | true =>
        refine .inr ⟨rfl, ?_⟩
        have hstays : (if slashAbove ls f.startLine = true then HeaderEdit.fromSlashes f.startLine else .leave) = e →
            slashAbove ls f.startLine ∧ e = .fromSlashes f.startLine ∨ slashAbove ls f.startLine = false ∧ e = .leave := by
          intro he
          cases hslash : slashAbove ls f.startLine with
          | true => exact .inl ⟨rfl, by rw [← he, hslash]; rfl⟩
          | false => exact .inr ⟨rfl, by rw [← he, hslash]; rfl⟩
        cases hdoxygen : f.isDoxygen with
        | false =>
          rw [hdoxygen] at h
          exact .inr ⟨fun hd => absurd hd Bool.false_ne_true, hstays (Except.ok.inj h)⟩
        | true =>
          rw [hdoxygen] at h
          cases hwants : wantsDoxygen style with
          | error x =>
            rw [hwants] at h
            cases h
          | ok wanted =>
            rw [hwants] at h
            cases wanted with
            | false =>
              cases h
              exact .inl ⟨⟨rfl, rfl⟩, rfl⟩
            | true => exact .inr ⟨fun _ => rfl, hstays (Except.ok.inj h)⟩

lemma withGap_eq_recast {above rest : List Text} (h : ls.take start = above ++ rest) (body : List Text) :
    withGap above ++ framed body ++ ls.drop start = recast ls (dropBlankTail above).length start body := by
  obtain ⟨bs, -, hsplit⟩ := dropBlankTail_split above
  have hkept : dropBlankTail above = ls.take (dropBlankTail above).length := by
    have hls : ls = dropBlankTail above ++ (bs ++ rest ++ ls.drop start) := by
      rw [← append_assoc, ← append_assoc, ← hsplit, ← h, take_append_drop]
    nth_rewrite 1 [hls]
    rw [take_left]
  rw [recast, ← hkept, withGap, gapped, append_assoc (dropBlankTail above)]

lemma addHeader_eq {above rest : List Text} {name : Text} {text : Option Text} (hls : ls = above ++ rest)
    (h : headerExists ls above.length = .ok false) :
    addHeader ls name above.length text = .ok (withGap above ++ framed ((headerTexts name text).map fun t => " * " ++ t) ++ rest) := by
  have hcut : cutPoint ls above.length = above.length := by rw [cutPoint, if_pos (by omega), Int.toNat_natCast]
  rw [addHeader, h, itemsBefore, itemsFrom, hcut, hls, take_left, drop_left]
  rfl

lemma addHeader_stays {name : Text} {start : Int} {text : Option Text} (hexists : headerExists ls start = .ok true)
    (h : addHeader ls name start text = .ok ls') : ls' = ls := by
  rw [addHeader, hexists] at h
  cases h
  rfl

lemma slashToBlock_eq (hstart : start ≤ ls.length) (h : slashAbove ls start) :
    slashToBlock ls start =
      .ok (withGap (slashBefore ls start) ++ framed ((slashRun ls start).map fun l => starLine (slashText l)) ++ ls.drop start) := by
  have hpos : ¬(start : Int) ≤ 0 := by
    intro hzero
    rw [slashAbove, Int.toNat_of_nonpos hzero] at h
    cases h
  have hrun : (slashRun ls start).isEmpty = false := by
    rw [slashAbove] at h
    rw [slashRun]
    cases habove : (ls.take (start : Int).toNat).reverse.dropWhile isBlankLine with
    | nil =>
      rw [habove] at h
      cases h
    | cons l above =>
      rw [habove] at h
      have hl : isSlashLine l := h
      rw [takeWhile_cons_of_pos hl]
      simp
  rw [slashToBlock, if_neg hpos, if_neg (by omega)]
  change (if (slashRun ls start).isEmpty = true then Except.ok ls
    else .ok (withGap (slashBefore ls start) ++ framed ((slashRun ls start).map fun l => starLine (slashText l)) ++
      ls.drop (start : Int).toNat)) = _
  rw [hrun]
  rfl

lemma headerFor_tidy (htidy : HeaderTidy style ls f) (h : headerFor style ls f = .ok ls') :
    ∃ e, headerEdit style ls f = .ok e ∧ (e.Stays ls ∧ ls' = ls ∨
      e.Casts f ls ∧ Recast ls (e.kept ls) f.startLine (e.body f ls) ∧ ls' = recast ls (e.kept ls) f.startLine (e.body f ls)) := by
  rw [headerFor_eq] at h
  obtain ⟨e, he, happly⟩ := ok_of_bind_ok h
  refine ⟨e, he, ?_⟩
  have hcases := headerEdit_cases htidy.found he
  rcases (Then.of_ok he).mp htidy.edit with hstays | ⟨hcasts, hcast⟩
  · refine .inl ⟨hstays, ?_⟩
    rcases hcases with ⟨-, rfl⟩ | ⟨-, ⟨-, rfl⟩ | ⟨hexists, ⟨-, rfl⟩ | ⟨-, ⟨-, rfl⟩ | ⟨-, rfl⟩⟩⟩⟩
    · exact addHeader_stays hstays happly
    · exact addHeader_stays hstays happly
    · obtain ⟨mid, hmid, happly⟩ := ok_of_bind_ok happly
      obtain ⟨again, hagain, happly⟩ := ok_of_bind_ok happly
      rcases removeHeader_cases hmid with ⟨-, rfl⟩ | ⟨above, header, below, hcut, -⟩
      · obtain rfl := Except.ok.inj (hagain.symm.trans htidy.found)
        exact addHeader_stays hexists happly
      · rw [hstays] at hcut
        cases hcut
    · cases hstays
    · cases happly
      rfl
  · refine .inr ⟨hcasts, hcast, ?_⟩
    have hlen : (ls.take f.startLine).length = f.startLine := by rw [length_take, Nat.min_eq_left hcast.start_lt.le]
    have hadd : headerExists ls f.startLine = .ok false → HeaderEdit.apply f ls (.add f.startLine) = .ok ls' →
        ls' = recast ls (HeaderEdit.kept ls (.add f.startLine)) f.startLine (HeaderEdit.body f ls (.add f.startLine)) := by
      intro hexists happly
      have hadded := @addHeader_eq ls (ls.take f.startLine) (ls.drop f.startLine) f.name none (take_append_drop _ _).symm
        (by rw [hlen]; exact hexists)
      rw [hlen] at hadded
      rw [← Except.ok.inj (hadded.symm.trans happly)]
      exact withGap_eq_recast (append_nil _).symm _
    rcases hcases with ⟨-, rfl⟩ | ⟨-, ⟨hexists, rfl⟩ | ⟨hexists, ⟨-, rfl⟩ | ⟨-, ⟨hslash, rfl⟩ | ⟨-, rfl⟩⟩⟩⟩
    · exact hadd hcasts happly
    · exact hadd hexists happly
    · obtain ⟨⟨above, header⟩, hcut, htake, hagain, hexists⟩ := hcasts
      obtain ⟨mid, hmid, happly⟩ := ok_of_bind_ok happly
      obtain ⟨again, hfound, happly⟩ := ok_of_bind_ok happly
      rcases removeHeader_cases hmid with ⟨hnone, -⟩ | ⟨above', header', below, hcut', hls, rfl⟩
      · rw [hnone] at hcut
        cases hcut
      · cases hcut.symm.trans hcut'
        have hbelow : below = ls.drop f.startLine := by
          have hwhole := take_append_drop f.startLine ls
          rw [Int.toNat_natCast] at htake
          rw [htake] at hwhole
          exact (append_cancel_left (hwhole.trans hls)).symm
        rw [Int.toNat_natCast, ← hbelow] at hagain hexists
        obtain rfl := Except.ok.inj (hfound.symm.trans hagain)
        rw [addHeader_eq rfl hexists] at happly
        have habove : HeaderEdit.above ls (.restyle f.startLine) = above := by
          rw [HeaderEdit.above, hcut]
          rfl
        rw [HeaderEdit.kept, habove, ← Except.ok.inj happly, hbelow]
        exact withGap_eq_recast htake _
    · rw [HeaderEdit.apply, slashToBlock_eq hcast.start_lt.le hslash] at happly
      obtain ⟨bs, -, hsplit⟩ := slashRun_split ls f.startLine
      rw [← Except.ok.inj happly]
      exact withGap_eq_recast hsplit _
    · cases hcasts

/-! ## Lists of functions side by side -/

section Beside

variable {α β γ : Type} {R : α → β → Prop} {S : β → γ → Prop} {T : α → γ → Prop} {xs ys : List α} {zs : List β}

lemma forall₂_append (h : Forall₂ R (xs ++ ys) zs) : ∃ as bs, zs = as ++ bs ∧ Forall₂ R xs as ∧ Forall₂ R ys bs := by
  refine ⟨zs.take xs.length, zs.drop xs.length, (take_append_drop _ _).symm, ?_, ?_⟩
  · exact (forall₂_take_append _ _ _ h.flip).flip
  · exact (forall₂_drop_append _ _ _ h.flip).flip

lemma forall₂_comp {us : List γ} (h : Forall₂ R xs zs) (h' : Forall₂ S zs us)
    (himp : ∀ x, ∀ y ∈ zs, ∀ z ∈ us, R x y → S y z → T x z) : Forall₂ T xs us := by
  induction h generalizing us with
  | nil =>
    cases h'
    exact .nil
  | cons hxy _ ih =>
    cases h' with
    | cons hyz h' =>
      exact .cons (himp _ _ mem_cons_self _ mem_cons_self hxy hyz)
        (ih h' fun x y hy z hz => himp x y (mem_cons_of_mem _ hy) z (mem_cons_of_mem _ hz))

lemma exists_beside {y : β} (h : Forall₂ R xs zs) (hy : y ∈ zs) : ∃ x ∈ xs, R x y := by
  induction h with
  | nil => cases hy
  | cons hxy _ ih =>
    rcases mem_cons.mp hy with rfl | hy
    · exact ⟨_, mem_cons_self, hxy⟩
    · obtain ⟨x, hx, hr⟩ := ih hy
      exact ⟨x, mem_cons_of_mem _ hx, hr⟩

lemma pairwise_beside {P : α → α → Prop} {P' : β → β → Prop} (h : Forall₂ R xs zs) (hxs : xs.Pairwise P)
    (himp : ∀ {x x' y y'}, R x y → R x' y' → P x x' → P' y y') : zs.Pairwise P' := by
  induction h with
  | nil => exact .nil
  | cons hxy hrest ih =>
    obtain ⟨hx, hxs⟩ := pairwise_cons.mp hxs
    refine .cons (fun y' hy' => ?_) (ih hxs)
    obtain ⟨x', hx', hr⟩ := exists_beside hrest hy'
    exact himp hxy hr (hx x' hx')

end Beside

/-! ## Headers from the last function to the first -/

/-- A function is read from lines: its comment is the one above its line. -/
structure ReadFrom (ls : List Text) (g : Function) : Prop where
  comment : g.comment = commentOf ls g.startLine
  doxygen : g.isDoxygen = isDoxygenComment g.comment
  lt : g.startLine < ls.length

lemma readFrom_of_mem {file : Text} {gs : List Function} (h : functionsIn file ls = .ok gs) : ∀ g ∈ gs, ReadFrom ls g := by
  intro g hg
  obtain ⟨hcomment, hdoxygen, hlt⟩ := (functionsIn_ok h).2 g hg
  exact ⟨hcomment, hdoxygen, hlt⟩

/-- The functions as they were in the beginning and as they are now, after the last of them got their headers. -/
structure Underway (Q : List Text → Function → Function → Prop) (content ls : List Text) (waiting done : List Function) : Prop where
  flat : ∀ l ∈ ls, Flat l
  lines : ∀ f ∈ waiting, ls.take f.startLine = content.take f.startLine
  found : ∃ before after, functionsIn [] ls = .ok (before ++ after) ∧
    (before ++ after).Pairwise (fun g h => g.startLine < h.startLine) ∧ List.Forall₂ Untouched waiting before ∧
    List.Forall₂ (fun f g => Same f g ∧ Q ls f g) done after

/-- A property that a function gets by the edit of its header and keeps when a header above it is edited. -/
structure ByHeader (style : Option Value) (content : List Text) (extra : List Text → Function → Prop)
    (Q : List Text → Function → Function → Prop) : Prop where
  stays : ∀ {ls f g e}, headerEdit style ls f = .ok e → HeaderTidy style ls f → extra ls f → e.Stays ls →
    ls.take f.startLine = content.take f.startLine → ReadFrom ls g → Untouched f g → Q ls f g
  casts : ∀ {ls f g e}, headerEdit style ls f = .ok e → HeaderTidy style ls f → extra ls f → e.Casts f ls →
    Recast ls (e.kept ls) f.startLine (e.body f ls) → ls.take f.startLine = content.take f.startLine →
    ReadFrom (recast ls (e.kept ls) f.startLine (e.body f ls)) g → Same f g →
    g.startLine = e.kept ls + (gapped (e.body f ls)).length → g.comment = unlines (framed (e.body f ls)) →
    Q (recast ls (e.kept ls) f.startLine (e.body f ls)) f g
  upper : ∀ {ls u f g h e}, headerEdit style ls u = .ok e → extra ls u → Recast ls (e.kept ls) u.startLine (e.body u ls) →
    ReadFrom ls g → ReadFrom (recast ls (e.kept ls) u.startLine (e.body u ls)) h → u.startLine < g.startLine →
    h.startLine + u.startLine = g.startLine + (e.kept ls + (gapped (e.body u ls)).length) → h.comment = g.comment → Q ls f g →
    Q (recast ls (e.kept ls) u.startLine (e.body u ls)) f h

lemma Moved.lt {kept start' : Nat} {header : Text} {g h g' h' : Function} (hle : kept ≤ start')
    (hg : Moved kept start start' header g g') (hh : Moved kept start start' header h h') (hlt : g.startLine < h.startLine) :
    g'.startLine < h'.startLine := by
  rcases lt_trichotomy h.startLine start with hlow | hhere | hhigh
  · obtain ⟨-, hg', -⟩ := hg.above (hlt.trans hlow)
    obtain ⟨-, hh', -⟩ := hh.above hlow
    omega
  · obtain ⟨hkept, hg', -⟩ := hg.above (hhere ▸ hlt)
    have hh' := (hh.here hhere).1
    omega
  · have hh' := (hh.below hhigh).1
    rcases lt_trichotomy g.startLine start with hlow | hhere | hhigh'
    · obtain ⟨hkept, hg', -⟩ := hg.above hlow
      omega
    · have hg' := (hg.here hhere).1
      omega
    · have hg' := (hg.below hhigh').1
      omega

lemma HeaderEdit.flat_body (hflat : ∀ l ∈ ls, Flat l) (e : HeaderEdit) : ∀ l ∈ e.body f ls, Flat l := by
  have hstarred : ∀ (t : Option Text), ∀ l ∈ (headerTexts f.name t).map (fun t => " * ".toList ++ t), Flat l := by
    intro t l hl
    obtain ⟨m, hm, rfl⟩ := mem_map.mp hl
    exact (by decide : Flat " * ".toList).append (mem_lines hm).2
  cases e with
  | leave => exact nofun
  | add start => exact hstarred none
  | restyle start => exact hstarred _
  | fromSlashes start =>
    intro l hl
    obtain ⟨m, hm, rfl⟩ := mem_map.mp hl
    obtain ⟨bs, -, hsplit⟩ := slashRun_split ls start
    have hmem : m ∈ ls.take start.toNat := by
      rw [hsplit]
      simp [hm]
    exact flat_starLine (hflat m (mem_of_mem_take hmem))

lemma flat_recast {body : List Text} {kept : Nat} (hls : ∀ l ∈ ls, Flat l) (hbody : ∀ l ∈ body, Flat l) :
    ∀ l ∈ recast ls kept start body, Flat l := by
  intro l hl
  rw [recast, gapped, mem_append, mem_append, mem_append] at hl
  rcases hl with (hl | hl | hl) | hl
  · exact hls l (mem_of_mem_take hl)
  · have hnil : l = [] := by simpa using hl
    rw [hnil]
    exact fun c hc => absurd hc not_mem_nil
  · exact flat_framed hbody l hl
  · exact hls l (mem_of_mem_drop hl)

lemma Underway.step {content : List Text} {extra : List Text → Function → Prop} (hQ : ByHeader style content extra Q) {waiting done : List Function} {f : Function}
    (h : Underway Q content ls (waiting ++ [f]) done) (htidy : HeaderTidy style ls f) (hextra : extra ls f)
    (hedit : headerFor style ls f = .ok ls') : Underway Q content ls' waiting (f :: done) := by
  obtain ⟨front, after, hfound, hsorted, hfront, hafter⟩ := h.found
  obtain ⟨before, last, hsplit, hbefore, hlast⟩ := forall₂_append hfront
  obtain ⟨g, hg, hfg⟩ : ∃ g, last = [g] ∧ Untouched f g := by
    cases hlast with
    | cons hfg hnil =>
      cases hnil
      exact ⟨_, rfl, hfg⟩
  rw [hsplit, hg] at hfound hsorted
  have hline : ls.take f.startLine = content.take f.startLine := h.lines f (by simp)
  have hread := readFrom_of_mem hfound
  obtain ⟨e, he, ⟨hstays, rfl⟩ | ⟨hcasts, hcast, rfl⟩⟩ := headerFor_tidy htidy hedit
  · refine ⟨h.flat, fun f' hf' => h.lines f' (by simp [hf']), before, g :: after, by rw [hfound]; simp, ?_, hbefore, ?_⟩
    · simpa using hsorted
    · exact .cons ⟨hfg.same, hQ.stays he htidy hextra hstays hline (hread g (by simp)) hfg⟩ hafter
  · obtain ⟨gs', hgs', hmoved⟩ := functionsIn_recast hcast hfound
    obtain ⟨front', after', rfl, hfront', hafter'⟩ := forall₂_append hmoved
    obtain ⟨before', last', rfl, hbefore', hlast'⟩ := forall₂_append hfront'
    obtain ⟨g', rfl, hg'⟩ : ∃ g', last' = [g'] ∧ Moved (e.kept ls) f.startLine (e.kept ls + (gapped (e.body f ls)).length)
        (unlines (framed (e.body f ls))) g g' := by
      cases hlast' with
      | cons hg' hnil =>
        cases hnil
        exact ⟨_, rfl, hg'⟩
    have hread' := readFrom_of_mem hgs'
    obtain ⟨hsortedFront, -, hbeyond⟩ := pairwise_append.mp hsorted
    have habove : ∀ a ∈ before, a.startLine < f.startLine := by
      intro a ha
      rw [← hfg.line]
      exact (pairwise_append.mp hsortedFront).2.2 a ha g mem_cons_self
    have hbelow : ∀ b ∈ after, f.startLine < b.startLine := by
      intro b hb
      rw [← hfg.line]
      exact hbeyond g (by simp) b hb
    obtain ⟨hstart', hcomment'⟩ := hg'.here hfg.line
    refine ⟨flat_recast h.flat (e.flat_body h.flat), fun f' hf' => ?_, before', g' :: after', by rw [hgs']; simp, ?_, ?_, ?_⟩
    · obtain ⟨a, ha, hfa⟩ := exists_beside hbefore.flip hf'
      obtain ⟨a', -, haa'⟩ := exists_beside hbefore'.flip ha
      have hkept : f'.startLine ≤ e.kept ls := by
        rw [← hfa.line]
        exact (haa'.above (habove a ha)).1.le
      rw [recast, append_assoc, take_append_of_le_length (by rw [hcast.length_take]; exact hkept), take_take, Nat.min_eq_left hkept]
      exact h.lines f' (by simp [hf'])
    · have hsorted' := pairwise_beside hmoved hsorted (Moved.lt (Nat.le_add_right _ _))
      simpa using hsorted'
    · refine forall₂_comp hbefore hbefore' fun x y hy z hz hxy hyz => ?_
      obtain ⟨-, hstart, hcomment⟩ := hyz.above (habove y hy)
      have hdoxygen : z.isDoxygen = y.isDoxygen := by
        rw [(hread' z (by simp [hz])).doxygen, (hread y (by simp [hy])).doxygen, hcomment]
      exact ⟨hxy.same.trans hyz.same, hstart.trans hxy.line, hcomment.trans hxy.comment, hdoxygen.trans hxy.doxygen⟩
    · refine .cons ⟨hfg.same.trans hg'.same, ?_⟩ (forall₂_comp hafter hafter' fun x y hy z hz hxy hyz => ?_)
      · exact hQ.casts he htidy hextra hcasts hcast hline (hread' g' (by simp)) (hfg.same.trans hg'.same) hstart' hcomment'
      · obtain ⟨hstart, hcomment⟩ := hyz.below (hbelow y hy)
        exact ⟨hxy.1.trans hyz.same, hQ.upper he hextra hcast (hread y (by simp [hy])) (hread' z (by simp [hz])) (hbelow y hy) hstart
          hcomment hxy.2⟩

lemma Underway.run {content : List Text} {extra : List Text → Function → Prop} (hQ : ByHeader style content extra Q) {fs done : List Function}
    (h : Underway Q content ls fs done) (htidy : Each (headerFor style) (fun ls f => HeaderTidy style ls f ∧ extra ls f) ls fs.reverse)
    (hrun : fs.reverse.foldlM (headerFor style) ls = .ok ls') : Underway Q content ls' [] (fs ++ done) := by
  induction fs using reverseRecOn generalizing ls done with
  | nil =>
    cases hrun
    exact h
  | append_singleton fs f ih =>
    rw [reverse_append] at htidy hrun
    obtain ⟨mid, hmid, hrest⟩ := ok_of_bind_ok hrun
    have hstep := h.step hQ htidy.1.1 htidy.1.2 hmid
    rw [append_assoc]
    exact ih hstep ((Then.of_ok hmid).mp htidy.2) hrest

/-! ## Closing comments from the first function to the last -/

def declarationFrom (ls : List Text) : Nat → Nat
  | 0 => 0
  | i + 1 => if (joinAfter 0 none (ls.take (i + 1))).isNone || ls[i + 1]?.all seals then i + 1 else declarationFrom ls i

def declarationTo (ls : List Text) (i : Nat) : Nat := i + 1 + ((ls.drop (i + 1)).takeWhile (!seals ·)).length

/-- A property holds where the closing comment of a function changes a line: of the lines, the position, the line and its new text. -/
def AtClosing (P : List Text → Nat → Text → Text → Prop) (ls : List Text) (f : Function) : Prop :=
  Then (lineOf ls f.name f.params f.count .range) fun start => start = -1 ∨
    Then (endLine ls start) fun last? => ∀ last ∈ last?, ∀ line ∈ itemAt? ls last, insideBlock ls last = false →
      postLine f.name (trimRight line) ≠ trimRight line → P ls (cutPoint ls last) line (postLine f.name (trimRight line))

instance (P : List Text → Nat → Text → Text → Prop) [∀ ls i line new, Decidable (P ls i line new)] (ls : List Text) (f : Function) :
    Decidable (AtClosing P ls f) := inferInstanceAs (Decidable (Then _ _))

/-- A line may be changed without an effect on the functions of the lines that are joined to it. -/
def Retouched (ls : List Text) (i : Nat) (new : Text) : Prop := Retouch ls (declarationFrom ls i) (declarationTo ls i) i new
  deriving Decidable

lemma flat_trimRight_item {last : Int} {line : Text} (hflat : ∀ l ∈ ls, Flat l) (h : itemAt? ls last = some line) :
    Flat (trimRight line) :=
  (hflat line (mem_of_getElem? (getElem?_cutPoint h))).of_subset (trimRight_subset line)

lemma flat_postFor {u : Function} (hname : Flat u.name) (hflat : ∀ l ∈ ls, Flat l) (h : postFor ls u = .ok ls') :
    ∀ l ∈ ls', Flat l := by
  rcases postFor_cases h with rfl | ⟨start, last, line, -, -, -, hitem, -, -, rfl⟩
  · exact hflat
  · intro l hl
    rcases mem_or_eq_of_mem_set hl with hl | rfl
    · exact hflat l hl
    · exact flat_postLine hname (flat_trimRight_item hflat hitem)

/-- The functions as they were in the beginning and as they are now, all with their headers. -/
structure Kept (Q : List Text → Function → Function → Prop) (ls : List Text) (fs : List Function) : Prop where
  flat : ∀ l ∈ ls, Flat l
  found : ∃ gs, functionsIn [] ls = .ok gs ∧ List.Forall₂ (fun f g => Same f g ∧ Q ls f g) fs gs

/-- A property that a function keeps when a closing comment is put in place. -/
structure ByClosing (extra : List Text → Nat → Text → Text → Prop) (Q : List Text → Function → Function → Prop) : Prop where
  keeps : ∀ {ls name f g h i line new}, ls[i]? = some line → new = postLine name (trimRight line) → new ≠ trimRight line →
    Retouched ls i new → extra ls i line new → ReadFrom ls g → ReadFrom (ls.set i new) h → Untouched g h → Q ls f g → Q (ls.set i new) f h

lemma Kept.step {extra : List Text → Nat → Text → Text → Prop}
    (hQ : ByClosing extra Q) {fs : List Function} {u : Function} (hname : Flat u.name) (h : Kept Q ls fs)
    (htidy : AtClosing (fun ls i line new => Retouched ls i new ∧ extra ls i line new) ls u) (hpost : postFor ls u = .ok ls') :
    Kept Q ls' fs := by
  rcases postFor_cases hpost with rfl | ⟨start, last, line, hstart, hfound, hlast, hitem, hinside, hnew, rfl⟩
  · exact h
  · obtain ⟨gs, hgs, hfs⟩ := h.found
    have htidy := ((Then.of_ok hstart).mp htidy).resolve_left hfound
    obtain ⟨hretouch, hextra⟩ := (Then.of_ok hlast).mp htidy last rfl line hitem hinside hnew
    obtain ⟨gs', hgs', hsame⟩ := functionsIn_retouch hretouch hgs
    have hread := readFrom_of_mem hgs
    have hread' := readFrom_of_mem hgs'
    refine ⟨flat_postFor hname h.flat hpost, gs', hgs', forall₂_comp hfs hsame fun x y hy z hz hxy hyz => ?_⟩
    exact ⟨hxy.1.trans hyz.same, hQ.keeps (getElem?_cutPoint hitem) rfl hnew hretouch hextra (hread y hy) (hread' z hz) hyz hxy.2⟩

lemma Kept.run {extra : List Text → Nat → Text → Text → Prop}
    (hQ : ByClosing extra Q) {fs us : List Function} (hnames : ∀ u ∈ us, Flat u.name) (h : Kept Q ls fs)
    (htidy : Each postFor (AtClosing fun ls i line new => Retouched ls i new ∧ extra ls i line new) ls us)
    (hrun : us.foldlM postFor ls = .ok ls') : Kept Q ls' fs := by
  induction us generalizing ls with
  | nil =>
    cases hrun
    exact h
  | cons u us ih =>
    obtain ⟨mid, hmid, hrest⟩ := ok_of_bind_ok hrun
    obtain ⟨hu, hus⟩ := forall_mem_cons.mp hnames
    exact ih hus (h.step hQ hu htidy.1 hmid) ((Then.of_ok hmid).mp htidy.2) hrest

/-! ## A whole insertion -/

/-- Every function of a text starts on a line of its own, and its header and its closing comment are edited there, without a change
to the other functions. -/
@[mk_iff]
structure TidyRun (style : Option Value) (content : Text) (header : List Text → Function → Prop)
    (closing : List Text → Nat → Text → Text → Prop) : Prop where
  apart : Then (functionsOf content []) fun fs => fs.Pairwise fun f g => f.startLine < g.startLine
  edits : Run.AlongInsertion style content (fun ls f => HeaderTidy style ls f ∧ header ls f)
    (AtClosing fun ls i line new => Retouched ls i new ∧ closing ls i line new)

instance (style : Option Value) (content : Text) (header : List Text → Function → Prop)
    (closing : List Text → Nat → Text → Text → Prop) [∀ ls f, Decidable (header ls f)]
    [∀ ls i line new, Decidable (closing ls i line new)] : Decidable (TidyRun style content header closing) :=
  decidable_of_iff _ (tidyRun_iff ..).symm

lemma functionsIn_lines (hflat : ∀ l ∈ ls, Flat l) {file : Text} {gs : List Function}
    (h : functionsIn file ls = .ok gs) : functionsOf (unlines ls ++ "\n") file = .ok gs := by
  by_cases hne : ls = []
  · subst hne
    cases h
    rfl
  · rw [functionsOf_eq, lines_unlines hflat hne, h]

lemma insertComments_kept {content new : Text} {header : List Text → Function → Prop} {closing : List Text → Nat → Text → Text → Prop} (hheader : ByHeader style content.lines header Q) (hclosing : ByClosing closing Q)
    (htidy : TidyRun style content header closing) (h : insertComments content style = .ok new) :
    ∃ fs ls gs, functionsOf content [] = .ok fs ∧ new = unlines ls ++ "\n" ∧ (∀ l ∈ ls, Flat l) ∧ functionsIn [] ls = .ok gs ∧
      List.Forall₂ (fun f g => Same f g ∧ Q ls f g) fs gs := by
  obtain ⟨fs, hfs, hheaders⟩ := ok_of_bind_ok h
  obtain ⟨mid, hmid, hclosings⟩ := ok_of_bind_ok hheaders
  obtain ⟨ls, hls, hlast⟩ := ok_of_bind_ok hclosings
  cases hlast
  obtain ⟨hedits, hposts⟩ := (Then.of_ok hfs).mp htidy.edits
  have hstart : Underway Q content.lines content.lines fs [] := by
    refine ⟨fun l hl => (mem_lines hl).2, fun f _ => rfl, fs, [], ?_, ?_, ?_, .nil⟩
    · rw [append_nil]
      exact hfs
    · rw [append_nil]
      exact (Then.of_ok hfs).mp htidy.apart
    · exact forall₂_same.mpr fun f _ => ⟨⟨rfl, rfl, rfl⟩, rfl, rfl, rfl⟩
  have hmiddle := hstart.run hheader hedits hmid
  obtain ⟨before, after, hgs, -, hbefore, hafter⟩ := hmiddle.found
  cases hbefore
  rw [append_nil] at hafter
  have hkept : Kept Q mid fs := ⟨hmiddle.flat, after, hgs, hafter⟩
  have hnames : ∀ f ∈ fs, Flat f.name := fun f hf => (functionsOf_flat hfs f hf).1
  have hend := hkept.run hclosing hnames ((Then.of_ok hmid).mp hposts) hls
  obtain ⟨gs, hfound, hsame⟩ := hend.found
  exact ⟨fs, ls, gs, hfs, rfl, hend.flat, hfound, hsame⟩

end FunctionDocs.Header
