import FunctionDocs.Header.Insert
import FunctionDocs.Proofs.Edits

/-!
# Headers and the code

What putting a header in place, taking it away and converting it does to the code of lines. A header that is put outside of
comments, and whose texts do not close it, adds no code. Taking a header away takes lines away: from one with an opening mark to
the next one below it with a closing mark, whatever stands between them.
-/

open List hiding contains

namespace FunctionDocs.Header

open Text Code DocBlock

variable {start : Int} {ls ls' : List Text} {l : Text} {ms : List Text} {f : Source.Function}

/-! ## New headers -/

lemma dropBlankTail_split (ls : List Text) : ∃ bs, (∀ l ∈ bs, isBlankLine l) ∧ ls = dropBlankTail ls ++ bs := by
  refine ⟨(ls.reverse.takeWhile isBlankLine).reverse, fun l hl => mem_takeWhile_imp (mem_reverse.mp hl), ?_⟩
  rw [dropBlankTail, ← reverse_append, takeWhile_append_dropWhile, reverse_reverse]

lemma outside_dropBlankTail (h : Outside ls) : Outside (dropBlankTail ls) := by
  obtain ⟨bs, hbs, hsplit⟩ := dropBlankTail_split ls
  have hblank := scanLines_blank (atLine_scanLines (.inl rfl) (dropBlankTail ls)) hbs
  rw [Outside, hsplit, scanLines_append, hblank] at h
  exact h

lemma silent_framed (h : ∀ l ∈ ms, ¬"*/".toList <:+: l) : Silent (openingLine :: ms ++ closingLines) := by
  have hopen : scan .plain openingLine = ([], .block) := by decide +kernel
  have hclose : scanLines .block closingLines = ([], .plain) := by decide +kernel
  rw [Silent, cons_append, scanLines_cons, hopen, Mode.nextLine, scanLines_append, scanLines_block h, hclose]
  rfl

lemma noClose_starred {t : Text} (h : ¬"*/" <:+: t) : ¬"*/".toList <:+: " * " ++ t := by
  intro hi
  have hi : ['*', '/'] <:+: [' ', '*'] ++ ' ' :: t := hi
  rcases (infix_append_cons_iff (by decide)).mp hi with hi | hi
  · exact absurd hi (by decide)
  · exact h hi

lemma flat_framed (h : ∀ l ∈ ms, Flat l) : ∀ l ∈ openingLine :: ms ++ closingLines, Flat l := by
  have hopen : Flat openingLine := by decide +kernel
  have hclose : ∀ l ∈ closingLines, Flat l := by decide +kernel
  intro l hl
  rw [cons_append, mem_cons, mem_append] at hl
  rcases hl with rfl | hl | hl
  · exact hopen
  · exact h l hl
  · exact hclose l hl

lemma shrinks_framed {before bs ms rest : List Text} (houtside : Outside before) (hbs : Silent bs)
    (hms : ∀ l ∈ ms, ¬"*/" <:+: l ∧ Flat l) (hflat : ∀ l ∈ before ++ bs ++ rest, Flat l) :
    Shrinks True (before ++ bs ++ rest) (withGap before ++ (openingLine :: ms ++ closingLines) ++ rest) := by
  obtain ⟨tail, htail, hsplit⟩ := dropBlankTail_split before
  have hgap : Silent ([[], []] ++ (openingLine :: ms ++ closingLines)) :=
    (silent_blank (by simp [isBlankLine])).append (silent_framed fun l hl => (hms l hl).1)
  have hold : before ++ bs ++ rest = dropBlankTail before ++ (tail ++ bs) ++ rest := by
    rw [← append_assoc, ← hsplit]
  have hnew : withGap before ++ (openingLine :: ms ++ closingLines) ++ rest =
      dropBlankTail before ++ ([[], []] ++ (openingLine :: ms ++ closingLines)) ++ rest := by
    rw [withGap, append_assoc (dropBlankTail before)]
  rw [hold] at hflat
  rw [hold, hnew]
  refine shrinks_silent (outside_dropBlankTail houtside) ((silent_blank htail).append hbs) hgap fun l hl => ?_
  rw [mem_append, mem_append, mem_append] at hl
  rcases hl with (hl | hl | hl) | hl
  · exact hflat l (by simp [hl])
  · simp only [mem_cons, not_mem_nil, or_false, or_self] at hl
    rw [hl]
    simp [Flat]
  · exact flat_framed (fun m hm => (hms m hm).2) l hl
  · exact hflat l (by simp [hl])

def headerTexts (name : Text) (text : Option Text) : List Text := lines (text.getD (placeholderText name))

/-- A header that is wanted above a position can be put there: the position lies outside of comments, and no line of the header
closes it. -/
def AddPlaced (ls : List Text) (start : Int) (texts : List Text) : Prop :=
  Then (headerExists ls start) fun found => found = false → Outside (itemsBefore ls start) ∧ ∀ t ∈ texts, NoClose t
  deriving Decidable

lemma shrinks_addHeader {name : Text} {text : Option Text} (h : addHeader ls name start text = .ok ls') (hflat : ∀ l ∈ ls, Flat l)
    (hplaced : AddPlaced ls start (headerTexts name text)) : Shrinks True ls ls' := by
  obtain ⟨found, hfound, h⟩ := ok_of_bind_ok h
  cases found with
  | true => cases h; exact .refl hflat
  | false =>
    obtain rfl := Except.ok.inj h
    obtain ⟨houtside, htexts⟩ := (Then.of_ok hfound).mp hplaced rfl
    have hwhole : ls = itemsBefore ls start ++ [] ++ itemsFrom ls start := by
      rw [append_nil]
      exact (take_append_drop _ _).symm
    have hframed := @shrinks_framed (itemsBefore ls start) [] ((headerTexts name text).map fun t => " * " ++ t)
      (itemsFrom ls start) houtside rfl (fun l hl => ?_) (by rw [← hwhole]; exact hflat)
    · rw [← hwhole] at hframed
      exact hframed
    · obtain ⟨t, ht, rfl⟩ := mem_map.mp hl
      exact ⟨noClose_starred ((htexts t ht).not_mem (infix_refl t)), (by decide : Flat " * ").append (mem_lines ht).2⟩

/-! ## Headers that are taken away -/

/-- The lines above the block that is taken away above a position, and the lines of the block. -/
def headerCut? (ls : List Text) (start : Int) : Option (List Text × List Text) :=
  (((ls.take start.toNat).reverse).findIdx? (contains · "/*")).bind fun up =>
    ((ls.drop (start.toNat - 1 - up + 1)).findIdx? (contains · "*/")).map fun down =>
      (ls.take (start.toNat - 1 - up), (ls.drop (start.toNat - 1 - up)).take (1 + down + 1))

lemma removeHeader_cases (h : removeHeader ls start = .ok ls') :
    headerCut? ls start = none ∧ ls' = ls ∨
      ∃ above header below, headerCut? ls start = some (above, header) ∧ ls = above ++ header ++ below ∧ ls' = above ++ below := by
  rw [removeHeader] at h
  split at h
  next hstart =>
    refine .inl ⟨?_, (Except.ok.inj h).symm⟩
    rw [headerCut?, Int.toNat_of_nonpos hstart]
    rfl
  · split at h
    · cases h
    · split at h
      next hup =>
        refine .inl ⟨?_, (Except.ok.inj h).symm⟩
        rw [headerCut?, hup]
        rfl
      next up hup =>
        dsimp only at h
        split at h
        next hdown =>
          refine .inl ⟨?_, (Except.ok.inj h).symm⟩
          rw [headerCut?, hup, Option.bind_some, hdown]
          rfl
        next down hdown =>
          generalize hfirst : start.toNat - 1 - up = first at *
          refine .inr ⟨ls.take first, (ls.drop first).take (1 + down + 1), ls.drop (first + 1 + down + 1), ?_, ?_,
            (Except.ok.inj h).symm⟩
          · rw [headerCut?, hup, Option.bind_some, hfirst, hdown]
            rfl
          · have hbelow : ls.drop (first + 1 + down + 1) = (ls.drop first).drop (1 + down + 1) := by
              rw [drop_drop, Nat.add_assoc, Nat.add_assoc, Nat.add_assoc]
            rw [hbelow, append_assoc, take_append_drop, take_append_drop]

/-- The block that is taken away above a position begins and ends outside of comments. -/
def RemovePlaced (ls : List Text) (start : Int) : Prop := ∀ cut ∈ headerCut? ls start, Outside cut.1 ∧ Outside cut.2
  deriving Decidable

/-- The lines that are taken away above a position hold no code. -/
def RemoveClean (ls : List Text) (start : Int) : Prop := ∀ cut ∈ headerCut? ls start, (scanLines .plain cut.2).1 = []
  deriving Decidable

lemma shrinks_removeHeader (h : removeHeader ls start = .ok ls')
    (hflat : ∀ l ∈ ls, Flat l) (hplaced : RemovePlaced ls start) : Shrinks (RemoveClean ls start) ls ls' := by
  rcases removeHeader_cases h with ⟨hcut, rfl⟩ | ⟨above, header, below, hcut, rfl, rfl⟩
  · refine (Shrinks.refl hflat).congr (iff_of_true trivial fun cut hc => ?_)
    rw [hcut] at hc
    cases hc
  · obtain ⟨habove, hheader⟩ := hplaced _ hcut
    have hkept : ∀ l ∈ above ++ [] ++ below, Flat l := by
      intro l hl
      rw [append_nil, mem_append] at hl
      rcases hl with hl | hl <;> exact hflat l (by simp [hl])
    have hmiddle := @shrinks_middle above header [] below habove hheader.symm (nil_sublist _) hkept
    rw [append_nil] at hmiddle
    refine hmiddle.congr ⟨fun hnil cut hc => ?_, fun hclean => (hclean _ hcut).symm⟩
    obtain rfl := Option.some.inj (hcut.symm.trans hc)
    exact hnil.symm

/-! ## Runs of line comments -/

/-- The lines above a position, up to the run of line comments there. -/
def slashBefore (ls : List Text) (start : Int) : List Text :=
  (((ls.take start.toNat).reverse.dropWhile isBlankLine).dropWhile isSlashLine).reverse

def slashRun (ls : List Text) (start : Int) : List Text :=
  (((ls.take start.toNat).reverse.dropWhile isBlankLine).takeWhile isSlashLine).reverse

/-- The run of line comments above a position can become a block: it begins outside of comments, and none of its lines would
close the block. -/
def SlashPlaced (ls : List Text) (start : Int) : Prop :=
  Outside (slashBefore ls start) ∧ ∀ l ∈ slashRun ls start, NoClose l
  deriving Decidable

lemma silent_slashLine (hflat : Flat l) (h : isSlashLine l) : Silent [l] := by
  obtain ⟨a, b, ha, hb, hsplit⟩ := trim_split l
  obtain ⟨w, hw⟩ := startsWith_iff.mp h
  have hrest : Flat (w ++ b) := by
    refine hflat.of_subset fun c hc => ?_
    rw [hsplit, ← hw]
    rcases mem_append.mp hc with hc | hc <;> simp [hc]
  have hscan : scan .plain l = scan .lineComment (w ++ b) := by
    rw [hsplit, ← hw, append_assoc, scan_append, scan_blank (.inl rfl) ha]
    rfl
  rw [Silent, scanLines_cons, hscan, scan_lineComment hrest.not_mem]
  rfl

lemma silent_all (h : ∀ l ∈ ls, Silent [l]) : Silent ls := by
  induction ls with
  | nil => rfl
  | cons l ls ih =>
    obtain ⟨hl, hls⟩ := forall_mem_cons.mp h
    exact hl.append (ih hls)

lemma slashText_part (l : Text) : slashText l <:+: l := ((infix_trim _).trans (drop_suffix 2 _).isInfix).trans (infix_trim l)

lemma noClose_starLine (h : NoClose l) : ¬"*/" <:+: starLine (slashText l) := by
  rw [starLine]
  split
  · exact fun hi => absurd hi (by decide)
  · exact noClose_starred (h.not_mem (slashText_part l))

lemma flat_starLine (h : Flat l) : Flat (starLine (slashText l)) := by
  rw [starLine]
  split
  · exact (by decide)
  · exact (by decide : Flat " * ").append (h.of_subset (slashText_part l).subset)

lemma slashRun_split (ls : List Text) (start : Int) :
    ∃ bs, (∀ l ∈ bs, isBlankLine l) ∧ ls.take start.toNat = slashBefore ls start ++ (slashRun ls start ++ bs) := by
  obtain ⟨bs, hbs, hsplit⟩ := dropBlankTail_split (ls.take start.toNat)
  have hrun : dropBlankTail (ls.take start.toNat) = slashBefore ls start ++ slashRun ls start := by
    rw [dropBlankTail, slashBefore, slashRun, ← reverse_append, takeWhile_append_dropWhile]
  exact ⟨bs, hbs, by rw [← append_assoc, ← hrun, ← hsplit]⟩

lemma shrinks_slashToBlock (h : slashToBlock ls start = .ok ls')
    (hflat : ∀ l ∈ ls, Flat l) (hplaced : SlashPlaced ls start) : Shrinks True ls ls' := by
  rw [slashToBlock] at h
  split at h
  · cases h; exact .refl hflat
  · split at h
    · cases h
    · dsimp only at h
      split at h
      · cases h; exact .refl hflat
      · obtain rfl := Except.ok.inj h
        obtain ⟨bs, hbs, hsplit⟩ := slashRun_split ls start
        have hwhole : ls = slashBefore ls start ++ (slashRun ls start ++ bs) ++ ls.drop start.toNat := by
          rw [← hsplit, take_append_drop]
        have hmem : ∀ l ∈ slashRun ls start, Flat l := fun l hl => hflat l (by rw [hwhole]; simp [hl])
        have hslash : ∀ l ∈ slashRun ls start, isSlashLine l := fun l hl =>
          mem_takeWhile_imp (mem_reverse.mp hl)
        have hsilent : Silent (slashRun ls start ++ bs) :=
          (silent_all fun l hl => silent_slashLine (hmem l hl) (hslash l hl)).append (silent_blank hbs)
        have hframed := @shrinks_framed (slashBefore ls start) (slashRun ls start ++ bs)
          ((slashRun ls start).map fun l => starLine (slashText l)) (ls.drop start.toNat) hplaced.1 hsilent (fun l hl => ?_)
          (by rw [← hwhole]; exact hflat)
        · rw [← hwhole] at hframed
          exact hframed
        · obtain ⟨m, hm, rfl⟩ := mem_map.mp hl
          exact ⟨noClose_starLine (hplaced.2 m hm), flat_starLine (hmem m hm)⟩

/-! ## The header of a function -/

/-- What is done to the header of a function, and where it starts. -/
inductive HeaderEdit where
  | leave
  | add (start : Int)
  /-- A Doxygen comment gives way to a plain header. -/
  | restyle (start : Int)
  | fromSlashes (start : Int)

def headerEdit (style : Option Value) (ls : List Text) (f : Source.Function) : Except Failure HeaderEdit := do
  let start ← lineOf ls f.name f.params f.count .subtraction
  if start = -1 then return .leave
  if isBlankLine f.comment then return .add start
  if !(← headerExists ls start) then return .add start
  let restyle ← if f.isDoxygen then do pure (!(← wantsDoxygen style)) else pure false
  if restyle then return .restyle start
  return if slashAbove ls start then .fromSlashes start else .leave

def HeaderEdit.apply (f : Source.Function) (ls : List Text) : HeaderEdit → Except Failure (List Text)
  | leave => .ok ls
  | add start => addHeader ls f.name start none
  | restyle start => do
    let ls ← removeHeader ls start
    let start ← lineOf ls f.name f.params f.count .subtraction
    addHeader ls f.name start (some (plainText f.comment))
  | fromSlashes start => slashToBlock ls start

lemma headerFor_eq (style : Option Value) (ls : List Text) (f : Source.Function) :
    headerFor style ls f = headerEdit style ls f >>= HeaderEdit.apply f ls := by
  rw [headerFor, headerEdit]
  cases lineOf ls f.name f.params f.count .subtraction with
  | error e => rfl
  | ok start =>
    simp only [bind, Except.bind, pure, Except.pure]
    by_cases hstart : start = -1
    · simp [hstart, HeaderEdit.apply]
    · cases hblank : isBlankLine f.comment with
      | true => simp [hstart, HeaderEdit.apply]
      | false =>
        cases headerExists ls start with
        | error e => simp [hstart]
        | ok found =>
          cases found with
          | false => simp [hstart, HeaderEdit.apply]
          | true =>
            simp only [hstart]
            cases f.isDoxygen with
            | false => cases hslash : slashAbove ls start <;> rfl
            | true =>
              cases wantsDoxygen style with
              | error e => rfl
              | ok wanted => cases wanted <;> cases hslash : slashAbove ls start <;> rfl

/-- An edit of the header is made outside of comments and puts in nothing that ends a comment. -/
def HeaderEdit.Placed (f : Source.Function) (ls : List Text) : HeaderEdit → Prop
  | leave => True
  | add start => AddPlaced ls start (headerTexts f.name none)
  | restyle start => RemovePlaced ls start ∧ Then (removeHeader ls start) fun ls =>
      Then (lineOf ls f.name f.params f.count .subtraction) fun start =>
        AddPlaced ls start (headerTexts f.name (some (plainText f.comment)))
  | fromSlashes start => SlashPlaced ls start

instance (f : Source.Function) (ls : List Text) (e : HeaderEdit) : Decidable (e.Placed f ls) := by
  cases e <;> dsimp only [HeaderEdit.Placed] <;> infer_instance

/-- A header that gives way takes no code with it. -/
def HeaderEdit.Clean (ls : List Text) : HeaderEdit → Prop
  | restyle start => RemoveClean ls start
  | _ => True

instance (ls : List Text) (e : HeaderEdit) : Decidable (e.Clean ls) :=
  match e with
  | .restyle _ => inferInstanceAs (Decidable (RemoveClean _ _))
  | .leave | .add _ | .fromSlashes _ => inferInstanceAs (Decidable True)

lemma shrinks_headerEdit {e : HeaderEdit} (h : e.apply f ls = .ok ls')
    (hflat : ∀ l ∈ ls, Flat l) (hplaced : e.Placed f ls) : Shrinks (e.Clean ls) ls ls' := by
  cases e with
  | leave => cases h; exact .refl hflat
  | add start => exact shrinks_addHeader h hflat hplaced
  | restyle start =>
    obtain ⟨mid, hmid, h⟩ := ok_of_bind_ok h
    obtain ⟨again, hagain, h⟩ := ok_of_bind_ok h
    have hremove := shrinks_removeHeader hmid hflat hplaced.1
    have hadd := shrinks_addHeader h hremove.flat ((Then.of_ok hagain).mp ((Then.of_ok hmid).mp hplaced.2))
    exact (hremove.trans hadd).congr (iff_of_eq (and_true _))
  | fromSlashes start => exact shrinks_slashToBlock h hflat hplaced

/-- The header of a function is edited outside of comments, with texts that do not end one. -/
def HeaderPlaced (style : Option Value) (ls : List Text) (f : Source.Function) : Prop :=
  Then (headerEdit style ls f) fun e => e.Placed f ls
  deriving Decidable

/-- The header of a function, if it gives way, takes no code with it. -/
def HeaderClean (style : Option Value) (ls : List Text) (f : Source.Function) : Prop :=
  Then (headerEdit style ls f) fun e => e.Clean ls
  deriving Decidable

lemma shrinks_headerFor {style : Option Value} (hflat : ∀ l ∈ ls, Flat l)
    (hplaced : HeaderPlaced style ls f) (h : headerFor style ls f = .ok ls') : Shrinks (HeaderClean style ls f) ls ls' := by
  rw [headerFor_eq] at h
  obtain ⟨e, he, h⟩ := ok_of_bind_ok h
  have hedit := shrinks_headerEdit h hflat ((Then.of_ok he).mp hplaced)
  have hclean : HeaderClean style ls f ↔ e.Clean ls := Then.of_ok he
  exact hedit.congr hclean.symm

end FunctionDocs.Header
