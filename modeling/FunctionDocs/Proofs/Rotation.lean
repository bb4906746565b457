import FunctionDocs.Log.File
import FunctionDocs.Proofs.Backups

/-!
# What a log keeps

A log puts its file aside under the date of a period, in place of an older file of that date.
-/

open List

namespace FunctionDocs

/-! ## Files in a directory -/

namespace Path

open Text

variable {dir n : Text}

lemma join_append (hn : Name n) (s : Text) : join dir n ++ s = join dir (n ++ s) := by
  rw [join, join, isAbsolute_append hn.step.1, hn.isAbsolute]
  simp only [Bool.false_eq_true, if_false]
  split
  · exact append_assoc _ _ _
  · exact append_assoc _ _ _

lemma join_eq (hdir : dir ≠ []) (hn : Name n) : ∃ a, join dir n = a ++ '/' :: n := by
  rw [join, hn.isAbsolute, if_neg (by simp)]
  split
  next hends =>
    obtain ⟨a, rfl⟩ := endsWith_iff.mp ((Bool.or_eq_true_iff.mp hends).resolve_left (by simpa using hdir))
    exact ⟨a, by simp⟩
  · exact ⟨dir, by simp⟩

lemma not_endsWith_join {s : Text} (hdir : dir ≠ []) (hn : Name n) (hs : s ≠ n) (hslash : '/' ∉ s) :
    endsWith (join dir n) ('/' :: s) = false := by
  obtain ⟨a, ha⟩ := join_eq hdir hn
  rw [← Bool.not_eq_true, endsWith_iff, ha]
  rintro ⟨b, hb⟩
  have hsplit := congrArg (splitOnChar '/') hb
  rw [splitOnChar_append_cons, splitOnChar_append_cons, splitOnChar_of_not_mem hslash, splitOnChar_of_not_mem hn.slashless] at hsplit
  exact hs (cons.inj (append_inj' hsplit rfl).2).1

end Path

namespace Tree

open Path (Name join)

variable {dir n : Text} {d p : Place} {t t' : Tree} {bs : List UInt8}

/-- A directory that is found under a path. -/
structure Folder (dir : Text) (d : Place) (t : Tree) : Prop where
  filled : dir ≠ []
  found : t.resolve dir = .ok d
  isDir : t.at? d = some .dir

lemma Folder.widens (h : Folder dir d t) (hw : Widens t t') : Folder dir d t' :=
  ⟨h.filled, hw.resolve_dir h.found h.isDir, hw.dirs d h.isDir⟩

lemma Folder.resolve (h : Folder dir d t) (hn : Name n) : t.resolve (join dir n) = .ok (d ++ [n]) := by
  obtain ⟨-, hwalk, -⟩ := resolve_iff.mp h.found
  obtain ⟨a, ha⟩ := Path.join_eq h.filled hn
  have hends : Text.endsWithAny (join dir n) ["/", "/."] = false := by
    have hslash := Path.not_endsWith_join h.filled hn hn.step.1.symm (by simp)
    have hpoint := Path.not_endsWith_join h.filled hn hn.step.2.1.symm (by decide)
    exact Bool.or_eq_false_iff.mpr ⟨hslash, Bool.or_eq_false_iff.mpr ⟨hpoint, rfl⟩⟩
  refine resolve_iff.mpr ⟨by simp [ha], ?_, fun hslash => absurd (hends.symm.trans hslash) (by decide)⟩
  have hstep : t.stepTo (join dir n) d n = .ok (d ++ [n]) := by
    rw [stepTo, h.isDir]
    exact congrArg Except.ok (if_neg (by simpa using hn.step.2.2))
  rw [Path.steps_join hn, Path.isAbsolute_join h.filled hn, foldlM_append, (Widens.refl t).walk _ _ hwalk]
  change (t.stepTo (join dir n) d n >>= fun q => pure q) = _
  rw [hstep]
  rfl

lemma Folder.stat (h : Folder dir d t) (hn : Name n) :
    t.stat (join dir n) = match t.at? (d ++ [n]) with | some x => .ok x | none => .error (.notFound (join dir n)) := by
  rw [Tree.stat, h.resolve hn]
  rfl

lemma Folder.pathExists (h : Folder dir d t) (hn : Name n) : t.pathExists (join dir n) = (t.at? (d ++ [n])).isSome := by
  rw [Tree.pathExists, h.stat hn]
  cases t.at? (d ++ [n]) <;> rfl

lemma Folder.removeFile (h : Folder dir d t) (hn : Name n) (hfile : t.at? (d ++ [n]) = some (.file bs)) :
    t.removeFile (join dir n) = .ok (t.erase (d ++ [n])) := by
  simp only [Tree.removeFile, h.resolve hn, bind, Except.bind, hfile]
  rfl

lemma Folder.writeBytes (h : Folder dir d t) (hn : Name n) (hfree : t.at? (d ++ [n]) ≠ some .dir) :
    t.writeBytes (join dir n) bs = .ok (t.set (d ++ [n]) (.file bs)) := by
  have hslash : Text.endsWith (join dir n) "/" = false := Path.not_endsWith_join h.filled hn hn.step.1.symm (by simp)
  simp only [Tree.writeBytes, h.resolve hn, bind, Except.bind, dropLast_concat, h.isDir, hslash]
  cases hat : t.at? (d ++ [n]) with
  | none => rfl
  | some x =>
    cases x with
    | dir => exact absurd hat hfree
    | file old => rfl

lemma Folder.appendBytes (h : Folder dir d t) (hn : Name n) {old : List UInt8}
    (hold : t.at? (d ++ [n]) = some (.file old) ∨ t.at? (d ++ [n]) = none ∧ old = []) :
    t.appendBytes (join dir n) bs = .ok (t.set (d ++ [n]) (.file (old ++ bs))) := by
  rcases hold with hfile | ⟨hnone, rfl⟩
  · rw [Tree.appendBytes, readBytes_iff.mpr ⟨_, h.resolve hn, hfile⟩]
    exact h.writeBytes hn (by simp [hfile])
  · have hread : t.readBytes (join dir n) = .error (.notFound (join dir n)) := by
      rw [readBytes, h.stat hn, hnone]
      rfl
    rw [Tree.appendBytes, hread]
    exact h.writeBytes hn (by simp [hnone])

lemma at_erase (hp : p ≠ []) (q : Place) : (t.erase p).at? q = if q = p then none else t.at? q := by
  by_cases hq : q = p
  · have hnone : (t.erase p).nodes.find? (·.1 == q) = none := by
      simp [erase, hq]
    rw [if_pos hq, at?, if_neg (by simpa [hq] using hp), hnone]
    rfl
  · have hsame : (fun e : Place × Node => decide ((e.1 != p) ∧ (e.1 == q))) = fun e => e.1 == q := by
      funext e
      by_cases he : e.1 = q
      · simp [he, hq]
      · simp [he]
    rw [if_neg hq, at?, at?, erase, find?_filter, hsame]

lemma widens_erase (h : t.at? p ≠ some .dir) : Widens t (t.erase p) := by
  refine ⟨rfl, fun q hq => ?_⟩
  rw [at_erase (ne_nil_of_at h), if_neg]
  · exact hq
  · rintro rfl
    exact h hq

end Tree

namespace Log

open Path (Name join)
open Run (FilesM change)

variable {dir n : Text} {d : Place} {t t' : Tree} {f : File} {held : List UInt8} {now : Moment} {level : Level} {message : Text}

/-- The last part of the path that the file is put aside under. -/
def asideName (n : Text) (f : File) : Text := n ++ ("." ++ f.policy.period.stamp (f.due - f.policy.interval))

/-- A log file in use: it stands in a directory and holds something; there is no directory under a name that it is put aside
under, and no limit to how many are kept. -/
structure InUse (dir n : Text) (d : Place) (f : File) (t : Tree) (held : List UInt8) : Prop where
  path : f.path = join dir n
  name : Name n
  folder : Tree.Folder dir d t
  file : t.at? (d ++ [n]) = some (.file held)
  free : ∀ x, t.at? (d ++ [n ++ ("." ++ x)]) ≠ some .dir
  keep : f.policy.keep ≤ 0
  limit : 0 < f.policy.limit

lemma InUse.of_tree {f' : File} {held' : List UInt8} (h : InUse dir n d f t held) (hpath : f'.path = f.path)
    (hpolicy : f'.policy = f.policy) (hfolder : Tree.Folder dir d t') (hfile : t'.at? (d ++ [n]) = some (.file held'))
    (hdirs : ∀ q, t'.at? q = some .dir → t.at? q = some .dir) : InUse dir n d f' t' held' :=
  ⟨hpath.trans h.path, h.name, hfolder, hfile, fun x hx => h.free x (hdirs _ hx), hpolicy ▸ h.keep, hpolicy ▸ h.limit⟩

lemma asideName_name (hn : Name n) (f : File) : Name (asideName n f) := by
  have hpad : ∀ width k, '/' ∉ Text.padNat width k := fun width k h => by
    rcases mem_append.mp h with h | h
    · exact absurd (eq_of_mem_replicate h) (by decide)
    · exact absurd (Text.isWordChar_of_mem_ofNat h) (by decide)
  have hstamp : '/' ∉ f.policy.period.stamp (f.due - f.policy.interval) := fun h => by
    have h := mem_of_mem_take h
    simp [Moment.date, Moment.twoDigits, hpad] at h
  refine ⟨by simp [asideName, hn.slashless, hstamp], by simp [asideName], fun h => ?_, fun h => ?_⟩
  · have hlength := congrArg length h
    have := length_pos_of_ne_nil hn.step.1
    simp [asideName] at hlength
    omega
  · obtain ⟨c, r, rfl⟩ := exists_cons_of_ne_nil hn.step.1
    cases r with
    | nil =>
      obtain ⟨rfl, -⟩ := cons.inj h
      exact hn.step.2.1 rfl
    | cons c r =>
      have hlength := congrArg length h
      simp [asideName] at hlength

lemma InUse.isTime_iff (h : InUse dir n d f t held) : isTime f now t ↔ f.due ≤ now ∨ f.policy.limit ≤ held.length := by
  have hstat : t.stat f.path = .ok (.file held) := by rw [h.path, h.folder.stat h.name, h.file]
  have hdir : t.isDir f.path = false := by rw [Tree.isDir, hstat]
  have hread : t.readBytes f.path = .ok held := by
    rw [Tree.readBytes, hstat]
    rfl
  rw [isTime, hdir, isFull, hread]
  simp [h.limit]

lemma InUse.aside_path (h : InUse dir n d f t held) :
    f.path ++ "." ++ f.policy.period.stamp (f.due - f.policy.interval) = join dir (asideName n f) := by
  rw [h.path, append_assoc, Path.join_append h.name]
  rfl

lemma run_change_bind {α : Type} {g : Tree → Except Failure Tree} (k : Unit → FilesM α) (h : g t = .ok t') :
    (change g >>= k).run.run t = (k ()).run.run t' := by
  have hget : (get : FilesM Tree).run.run t = (.ok t, t) := rfl
  rw [Run.run_bind, change, Run.run_bind, hget]
  dsimp only
  rw [h]
  rfl

lemma ne_aside : d ++ [n] ≠ d ++ [asideName n f] := by simp [asideName]

/-- The tree after the file was put aside and a new one was begun. -/
def setAside (n : Text) (d : Place) (f : File) (held : List UInt8) (t : Tree) : Tree :=
  ((t.erase (d ++ [n])).set (d ++ [asideName n f]) (.file held)).set (d ++ [n]) (.file [])

lemma InUse.moveAside (h : InUse dir n d f t held) (g : File) :
    (do
      if (← get).pathExists f.path then change (·.moveFile f.path (join dir (asideName n f)))
      touch f.path
      return g : FilesM File).run.run t = (.ok g, setAside n d f held t) ∧ Tree.Folder dir d (setAside n d f held t) := by
  have hp : d ++ [n] ≠ [] := by simp
  have ha : d ++ [asideName n f] ≠ [] := by simp
  have hexists : t.pathExists f.path := by
    rw [h.path, h.folder.pathExists h.name, h.file]
    rfl
  have herased := h.folder.widens (Tree.widens_erase (p := d ++ [n]) (by simp [h.file]))
  have hfree : (t.erase (d ++ [n])).at? (d ++ [asideName n f]) ≠ some .dir := by
    rw [Tree.at_erase hp, if_neg ne_aside.symm]
    exact h.free _
  have hmoved := herased.widens (Tree.widens_set hfree (.file held))
  have hempty : ((t.erase (d ++ [n])).set (d ++ [asideName n f]) (.file held)).at? (d ++ [n]) = none := by
    rw [Tree.at_set ha, if_neg ne_aside, Tree.at_erase hp, if_pos rfl]
  have hmove : t.moveFile f.path (join dir (asideName n f)) = .ok ((t.erase (d ++ [n])).set (d ++ [asideName n f]) (.file held)) := by
    rw [Tree.moveFile, h.path, Tree.readBytes_iff.mpr ⟨_, h.folder.resolve h.name, h.file⟩]
    simp only [h.folder.removeFile h.name h.file]
    exact herased.writeBytes (asideName_name h.name f) hfree
  refine ⟨?_, hmoved.widens (Tree.widens_set (by simp [hempty]) _)⟩
  change (if t.pathExists f.path = true then _ else _ : FilesM File).run.run t = _
  rw [if_pos hexists, run_change_bind _ hmove, touch, run_change_bind _ (h.path ▸ hmoved.appendBytes h.name (.inr ⟨hempty, rfl⟩))]
  rfl

lemma at_setAside (q : Place) : (setAside n d f held t).at? q =
    if q = d ++ [n] then some (.file []) else if q = d ++ [asideName n f] then some (.file held) else t.at? q := by
  rw [setAside, Tree.at_set (by simp), Tree.at_set (by simp), Tree.at_erase (by simp)]
  split
  · rfl
  · rfl

lemma InUse.rollOver (h : InUse dir n d f t held) (now : Moment) :
    ∃ t', (rollOver f false now).run.run t = (.ok { f with due := f.policy.period.next f.policy.interval now }, t') ∧
      Tree.Folder dir d t' ∧
      ∀ q, t'.at? q = if q = d ++ [n] then some (.file [])
        else if q = d ++ [asideName n f] then some (.file held) else t.at? q := by
  have hkeep : ¬0 < f.policy.keep := by have := h.keep; omega
  have hname := asideName_name h.name f
  have hsteps : Log.rollOver f false now = (do
      if (← get).pathExists (join dir (asideName n f)) then change (·.removeFile (join dir (asideName n f)))
      if (← get).pathExists f.path then change (·.moveFile f.path (join dir (asideName n f)))
      touch f.path
      return { f with due := f.policy.period.next f.policy.interval now }) := by
    rw [Log.rollOver, h.aside_path]
    simp only [hkeep, if_false, Bool.not_false, if_true]
  rw [hsteps, Run.run_bind]
  change ∃ t', (if t.pathExists (join dir (asideName n f)) = true then _ else _ : FilesM File).run.run t = _ ∧ _
  rw [h.folder.pathExists hname]
  cases hat : t.at? (d ++ [asideName n f]) with
  | none =>
    obtain ⟨hrun, hfolder⟩ := h.moveAside { f with due := f.policy.period.next f.policy.interval now }
    exact ⟨_, hrun, hfolder, at_setAside⟩
  | some x =>
    obtain ⟨old, rfl⟩ : ∃ old, x = .file old := by
      cases x with
      | dir => exact absurd hat (h.free _)
      | file old => exact ⟨old, rfl⟩
    have herase : ∀ q, (t.erase (d ++ [asideName n f])).at? q = if q = d ++ [asideName n f] then none else t.at? q :=
      Tree.at_erase (by simp)
    have hused : InUse dir n d f (t.erase (d ++ [asideName n f])) held := by
      refine h.of_tree rfl rfl (h.folder.widens (Tree.widens_erase (by simp [hat]))) (by rw [herase, if_neg ne_aside, h.file])
        fun q hq => ?_
      rw [herase] at hq
      split at hq
      · cases hq
      · exact hq
    obtain ⟨hrun, hfolder⟩ := hused.moveAside { f with due := f.policy.period.next f.policy.interval now }
    refine ⟨_, ?_, hfolder, fun q => ?_⟩
    · rw [if_pos Option.isSome_some, run_change_bind _ (h.folder.removeFile hname hat)]
      exact hrun
    · rw [at_setAside, herase]
      split
      · rfl
      · split <;> rfl

/-! ## One call -/

/-- A call to the log. -/
structure Call where
  now : Moment
  level : Level
  message : Text

def Call.record (c : Call) : List UInt8 := Bytes.ofText (line c.now c.level c.message)

lemma InUse.append (h : InUse dir n d f t held) (bs : List UInt8) :
    ∃ t', t.appendBytes f.path bs = .ok t' ∧ InUse dir n d f t' (held ++ bs) ∧ ∀ q, q ≠ d ++ [n] → t'.at? q = t.at? q := by
  have hset : ∀ q, (t.set (d ++ [n]) (.file (held ++ bs))).at? q = if q = d ++ [n] then some (.file (held ++ bs)) else t.at? q :=
    Tree.at_set (by simp) _
  refine ⟨_, h.path ▸ h.folder.appendBytes h.name (.inl h.file), ?_, fun q hq => by rw [hset, if_neg hq]⟩
  refine h.of_tree rfl rfl (h.folder.widens (Tree.widens_set (by simp [h.file]) _)) (by rw [hset, if_pos rfl]) fun q hq => ?_
  rw [hset] at hq
  split at hq
  · cases hq
  · exact hq

lemma run_append {f' : File} {s s' : Tree} {c : Call}
    (h : (if isTime f c.now t then rollOver f false c.now else pure f : FilesM File).run.run t = (.ok f', s))
    (hs : s.appendBytes f'.path c.record = .ok s') : write f false c.now c.level c.message t = (f', s') := by
  have hlast : (do change (·.appendBytes f'.path c.record); return f' : FilesM File).run.run s = (.ok f', s') :=
    run_change_bind _ hs
  have hrun : (append f false c.now c.level c.message).run.run t = (.ok f', s') := by
    change (if isTime f c.now t = true then _ else _ : FilesM File).run.run t = _
    split
    next htime =>
      rw [if_pos htime] at h
      rw [Run.run_bind, h]
      exact hlast
    next htime =>
      rw [if_neg htime] at h
      rw [Run.run_bind, h]
      exact hlast
  rw [write, hrun]

/-- A call writes its record behind what the file holds, or puts the file aside and begins a new one with it. -/
lemma InUse.write (h : InUse dir n d f t held) (c : Call) :
    ∃ f' t', write f false c.now c.level c.message t = (f', t') ∧ f'.policy = f.policy ∧
      if isTime f c.now t then
        InUse dir n d f' t' c.record ∧
          ∀ q, q ≠ d ++ [n] → t'.at? q = if q = d ++ [asideName n f] then some (.file held) else t.at? q
      else InUse dir n d f' t' (held ++ c.record) ∧ ∀ q, q ≠ d ++ [n] → t'.at? q = t.at? q := by
  by_cases htime : isTime f c.now t
  · obtain ⟨s, hroll, hfolder, hat⟩ := h.rollOver c.now
    have hnew : InUse dir n d { f with due := f.policy.period.next f.policy.interval c.now } s [] := by
      refine h.of_tree rfl rfl hfolder (by rw [hat, if_pos rfl]) fun q hq => ?_
      rw [hat] at hq
      split at hq
      · cases hq
      · split at hq
        · cases hq
        · exact hq
    obtain ⟨t', hrun, hused, hothers⟩ := hnew.append c.record
    rw [nil_append] at hused
    refine ⟨_, t', run_append (by rw [if_pos htime]; exact hroll) hrun, rfl, ?_⟩
    rw [if_pos htime]
    exact ⟨hused, fun q hq => by rw [hothers q hq, hat, if_neg hq]⟩
  · obtain ⟨t', hrun, hused, hothers⟩ := h.append c.record
    refine ⟨f, t', run_append (by rw [if_neg htime]; rfl) hrun, rfl, ?_⟩
    rw [if_neg htime]
    exact ⟨hused, hothers⟩

/-! ## Many calls -/

def writeAll (f : File) (t : Tree) (cs : List Call) : File × Tree :=
  cs.foldl (fun s c => Log.write s.1 false c.now c.level c.message s.2) (f, t)

/-- What calls put aside, in order: the paths and what the files held. -/
def putAside : File → Tree → List Call → List (Text × List UInt8)
  | _, _, [] => []
  | f, t, c :: cs =>
    let next := Log.write f false c.now c.level c.message t
    let later := putAside next.1 next.2 cs
    match t.readBytes f.path with
    | .ok bs => if isTime f c.now t then (f.path ++ "." ++ f.policy.period.stamp (f.due - f.policy.interval), bs) :: later else later
    | .error _ => later

variable {f' : File} {c : Call} {cs : List Call}

lemma InUse.putAside_cons (h : InUse dir n d f t held) (hwrite : Log.write f false c.now c.level c.message t = (f', t')) :
    putAside f t (c :: cs) =
      if isTime f c.now t then (join dir (asideName n f), held) :: putAside f' t' cs else putAside f' t' cs := by
  have hread : t.readBytes f.path = .ok held := by
    rw [h.path]
    exact Tree.readBytes_iff.mpr ⟨_, h.folder.resolve h.name, h.file⟩
  rw [putAside, hread, hwrite, ← h.aside_path]

lemma writeAll_cons (hwrite : write f false c.now c.level c.message t = (f', t')) :
    writeAll f t (c :: cs) = writeAll f' t' cs := by
  rw [writeAll, foldl_cons, hwrite, writeAll]

/-- Records of a file that stays in bounds: only the last one may pass the limit. -/
def Bounded (limit : Int) (rs : List (List UInt8)) : Prop := ∃ init r, rs = init ++ [r] ∧ init.flatten.length < limit

lemma InUse.records {rs : List (List UInt8)} (h : InUse dir n d f t rs.flatten) (hrs : Bounded f.policy.limit rs) (cs : List Call) :
    ∃ files last, files.flatten ++ last = rs ++ cs.map Call.record ∧ (putAside f t cs).map (·.2) = files.map flatten ∧
      (∃ g, InUse dir n d g (writeAll f t cs).2 last.flatten) ∧ ∀ x ∈ last :: files, Bounded f.policy.limit x := by
  induction cs generalizing f t rs with
  | nil => exact ⟨[], rs, by simp, rfl, ⟨f, h⟩, by simpa using hrs⟩
  | cons c cs ih =>
    obtain ⟨f', t', hwrite, hpolicy, hcase⟩ := h.write c
    rw [h.putAside_cons hwrite, writeAll_cons hwrite]
    by_cases htime : isTime f c.now t
    · rw [if_pos htime] at hcase ⊢
      have hnew : Bounded f'.policy.limit [c.record] := ⟨[], c.record, rfl, hcase.1.limit⟩
      obtain ⟨files, last, hrecords, haside, hend, hbounded⟩ := ih (by simpa using hcase.1) hnew
      refine ⟨rs :: files, last, by simpa using hrecords, by simp [haside], hend, ?_⟩
      rw [hpolicy] at hbounded
      simpa [hrs] using hbounded
    · rw [if_neg htime] at hcase ⊢
      have hmore : Bounded f'.policy.limit (rs ++ [c.record]) := by
        refine ⟨rs, c.record, rfl, ?_⟩
        have := mt h.isTime_iff.mpr htime
        rw [hpolicy]
        omega
      obtain ⟨files, last, hrecords, haside, hend, hbounded⟩ := ih (by simpa using hcase.1) hmore
      rw [hpolicy] at hbounded
      exact ⟨files, last, by simpa using hrecords, haside, hend, hbounded⟩

lemma InUse.records_of (h : InUse dir n d f t held) (cs : List Call) :
    ∃ files last, files.flatten ++ last = held :: cs.map Call.record ∧ (putAside f t cs).map (·.2) = files.map flatten ∧
      (∃ g, InUse dir n d g (writeAll f t cs).2 last.flatten) ∧ ∀ x ∈ last :: files, Bounded f.policy.limit x := by
  have hheld : InUse dir n d f t [held].flatten := by simpa using h
  exact hheld.records ⟨[], held, rfl, h.limit⟩ cs

lemma InUse.untouched {m : Text} (h : InUse dir n d f t held) (hm : m ≠ n) (hpaths : ∀ a ∈ putAside f t cs, a.1 ≠ join dir m) :
    (writeAll f t cs).2.at? (d ++ [m]) = t.at? (d ++ [m]) := by
  induction cs generalizing f t held with
  | nil => rfl
  | cons c cs ih =>
    obtain ⟨f', t', hwrite, -, hcase⟩ := h.write c
    rw [h.putAside_cons hwrite] at hpaths
    rw [writeAll_cons hwrite]
    have hplace : d ++ [m] ≠ d ++ [n] := by simpa using hm
    by_cases htime : isTime f c.now t
    · rw [if_pos htime] at hcase hpaths
      obtain ⟨hfirst, hrest⟩ := forall_mem_cons.mp hpaths
      have haside : m ≠ asideName n f := fun heq => hfirst (by rw [heq])
      rw [ih hcase.1 hrest, hcase.2 _ hplace, if_neg (by simpa using haside)]
    · rw [if_neg htime] at hcase hpaths
      rw [ih hcase.1 hpaths, hcase.2 _ hplace]

lemma InUse.kept_iff (h : InUse dir n d f t held) :
    (∀ a ∈ putAside f t cs, (writeAll f t cs).2.readBytes a.1 = .ok a.2) ↔
      (putAside f t cs).Pairwise fun a b => a.1 = b.1 → a.2 = b.2 := by
  induction cs generalizing f t held with
  | nil => simp [putAside]
  | cons c cs ih =>
    obtain ⟨f', t', hwrite, -, hcase⟩ := h.write c
    rw [h.putAside_cons hwrite, writeAll_cons hwrite]
    by_cases htime : isTime f c.now t
    · rw [if_pos htime] at hcase ⊢
      rw [forall_mem_cons, pairwise_cons, ih hcase.1]
      refine and_congr_left fun hlater => ?_
      have hread := (ih hcase.1).mpr hlater
      constructor
      · intro hfirst b hb heq
        exact Except.ok.inj (hfirst.symm.trans (heq ▸ hread b hb))
      · intro hsame
        by_cases hagain : ∃ b ∈ putAside f' t' cs, join dir (asideName n f) = b.1
        · obtain ⟨b, hb, heq⟩ := hagain
          rw [heq, hread b hb]
          exact congrArg Except.ok (hsame b hb heq).symm
        · obtain ⟨-, last, -, -, ⟨g, hend⟩, -⟩ := hcase.1.records_of cs
          have hplace := hcase.1.untouched (by simp [asideName]) fun b hb heq => hagain ⟨b, hb, heq.symm⟩
          rw [hcase.2 _ ne_aside.symm, if_pos rfl] at hplace
          exact Tree.readBytes_iff.mpr ⟨_, hend.folder.resolve (asideName_name h.name f), hplace⟩
    · rw [if_neg htime] at hcase ⊢
      exact ih hcase.1

/-- A directory for logs. -/
def logDirectory : Tree := ⟨[(["log"], .dir)], []⟩

/-- The log of the program, opened in that directory on the first day of 1970. -/
def firstLog : Except Failure File × Tree := (openIn "log" "a.log" logDirectory.absolute 0 0).run.run logDirectory

def dailyCalls : List Call := [⟨0, .info, "a"⟩, ⟨90000, .info, "b"⟩, ⟨180000, .info, "c"⟩]

end Log

end FunctionDocs
