import FunctionDocs.App.CommandLine
import FunctionDocs.Proofs.LineNumbers

/-!
# Reports of documented functions

A run gives complete entries, and their report is written to its end, in either format. The last thing it tells is the version of
the program.
-/

open List

namespace FunctionDocs

/-- The entry of a function with its documentation, wherever the function stands. -/
def Entry.Complete (e : Entry) : Prop :=
  ∃ (f : Source.Function) (line : Int) (comment : Text),
    e = { Entry.ofFunction f with startLine := some line, doxygen := some (some comment) }

namespace Report

variable {e : Entry} {a b d : Draft}

/-! ## Drafts without failures -/

/-- All pieces of the document could be made. -/
def Draft.Sound (d : Draft) : Prop := ∀ p ∈ d, p.isOk = true

lemma Draft.Sound.append (ha : a.Sound) (hb : b.Sound) : (a ++ b).Sound := forall_mem_append.mpr ⟨ha, hb⟩

lemma Draft.sound_nil : Sound [] := forall_mem_nil _

lemma Draft.sound_ok (t : Text) : Sound [.ok t] := forall_mem_singleton.mpr rfl

lemma Draft.sound_if {c : Prop} [Decidable c] (h : d.Sound) : Sound (if c then d else []) := by
  split
  · exact h
  · exact sound_nil

lemma Draft.sound_cons {p : Except Failure Text} : Sound (p :: d) ↔ p.isOk ∧ d.Sound := forall_mem_cons

lemma Draft.Sound.failure (h : d.Sound) : d.failure? = none := by
  induction d with
  | nil => rfl
  | cons p d ih =>
    obtain ⟨hp, hd⟩ := sound_cons.mp h
    cases p with
    | ok t => exact ih hd
    | error f => cases hp

lemma Draft.Sound.written_append (h : a.Sound) : (a ++ b).written = a.written ++ b.written := by
  induction a with
  | nil => rfl
  | cons p a ih =>
    obtain ⟨hp, ha⟩ := sound_cons.mp h
    cases p with
    | ok t =>
      change t ++ written (a ++ b) = t ++ written a ++ written b
      rw [ih ha, append_assoc]
    | error f => cases hp

lemma Draft.whole_ok (ts : List Text) : whole (ts.map .ok) = .ok ts.flatten := by
  have hsound : Sound (ts.map .ok) := forall_mem_map.mpr fun _ _ => rfl
  have hwritten : written (ts.map .ok) = ts.flatten := by
    induction ts with
    | nil => rfl
    | cons t ts ih => rw [map_cons, written, ih (sound_cons.mp hsound).2, flatten_cons]
  rw [whole, hsound.failure, hwritten]

lemma markerOf_ok {t : Text} (h : e.doxygenText (.notSearchable "NoneType") = .ok t) (highlight : Bool) :
    ∃ m, markerOf highlight e = .ok m := by
  cases highlight with
  | false => exact ⟨_, rfl⟩
  | true =>
    have hmarker : markerOf true e = if Coverage.hasTodo t then .ok .pending else .ok .finished := by
      rw [markerOf, h]
      rfl
    rw [hmarker]
    split
    · exact ⟨_, rfl⟩
    · exact ⟨_, rfl⟩

lemma markerOf_complete (h : e.Complete) (highlight : Bool) : ∃ m, markerOf highlight e = .ok m := by
  obtain ⟨f, line, comment, rfl⟩ := h
  exact markerOf_ok rfl highlight

lemma fileNote_complete (h : e.Complete) : ∃ note, fileNote e = .ok note := by
  obtain ⟨f, line, comment, rfl⟩ := h
  exact ⟨_, rfl⟩

/-! ## The documents of complete entries -/

/-- The page of a document is a front, the version of the program, and a closing. -/
def Closes (page : Value → Except Failure Draft) (d : App.Document) (closing : Text) : Prop :=
  ∃ front : Text, ∀ {arguments : Value} {version : Text}, Value.fieldOf arguments "document" = .ok d.toValue →
    softwareVersion arguments = .ok version → ∃ p, page arguments = .ok p ∧ p.Sound ∧ p.written = front ++ version ++ closing

lemma closes_of_body {page : Value → Except Failure Draft} {d : App.Document} {body : Draft} {closing : Text} (opening : Text)
    (hbody : body.Sound) (hpage : ∀ arguments version, Value.fieldOf arguments "document" = .ok d.toValue →
      softwareVersion arguments = .ok version → page arguments = .ok (body ++ [.ok (opening ++ version ++ closing)])) :
    Closes page d closing := by
  refine ⟨body.written ++ opening, fun {arguments version} hinfo hversion => ?_⟩
  refine ⟨_, hpage arguments version hinfo hversion, hbody.append (Draft.sound_ok _), ?_⟩
  rw [hbody.written_append]
  simp only [Draft.written, append_assoc, append_nil]

namespace Markdown

variable {e : Entry}

lemma sound_header (d : App.Document) : (header d.toValue).Sound := by
  refine (Draft.sound_if (Draft.sound_ok _)).append ?_
  repeat refine Draft.sound_cons.mpr ⟨rfl, ?_⟩
  exact Draft.sound_nil

lemma sound_progress (s : Coverage.Stats) : (progress s.figures).Sound := by
  repeat refine Draft.sound_cons.mpr ⟨rfl, ?_⟩
  exact Draft.sound_nil

lemma tocLine_complete (h : e.Complete) (highlight : Bool) : (tocLine highlight e).isOk := by
  obtain ⟨m, hm⟩ := markerOf_complete h highlight
  obtain ⟨f, line, comment, rfl⟩ := h
  rw [tocLine, hm]
  rfl

lemma sound_functionPieces (h : e.Complete) (highlight : Bool) : (functionPieces highlight e).Sound := by
  obtain ⟨m, hm⟩ := markerOf_complete h highlight
  obtain ⟨note, hnote⟩ := fileNote_complete h
  obtain ⟨f, line, comment, rfl⟩ := h
  rw [functionPieces, hm, hnote]
  have hcomment : (if comment.isEmpty then [] else
      (if m = .pending then [.ok "> ⚠️ **Warning: Function contains a TODO mark!**\n\n"] else []) ++
        [.ok "### 📘 Documentation\n", .ok (note ++ "\n\n"), .ok (formatComment comment ++ "\n\n")] : Draft).Sound := by
    split
    · exact Draft.sound_nil
    · refine (Draft.sound_if (Draft.sound_ok _)).append ?_
      repeat refine Draft.sound_cons.mpr ⟨rfl, ?_⟩
      exact Draft.sound_nil
  exact Draft.sound_cons.mpr ⟨rfl, Draft.sound_cons.mpr ⟨rfl, hcomment⟩⟩

def closing : Text := "</div>\n"

lemma page_complete {es : List Entry} (h : ∀ e ∈ es, e.Complete) (d : App.Document) (s : Coverage.Stats) :
    Closes (page es · s.figures) d closing := by
  let highlight := d.highlightTodo.isTrue
  have hprogress : Draft.Sound (if d.showProgress.isTrue then progress s.figures else []) := Draft.sound_if (sound_progress s)
  have htoc : Draft.Sound (es.map (tocLine highlight)) := forall_mem_map.mpr fun e he => tocLine_complete (h e he) highlight
  have hfunctions : Draft.Sound (es.flatMap (functionPieces highlight)) :=
    forall_mem_flatMap.mpr fun e he => sound_functionPieces (h e he) highlight
  have hbody := (((((sound_header d).append hprogress).append (Draft.sound_ok "## 📚 Table of Content\n\n")).append htoc).append
    (Draft.sound_ok "\n")).append hfunctions
  refine closes_of_body "<div align='right'>SW-Version: " (hbody.append (Draft.sound_ok "\n---\n")) fun _ _ hinfo hversion => ?_
  rw [page, hinfo, footer, hversion, append_assoc]
  rfl

end Markdown

namespace Html

variable {e : Entry} {es : List Entry}

lemma sound_header (d : App.Document) : (header d.toValue).Sound := by
  have hlogo : ∃ logo, logoOf d.toValue = .ok logo := by
    change ∃ logo, (if d.logo.isTrue then Except.ok _ else .ok []) = .ok logo
    split
    · exact ⟨_, rfl⟩
    · exact ⟨_, rfl⟩
  obtain ⟨logo, hlogo⟩ := hlogo
  rw [header, hlogo]
  exact Draft.sound_cons.mpr ⟨rfl, Draft.sound_nil⟩

lemma sound_progress (s : Coverage.Stats) : (progress s.figures).Sound :=
  Draft.sound_cons.mpr ⟨rfl, Draft.sound_cons.mpr ⟨rfl, Draft.sound_nil⟩⟩

lemma tocLine_complete (h : e.Complete) (highlight : Bool) : (tocLine highlight e).isOk := by
  obtain ⟨m, hm⟩ := markerOf_complete h highlight
  obtain ⟨f, line, comment, rfl⟩ := h
  rw [tocLine, hm]
  rfl

lemma sound_functionPieces (h : e.Complete) (highlight : Bool) (i : Nat) : (functionPieces highlight i e).Sound := by
  obtain ⟨m, hm⟩ := markerOf_complete h highlight
  obtain ⟨f, line, comment, rfl⟩ := h
  rw [functionPieces, hm]
  refine ((Draft.Sound.append ?_ (Draft.sound_if (Draft.sound_ok _))).append ?_).append ?_
  · exact Draft.sound_cons.mpr ⟨rfl, Draft.sound_nil⟩
  · exact Draft.sound_cons.mpr ⟨rfl, Draft.sound_nil⟩
  · change Draft.Sound (if comment.isEmpty then [] else commentPieces i _ comment)
    split
    · exact Draft.sound_nil
    · exact Draft.sound_cons.mpr ⟨rfl, Draft.sound_ok _⟩

lemma sound_functionsFrom (h : ∀ e ∈ es, e.Complete) (highlight : Bool) (i : Nat) : (functionsFrom highlight i es).Sound := by
  induction es generalizing i with
  | nil => exact Draft.sound_nil
  | cons e es ih =>
    obtain ⟨he, hes⟩ := forall_mem_cons.mp h
    exact (sound_functionPieces he highlight i).append (ih hes (i + 1))

def closing : Text := "
    </div>
</body></html>
"

def opening : Text := "
    <div style=\"position: fixed; bottom: 10px; right: 10px; font-size: 12px; color: #666;\">
        SW-Version: "

lemma page_complete (h : ∀ e ∈ es, e.Complete) (d : App.Document) (s : Coverage.Stats) :
    Closes (page es · s.figures) d closing := by
  have hprogress : Draft.Sound (if d.showProgress.isTrue then progress s.figures else []) := Draft.sound_if (sound_progress s)
  have htoc : (toc d.highlightTodo.isTrue es).Sound :=
    ((Draft.sound_ok _).append (forall_mem_map.mpr fun e he => tocLine_complete (h e he) _)).append (Draft.sound_ok _)
  have hfunctions : (functions d.highlightTodo.isTrue es).Sound := sound_functionsFrom h _ 0
  refine closes_of_body opening ((((sound_header d).append hprogress).append htoc).append hfunctions)
    fun _ _ hinfo hversion => ?_
  rw [page, hinfo, footer, hversion]
  rfl

end Html

end Report

namespace Run

open DocBlock Header

variable {es : List Entry} {path : Text} {t t' : Tree} {r : Request} {paths : List Text}

/-! ## The entries of a run -/

lemma complete_of_entriesOf {content : Text} (h : entriesOf path content = .ok es) : ∀ e ∈ es, e.Complete := by
  intro e he
  obtain ⟨fs, -, hdocument⟩ := ok_of_bind_ok h
  obtain ⟨x, hx, hcompose⟩ := mem_of_mapM_ok hdocument e he
  obtain ⟨f, -, rfl⟩ := mem_map.mp hx
  rw [document, compose_ofFunction] at hcompose
  cases hcompose
  exact ⟨f, f.startLine, _, rfl⟩

lemma complete_of_rewriteFile {style : Value} (h : Gives (rewriteFile style path) t (some es) t') : ∀ e ∈ es, e.Complete := by
  obtain ⟨_, _, _, _, es₀, _, -, -, -, -, hes₀, heq, hlast⟩ := rewriteFile_gives h
  cases heq
  split at hlast
  · obtain ⟨ls, -, -, hupdate⟩ := hlast
    intro e he
    obtain ⟨e₀, he₀, i, -, rfl⟩ := mem_updateStarts hupdate e he
    obtain ⟨f, line, comment, rfl⟩ := complete_of_entriesOf hes₀ e₀ he₀
    exact ⟨f, i, comment, rfl⟩
  · rw [hlast.1]
    exact complete_of_entriesOf hes₀

lemma complete_of_documentFile (h : Gives (documentFile r path) t (some es) t') : ∀ e ∈ es, e.Complete := by
  cases hread : r.readOnly with
  | true =>
    obtain ⟨_, hdocumented, heq, -⟩ := documentFile_reads hread h
    cases heq
    obtain ⟨content, -, hes⟩ := ok_of_bind_ok hdocumented
    exact complete_of_entriesOf hes
  | false =>
    obtain ⟨kept, mid, -, hrest⟩ := documentFile_writes hread h
    split at hrest
    · exact complete_of_rewriteFile hrest
    · cases hrest.1

lemma complete_of_documentFiles (h : Gives (documentFiles r paths) t (.documented es) t') : ∀ e ∈ es, e.Complete := by
  induction paths generalizing t es with
  | nil =>
    obtain ⟨heq, -⟩ := gives_pure h
    cases heq
    exact forall_mem_nil _
  | cons path paths ih =>
    obtain ⟨es₁, es₂, mid, hfile, hrest, rfl⟩ := documentFiles_documented h
    exact forall_mem_append.mpr ⟨complete_of_documentFile hfile, ih hrest⟩

lemma complete_of_generate {arguments : Value}
    (h : Gives (generate arguments paths) t (.documented es) t') : ∀ e ∈ es, e.Complete := by
  obtain ⟨r, mid, -, hfiles⟩ := gives_bind h
  exact complete_of_documentFiles hfiles

end Run

end FunctionDocs
