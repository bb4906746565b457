import FunctionDocs.Proofs.RunSteps
import FunctionDocs.World

/-!
# Steps in the world

How steps in the world end, and which files they leave. What they print and log on the way is left open: no step reads it.
-/

namespace FunctionDocs.WorldM

open Run (FilesM run_bind run_tryCatch)

variable {α β : Type} {w : World} {t t' : Tree}

/-- In a world, steps end with a result and leave files; beside these only what is printed and logged changes. -/
def Ends (m : WorldM α) (w : World) (r : Except Stop α) (t : Tree) : Prop :=
  ∃ printed log, m.run.run w = (r, { w with tree := t, printed := printed, log := log })

lemma Ends.result {m : WorldM α} {r : Except Stop α} (h : Ends m w r t) : (m.run.run w).1 = r := by
  obtain ⟨_, _, h⟩ := h
  rw [h]

lemma Ends.tree {m : WorldM α} {r : Except Stop α} (h : Ends m w r t) : (m.run.run w).2.tree = t := by
  obtain ⟨_, _, h⟩ := h
  rw [h]

lemma ends_pure (a : α) : Ends (pure a) w (.ok a) w.tree := ⟨_, _, rfl⟩

lemma ends_fail (f : Failure) : Ends (fail f : WorldM α) w (.error (.failed f)) w.tree := ⟨_, _, rfl⟩

lemma ends_print (text : Text) : Ends (print text) w (.ok ()) w.tree := ⟨_, _, rfl⟩

lemma ends_logMessage (level : Level) (message : Text) : Ends (logMessage level message) w (.ok ()) w.tree := ⟨_, _, rfl⟩

lemma Ends.bind {m : WorldM α} {f : α → WorldM β} {a : α} {r : Except Stop β} (h : Ends m w (.ok a) t)
    (hf : ∀ printed log, Ends (f a) { w with tree := t, printed := printed, log := log } r t') : Ends (m >>= f) w r t' := by
  obtain ⟨printed, log, h⟩ := h
  obtain ⟨printed', log', hf⟩ := hf printed log
  refine ⟨printed', log', ?_⟩
  rw [run_bind, h]
  exact hf

lemma Ends.stop {m : WorldM α} {f : α → WorldM β} {stop : Stop} (h : Ends m w (.error stop) t) :
    Ends (m >>= f) w (.error stop) t := by
  obtain ⟨printed, log, h⟩ := h
  refine ⟨printed, log, ?_⟩
  rw [run_bind, h]

lemma Ends.get {f : World → WorldM α} {r : Except Stop α} (h : Ends (f w) w r t) : Ends (get >>= f) w r t := by
  obtain ⟨printed, log, h⟩ := h
  refine ⟨printed, log, ?_⟩
  exact h

lemma ends_logMessages (level : Level) (message : Text → Text) (ts : List Text) :
    Ends (ts.forM fun t => logMessage level (message t)) w (.ok ()) w.tree := by
  induction ts generalizing w with
  | nil => exact ends_pure ()
  | cons t ts ih => exact (ends_logMessage level (message t)).bind fun _ _ => ih

lemma ends_settle (x : Except Failure α) : Ends (settle x) w (x.mapError .failed) w.tree := by
  cases x with
  | ok a => exact ends_pure a
  | error f => exact ends_fail f

lemma ends_look (f : Tree → Except Failure α) : Ends (look f) w ((f w.tree).mapError .failed) w.tree := ends_settle _

lemma ends_onFiles (x : FilesM α) : Ends (onFiles x) w ((x.run.run w.tree).1.mapError .failed) (x.run.run w.tree).2 :=
  ends_settle (w := { w with tree := (x.run.run w.tree).2 }) (x.run.run w.tree).1

lemma Ends.recover_ok {m : WorldM α} {handle : Failure → WorldM α} {a : α} (h : Ends m w (.ok a) t) :
    Ends (recover m handle) w (.ok a) t := by
  obtain ⟨printed, log, h⟩ := h
  exact ⟨printed, log, by rw [recover, run_tryCatch, h]⟩

lemma Ends.recover_failed {m : WorldM α} {handle : Failure → WorldM α} {f : Failure} {r : Except Stop α}
    (h : Ends m w (.error (.failed f)) t)
    (hf : ∀ printed log, Ends (handle f) { w with tree := t, printed := printed, log := log } r t') :
    Ends (recover m handle) w r t' := by
  obtain ⟨printed, log, h⟩ := h
  obtain ⟨printed', log', hf⟩ := hf printed log
  refine ⟨printed', log', ?_⟩
  rw [recover, run_tryCatch, h]
  exact hf

end FunctionDocs.WorldM
