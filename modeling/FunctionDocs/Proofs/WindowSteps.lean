import FunctionDocs.Proofs.World
import FunctionDocs.Window.Configure

/-!
# Steps of a session

What a run from the window depends on is a part of its session: the core. It leaves out what is printed, logged and shown.
Steps are described by what they do to the core.
-/

namespace FunctionDocs.Window

open WindowM
open Run (ran_bind run_bind run_tryCatch)

/-- What a run from the window depends on: the files, the time, what the fields and lists hold, and the settings. -/
structure Core where
  installation : App.Installation
  tree : Tree
  now : Moment
  texts : Field → Value
  chosen : Combo → Nat
  entries : Combo → Nat → Value
  book : App.Phrasebook
  edited : Bool
  settings : Option App.Settings
  branded : Bool

def Session.core (s : Session) : Core where
  installation := s.installation
  tree := s.world.tree
  now := s.world.now
  texts := s.view.texts
  chosen := s.view.chosen
  entries k i := s.view.captions (.entry k i)
  book := s.view.book
  edited := s.view.edited
  settings := s.view.settings
  branded := s.view.branded

variable {α β : Type} {P Q : Core → Prop} {m : WindowM α} {a : α} {f : α → WindowM β} {s : Session} {c d : Core} {p : Prop}
  {m' : WindowM α} {s' : Session} {b : β}

/-- From a session, steps end with a result and lead to a core. -/
def Does (m : WindowM α) (s : Session) (r : Except Stop α) (c : Core) : Prop :=
  (m.run.run s).1 = r ∧ (m.run.run s).2.core = c

lemma Does.run {r : Except Stop α} (h : Does m s r c) : ∃ s', m.run.run s = (r, s') ∧ s'.core = c := ⟨_, Prod.ext h.1 rfl, h.2⟩

lemma Does.bind {r : Except Stop β} (h : Does m s (.ok a) c)
    (hf : ∀ s', s'.core = c → Does (f a) s' r d) : Does (m >>= f) s r d := by
  obtain ⟨s', hrun, hcore⟩ := h.run
  rw [Does, run_bind, hrun]
  exact hf s' hcore

lemma Does.stop {stop : Stop} (h : Does m s (.error stop) c) : Does (m >>= f) s (.error stop) c := by
  obtain ⟨s', hrun, hcore⟩ := h.run
  rw [Does, run_bind, hrun]
  exact ⟨rfl, hcore⟩

lemma does_pure (a : α) : Does (pure a) s (.ok a) s.core := ⟨rfl, rfl⟩

lemma does_fail (f : Failure) : Does (fail f : WindowM α) s (.error (.failed f)) s.core := ⟨rfl, rfl⟩

lemma Does.get {f : Session → WindowM α} {r : Except Stop α} (h : Does (f s) s r c) : Does (get >>= f) s r c := by
  exact h

lemma Does.view {f : View → WindowM α} {r : Except Stop α} (h : Does (f s.view) s r c) : Does (view >>= f) s r c := by
  exact h

lemma Does.tree {f : Tree → WindowM α} {r : Except Stop α} (h : Does (f s.core.tree) s r c) : Does (tree >>= f) s r c := by
  exact h

lemma does_modifyView (f : View → View) : Does (modifyView f) s (.ok ()) ({ s with view := f s.view } : Session).core :=
  ⟨rfl, rfl⟩

lemma does_settle (x : Except Failure α) : Does (settle x) s (x.mapError .failed) s.core := by
  cases x with
  | ok a => exact does_pure a
  | error f => exact does_fail f

lemma does_inWorld {m : WorldM α} {r : Except Stop α} {t : Tree} (h : WorldM.Ends m s.world r t) :
    Does (inWorld m) s r { s.core with tree := t } := by
  obtain ⟨printed, log, h⟩ := h
  have hrun : (inWorld m).run.run s = ((m.run.run s.world).1, { s with world := (m.run.run s.world).2 }) := rfl
  rw [Does, hrun, h]
  exact ⟨rfl, rfl⟩

lemma does_onFiles (m : Run.FilesM α) :
    Does (inWorld (WorldM.onFiles m)) s ((m.run.run s.core.tree).1.mapError .failed)
      { s.core with tree := (m.run.run s.core.tree).2 } :=
  does_inWorld (WorldM.ends_onFiles (w := s.world) m)

lemma does_log (level : Level) (message : Text) : Does (log level message) s (.ok ()) s.core :=
  (does_inWorld (WorldM.ends_logMessage level message)).bind fun _ hs => ⟨rfl, hs⟩

lemma does_setStatus (text : Text) : Does (setStatus text) s (.ok ()) s.core := ⟨rfl, rfl⟩

lemma does_setVisible (x : Widget) (shown : Bool) : Does (modifyView (·.setVisible x shown)) s (.ok ()) s.core := ⟨rfl, rfl⟩

lemma does_modifySettings (f : App.Settings → App.Settings) :
    Does (modifySettings f) s (.ok ()) { s.core with settings := s.core.settings.map f } := ⟨rfl, rfl⟩

/-! ## Steps that keep a part of the session -/

variable {γ : Type} {g : Session → γ}

/-- Steps after which a part of the session is as before, however they end. -/
def Keeps (g : Session → γ) (m : WindowM α) : Prop := ∀ s, g (m.run.run s).2 = g s

lemma Keeps.bind (h : Keeps g m) (hf : ∀ a, Keeps g (f a)) : Keeps g (m >>= f) := by
  intro s
  have hm := h s
  rw [run_bind]
  match hrun : m.run.run s with
  | (.ok a, s') =>
    rw [hrun] at hm
    exact (hf a s').trans hm
  | (.error stop, s') =>
    rw [hrun] at hm
    exact hm

lemma Keeps.forM {f : α → WindowM Unit} (h : ∀ a, Keeps g (f a)) (as : List α) : Keeps g (as.forM f) := by
  induction as with
  | nil => exact fun _ => rfl
  | cons a as ih => exact (h a).bind fun _ => ih

lemma Keeps.ite [Decidable p] (h : Keeps g m) (h' : Keeps g m') : Keeps g (if p then m else m') := by
  split
  · exact h
  · exact h'

lemma Keeps.eq {r : Except Stop α} (h : Keeps g m) (hrun : m.run.run s = (r, s')) : g s' = g s := by
  have hs := h s
  rw [hrun] at hs
  exact hs

lemma keeps_pure (a : α) : Keeps g (pure a) := fun _ => rfl

lemma keeps_get : Keeps g get := fun _ => rfl

lemma keeps_tree : Keeps g tree := fun _ => rfl

lemma keeps_view : Keeps g view := fun _ => rfl

lemma keeps_settle (x : Except Failure α) : Keeps g (settle x) := by
  cases x with
  | ok a => exact keeps_pure a
  | error f => exact fun _ => rfl

/-- Steps after which the core is as before, however they end. -/
def Silent (m : WindowM α) : Prop := ∀ s, (m.run.run s).2.core = s.core

lemma Silent.bind (h : Silent m) (hf : ∀ a, Silent (f a)) : Silent (m >>= f) := Keeps.bind h hf

lemma Silent.ite [Decidable p] (h : Silent m) (h' : Silent m') : Silent (if p then m else m') := Keeps.ite h h'

lemma silent_log (level : Level) (message : Text) : Silent (log level message) := fun _ => (does_log level message).2

lemma silent_setStatus (text : Text) : Silent (setStatus text) := fun _ => (does_setStatus text).2

lemma silent_pure (a : α) : Silent (pure a) := keeps_pure a

def Session.face (s : Session) : Core × (Caption → Value) := (s.core, s.view.captions)

lemma Keeps.silent (h : Keeps Session.face m) : Silent m := fun s => congrArg Prod.fst (h s)

lemma keeps_log (level : Level) (message : Text) : Keeps Session.face (log level message) := fun _ => rfl

lemma keeps_print (text : Text) : Keeps Session.face (inWorld (WorldM.print text)) := fun _ => rfl

/-! ## Steps that succeed -/

/-- From a session, steps succeed with a result and lead to a core of one kind. -/
def Reaches (m : WindowM α) (s : Session) (a : α) (Q : Core → Prop) : Prop :=
  ∃ s', m.run.run s = (.ok a, s') ∧ Q s'.core

lemma Reaches.step (h : m.run.run s = (.ok a, s'))
    (hf : Reaches (f a) s' b Q) : Reaches (m >>= f) s b Q := by
  obtain ⟨done, hrun, hdone⟩ := hf
  refine ⟨done, ?_, hdone⟩
  rw [run_bind, h]
  exact hrun

lemma Reaches.bind {R : Core → Prop} (h : Reaches m s a Q)
    (hf : ∀ s', Q s'.core → Reaches (f a) s' b R) : Reaches (m >>= f) s b R := by
  obtain ⟨mid, hm, hmid⟩ := h
  exact .step hm (hf mid hmid)

lemma Does.reaches (h : Does m s (.ok a) c) (hc : Q c) : Reaches m s a Q := ⟨(m.run.run s).2, Prod.ext h.1 rfl, h.2 ▸ hc⟩

lemma Reaches.view {f : View → WindowM α} (h : Reaches (f s.view) s a Q) : Reaches (view >>= f) s a Q := .step rfl h

lemma Reaches.tree {f : Tree → WindowM α} (h : Reaches (f s.core.tree) s a Q) : Reaches (tree >>= f) s a Q := .step rfl h

lemma Reaches.ite [Decidable p] (h : Reaches m s a Q) (h' : Reaches m' s a Q) : Reaches (if p then m else m') s a Q := by
  split
  · exact h
  · exact h'

lemma reaches_pure (hs : Q s.core) : Reaches (pure a) s a Q := (does_pure a).reaches hs

lemma reaches_settle {v : Except Failure α} (h : v = .ok a) (hs : Q s.core) : Reaches (settle v) s a Q := by
  rw [h]
  exact reaches_pure hs

lemma reaches_log {level : Level} {message : Text} (hs : Q s.core) : Reaches (log level message) s () Q :=
  (does_log level message).reaches hs

lemma reaches_setStatus {text : Text} (hs : Q s.core) : Reaches (setStatus text) s () Q := (does_setStatus text).reaches hs

/-! ## Steps that may fail -/

/-- Steps that, if they succeed, lead from parts of one kind to parts of another. -/
def Leads (g : Session → γ) (m : WindowM α) (P Q : γ → Prop) : Prop := ∀ s a s', P (g s) → m.run.run s = (.ok a, s') → Q (g s')

lemma Leads.bind {P Q R : γ → Prop} (h : Leads g m P Q) (hf : ∀ a, Leads g (f a) Q R) : Leads g (m >>= f) P R := by
  intro s b s' hs hrun
  obtain ⟨a, mid, hm, hrest⟩ := ran_bind hrun
  exact hf a mid b s' (h s a mid hs hm) hrest

lemma Keeps.leads (h : Keeps g m) (P : γ → Prop) : Leads g m P P := by
  intro s a s' hs hrun
  rw [h.eq hrun]
  exact hs

/-! ## Steps that end somehow -/

/-- Steps lead to a core of one kind, however they end. -/
def Leaves (m : WindowM α) (s : Session) (Q : Core → Prop) : Prop := Q (m.run.run s).2.core

lemma Leaves.view {f : View → WindowM α} (h : Leaves (f s.view) s Q) : Leaves (view >>= f) s Q := by
  exact h

lemma Does.leaves {r : Except Stop α} (h : Does m s r c) (hc : Q c) : Leaves m s Q := by
  rw [Leaves, h.2]
  exact hc

lemma Leaves.imp (h : Leaves m s P) (hpq : ∀ c, P c → Q c) : Leaves m s Q := hpq _ h

lemma Silent.leaves (h : Silent m) (hs : Q s.core) : Leaves m s Q := by
  rw [Leaves, h s]
  exact hs

lemma Reaches.after (h : Reaches m s a P) (hf : ∀ s', P s'.core → Leaves (f a) s' Q) : Leaves (m >>= f) s Q := by
  obtain ⟨s', hrun, hs'⟩ := h
  rw [Leaves, run_bind, hrun]
  exact hf s' hs'

lemma Leaves.silent (h : Leaves m s Q) (hf : ∀ a, Silent (f a)) : Leaves (m >>= f) s Q := by
  rw [Leaves] at h ⊢
  rw [run_bind]
  match hrun : m.run.run s with
  | (.ok a, s') =>
    rw [hrun] at h
    rw [hf a s']
    exact h
  | (.error stop, s') =>
    rw [hrun] at h
    exact h

lemma Leaves.recover {handle : Failure → WindowM α} (h : Leaves m s Q)
    (hf : ∀ f, Silent (handle f)) : Leaves (recover m handle) s Q := by
  rw [Leaves] at h ⊢
  rw [WindowM.recover, run_tryCatch]
  match hrun : m.run.run s with
  | (.ok a, s') => rw [hrun] at h; exact h
  | (.error (.exited n), s') => rw [hrun] at h; exact h
  | (.error (.failed f), s') =>
    rw [hrun] at h
    rw [hf f s']
    exact h

end FunctionDocs.Window
