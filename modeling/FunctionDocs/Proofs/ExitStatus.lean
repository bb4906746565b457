import FunctionDocs.Main
import FunctionDocs.Proofs.CommandRun

/-!
# The exit status

The share that a run without a window gives becomes the exit status, unless nearly all is done. Zero percent is then the status of
a success.
-/

namespace FunctionDocs.App

open WorldM Release

variable {i : Installation} {dir : Text} {arguments rest : List Text} {o : Options} {w : World}

/-! ## Up to the run -/

lemma ensureModule_ends {n : Needed} (hmodule : n.module.isEmpty = false) (h : n.module ∈ w.loadable) :
    Ends (ensureModule n) w (.ok ()) w.tree := by
  have hloadable : Ends (isLoadable n.module) w (.ok true) w.tree := by
    refine .get ?_
    rw [List.contains_iff_mem.mpr h]
    exact ends_pure true
  rw [ensureModule, hmodule]
  exact hloadable.bind fun _ _ => ends_print _

lemma ensureModules_ends {ns : List Needed} (hmodule : ∀ n ∈ ns, n.module.isEmpty = false)
    (h : ∀ n ∈ ns, n.module ∈ w.loadable) : Ends (ensureModules ns) w (.ok ()) w.tree := by
  induction ns generalizing w with
  | nil => exact ends_pure ()
  | cons n ns ih =>
    rw [List.forall_mem_cons] at hmodule h
    exact (ensureModule_ends hmodule.1 h.1).bind fun _ _ => ih hmodule.2 h.2

lemma printIntro_ends : Ends printIntro w (.ok ()) w.tree :=
  (ends_print _).bind fun _ _ => (ends_print _).bind fun _ _ => Ends.get ((ends_print _).bind fun _ _ =>
    (ends_print _).bind fun _ _ => ends_print _)

lemma readCommand_ends (hparse : CommandLine.parse arguments = .run o rest) (hlicense : o.license = false) :
    Ends (readCommand arguments) w (.ok (some (o.withConfig rest))) w.tree := by
  refine printIntro_ends.bind fun _ _ => ?_
  rw [hparse]
  refine (ends_logMessage _ _).bind fun _ _ => (ends_logMessage _ _).bind fun _ _ => ?_
  have hunknown : ∀ unknown : List Text, ∀ w : World, Ends (do
      if !unknown.isEmpty then logMessage .warning ("Unknown Input Arguments: " ++ .quotedList unknown)
      return some (o.withConfig rest)) w (.ok (some (o.withConfig rest))) w.tree := by
    intro unknown w
    split
    · exact (ends_logMessage _ _).bind fun _ _ => ends_pure _
    · exact ends_pure _
  match takeConfig o rest with
  | (none, unknown) =>
    simp only [hlicense]
    exact hunknown unknown _
  | (some c, unknown) =>
    simp only [hlicense]
    exact (ends_logMessage _ _).bind fun _ _ => hunknown unknown _

def Share.ending : Share → Except Stop Unit
  | .none => .error (.exited .noShare)
  | .percent n => if n < 99 then .error (.exited (.number n)) else .ok ()

lemma endWith_ends (share : Share) : Ends (endWith share) w share.ending w.tree := by
  refine (ends_print _).bind fun _ _ => ?_
  cases share with
  | none => exact ⟨_, _, rfl⟩
  | percent n =>
    by_cases hn : n < 99
    · simp only [Share.ending, hn]
      exact ⟨_, _, rfl⟩
    · simp only [Share.ending, hn]
      exact ends_pure ()

/-- Without a window, the program ends as the share of its run says. The run may be looked at where the program starts: what is
printed and logged before it plays no role. -/
lemma program_result {share : Share} (hmodules : ∀ n ∈ neededModules, n.module ∈ w.loadable)
    (hparse : CommandLine.parse arguments = .run o rest) (hgui : o.noGui) (hlicense : o.license = false)
    (hshare : ((runWithoutWindow i dir (o.withConfig rest)).run.run w).1 = .ok share) :
    ((program i dir arguments).run.run w).1 = share.ending.map fun _ => none := by
  have hrun : (runOnFiles i dir (o.withConfig rest) w.now w.tree).1 = .ok share := by
    rw [(runWithoutWindow_ends i dir (o.withConfig rest) w).result] at hshare
    cases hr : (runOnFiles i dir (o.withConfig rest) w.now w.tree).1 with
    | ok share' => rw [hr] at hshare; cases hshare; rfl
    | error f => rw [hr] at hshare; cases hshare
  have hgui' : (o.withConfig rest).noGui := by
    rw [Options.withConfig]
    split <;> exact hgui
  have hends : Ends (program i dir arguments) w (share.ending.map fun _ => none)
      (runOnFiles i dir (o.withConfig rest) w.now w.tree).2 := by
    refine (ensureModules_ends (by decide) hmodules).bind fun _ _ => (ends_logMessage _ _).bind fun _ _ => ?_
    refine (readCommand_ends hparse hlicense).bind fun printed log => ?_
    dsimp only
    rw [hgui']
    have hcli := runWithoutWindow_ends i dir (o.withConfig rest) { w with printed := printed, log := log }
    rw [hrun] at hcli
    refine hcli.bind fun printed log => ?_
    have hend := endWith_ends share
      (w := { w with tree := (runOnFiles i dir (o.withConfig rest) w.now w.tree).2, printed := printed, log := log })
    cases he : share.ending with
    | ok u =>
      rw [he] at hend
      exact hend.bind fun _ _ => ends_pure none
    | error stop =>
      rw [he] at hend
      exact hend.stop
  exact hends.result

end FunctionDocs.App

namespace FunctionDocs.Main

open App

lemma run_result {w : World} {dir : Text} {arguments : List Text} {r : Except Stop Unit}
    (h : ((program (installed dir) dir arguments).run.run w).1 = r.map fun _ => none) : (run w dir arguments).1 = r := by
  rw [run]
  match hrun : (program (installed dir) dir arguments).run.run w with
  | (result, w') =>
    rw [hrun] at h
    cases r with
    | ok u => obtain rfl : result = .ok none := h; rfl
    | error stop => obtain rfl : result = .error stop := h; rfl

lemma statusOf_ending_eq_zero_iff (share : Share) : statusOf share.ending = 0 ↔ share = .percent 0 ∨ 99 ≤ share.number := by
  cases share with
  | none => decide
  | percent n =>
    by_cases hn : n < 99
    · have hcode : ((n : Int) % 256).toNat = n := by omega
      have hzero : n.toUInt32 = 0 ↔ n = 0 := by
        rw [← UInt32.toNat_inj, UInt32.toNat_ofNat', UInt32.toNat_zero]
        omega
      simp only [Share.ending, hn, ↓reduceIte, statusOf, codeOf, hcode, hzero, Share.number, Share.percent.injEq]
      omega
    · simp only [statusOf, Share.ending, hn, ↓reduceIte, Share.number, true_iff]
      omega

def sampleArguments : List Text := ["--NoGui", "--config", "c.json"]

def finished : World :=
  sampleWorld (sampleSettings "md") "/**\n * @brief adds\n * @param a number\n * @return sum\n */\nint add(int a) \x7b\n\x7d\n"

end FunctionDocs.Main
