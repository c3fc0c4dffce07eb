import Patchbay.Proofs.Session.Current
import Patchbay.Proofs.Session.Playing
/-!
# Waiting for rebuilds

Letting time pass takes a bounded number of steps (`Session.stepsLeft`). A rebuild begins and has at
most four stages, and its end leaves one rebuild less to be finished, so every checkpoint takes one
from what is left (`checkpointsLeft_upcoming`). With that many steps nothing is left undone that was
due (`due_of_upcoming?_runWithin`), and after waiting no rebuild is running or asked for
(`Observed.Reachable.settle`).
-/

namespace Patchbay.Session

variable {α : Type}

/-- The checkpoints that a rebuild has before it when it comes to a stage. -/
def Stage.left : Stage α → Nat
  | .discard _ => 4
  | .install _ => 3
  | .start _ => 2
  | .finish _ => 1

/-- The most checkpoints that can come before no rebuild is asked for. -/
def checkpointsLeft (s : Session α) : Nat :=
  match s.pass with
  | some pass => 5 * (s.scheduler.outstanding - 1) + pass.stage.left
  | none => 5 * s.scheduler.outstanding

theorem checkpointsLeft_conclude (s : Session α) (number : Nat)
    (outcome : Except Patch.Fault Summary) :
    (s.conclude number outcome).checkpointsLeft = 5 * (s.scheduler.outstanding - 1) := by
  show 5 * s.scheduler.complete.2.outstanding = _
  rw [Scheduler.outstanding_complete]

variable [Scalar α] {s s' : Session α} {due : Nat}

theorem checkpointsLeft_begin (hpass : s.pass = none) (hbusy : s.scheduler.isBusy = true) :
    s.begin.checkpointsLeft < s.checkpointsLeft := by
  have hsome : 0 < s.scheduler.outstanding := by
    revert hbusy
    unfold Scheduler.isBusy Scheduler.outstanding
    cases s.scheduler.state <;> decide
  have hleft : s.checkpointsLeft = 5 * s.scheduler.outstanding := by
    rw [checkpointsLeft, hpass]
  rcases s.begin_cases with ⟨fault, -, hbegin⟩ | ⟨patch, -, hbegin⟩
  · rw [hbegin, checkpointsLeft_conclude, hleft]
    show 5 * (s.scheduler.outstanding - 1) < _
    omega
  · rw [hbegin, hleft]
    show 5 * (s.scheduler.outstanding - 1) + 4 < _
    omega

theorem checkpointsLeft_proceed {pass : Pass α} (hpass : s.pass = some pass) :
    (s.proceed pass).checkpointsLeft < s.checkpointsLeft := by
  have hleft : s.checkpointsLeft = 5 * (s.scheduler.outstanding - 1) + pass.stage.left := by
    rw [checkpointsLeft, hpass]
  obtain ⟨number, stage, due⟩ := pass
  rw [hleft]
  cases stage with
  | discard staged =>
    have hscheduler : s.discardLive.scheduler = s.scheduler := by
      unfold discardLive
      split <;> rfl
    show 5 * (s.discardLive.scheduler.outstanding - 1) + 3 < _ + 4
    rw [hscheduler]
    omega
  | install staged => exact Nat.lt_succ_self _
  | start summary => exact Nat.lt_succ_self _
  | finish summary =>
    show (s.conclude number (.ok summary)).checkpointsLeft < _ + 1
    rw [checkpointsLeft_conclude]
    exact Nat.lt_succ_self _

/-- Every checkpoint takes one from those that are left. -/
theorem checkpointsLeft_upcoming (h : s.upcoming? = some (due, s')) :
    s'.checkpointsLeft < s.checkpointsLeft := by
  rcases s.upcoming?_cases with hnone | ⟨pass, hpass, hnext⟩ | ⟨hpass, hbusy, hnext⟩
  · rw [h] at hnone
    cases hnone
  · rw [h] at hnext
    cases hnext
    exact checkpointsLeft_proceed (s := { s with time := pass.due }) hpass
  · rw [h] at hnext
    cases hnext
    exact checkpointsLeft_begin hpass hbusy

/-- With steps enough, what is left to happen is due after the deadline. -/
theorem due_of_upcoming?_runWithin {deadline : Option Nat} {steps : Nat}
    (hsteps : s.checkpointsLeft ≤ steps)
    (h : (s.runWithin deadline steps).upcoming? = some (due, s')) :
    deadline.any (· < due) = true := by
  induction steps generalizing s with
  | zero =>
    have hless : s'.checkpointsLeft < s.checkpointsLeft := checkpointsLeft_upcoming h
    omega
  | succ steps ih =>
    unfold runWithin at h
    cases hupcoming : s.upcoming? with
    | none =>
      simp only [hupcoming] at h
      cases h
    | some next =>
      have hless := checkpointsLeft_upcoming hupcoming
      simp only [hupcoming] at h
      split at h
      next hlate =>
        rw [hupcoming] at h
        cases h
        exact hlate
      next => exact ih (by omega) h

/-- After waiting, no rebuild is running or asked for. -/
theorem Observed.Reachable.settle {o : Observed α} (h : o.Reachable) :
    o.session.settle.pass = none ∧ o.session.settle.scheduler.isBusy = false := by
  have hsteps : o.session.checkpointsLeft ≤ o.session.stepsLeft := by
    unfold checkpointsLeft stepsLeft
    cases hpass : o.session.pass with
    | none => exact Nat.le_refl _
    | some pass =>
      -- a rebuild that is running is still to be finished
      have hbusy : 0 < o.session.scheduler.outstanding := by
        have hidle := h.current.idle
        rw [hpass] at hidle
        unfold Scheduler.outstanding
        cases hstate : o.session.scheduler.state with
        | idle => exact absurd (hidle hstate) nofun
        | rebuilding => exact Nat.one_pos
        | pending => exact Nat.two_pos
      have hleft : pass.stage.left ≤ 4 := by
        cases pass.stage <;> simp [Stage.left]
      dsimp only
      omega
  rcases o.session.settle.upcoming?_cases with hnone | ⟨_, -, hnext⟩ | ⟨-, -, hnext⟩
  · unfold upcoming? at hnone
    cases hpass : o.session.settle.pass with
    | some pass =>
      rw [hpass] at hnone
      cases hnone
    | none =>
      rw [hpass] at hnone
      refine ⟨rfl, Bool.eq_false_iff.mpr fun hbusy => ?_⟩
      rw [if_pos hbusy] at hnone
      cases hnone
  · cases due_of_upcoming?_runWithin hsteps hnext
  · cases due_of_upcoming?_runWithin hsteps hnext

end Patchbay.Session
