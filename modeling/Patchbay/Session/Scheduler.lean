/-!
# Scheduling rebuilds

Only one rebuild runs at a time. However many are requested while one runs, one more follows it.
-/

namespace Patchbay

/-- Whether a rebuild runs, and whether another must follow it. -/
inductive Scheduler.State where
  | idle
  | rebuilding
  | pending
deriving DecidableEq, Repr

structure Scheduler where
  state : Scheduler.State
  /-- Rebuilds begun so far. -/
  passes : Nat
  /-- Requests that were answered by a rebuild already asked for. -/
  coalesced : Nat
deriving DecidableEq, Repr

namespace Scheduler

def State.name : State → String
  | idle => "Idle"
  | rebuilding => "Rebuilding"
  | pending => "RebuildPending"

/-- What a request leads to. -/
inductive Requested where
  | started
  | coalesced
deriving DecidableEq, Repr

/-- What the end of a rebuild leads to. -/
inductive Completed where
  | again
  | settled
deriving DecidableEq, Repr

def new : Scheduler := ⟨.idle, 0, 0⟩

def isBusy (s : Scheduler) : Bool := s.state != .idle

/-- The rebuilds still to be finished. -/
def outstanding (s : Scheduler) : Nat :=
  match s.state with
  | .idle => 0
  | .rebuilding => 1
  | .pending => 2

def request (s : Scheduler) : Requested × Scheduler :=
  match s.state with
  | .idle => (.started, { s with state := .rebuilding, passes := s.passes + 1 })
  | .rebuilding | .pending =>
    (.coalesced, { s with state := .pending, coalesced := s.coalesced + 1 })

/-- The running rebuild ends. Nothing changes when there is none. -/
def complete (s : Scheduler) : Completed × Scheduler :=
  match s.state with
  | .pending => (.again, { s with state := .rebuilding, passes := s.passes + 1 })
  | .rebuilding | .idle => (.settled, { s with state := .idle })

theorem outstanding_complete (s : Scheduler) :
    s.complete.2.outstanding = s.outstanding - 1 := by
  unfold complete; split <;> simp_all [outstanding]

end Scheduler

end Patchbay
