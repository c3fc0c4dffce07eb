import Patchbay.Session.Basic
/-!
# Rebuilds

A rebuild first builds the whole graph beside what sounds; if that fails, what sounds goes on as it
was. Otherwise what sounds is faded out, discarded, and after a pause the new patch is installed,
started and faded in. Each of these happens at a time that is fixed when the rebuild begins, and
only letting time pass makes them happen.
-/

namespace Patchbay.Session

variable {α : Type} [Scalar α]

/-- A time in milliseconds as the rack counts it. -/
def seconds (ms : Nat) : α := Scalar.ofMilliseconds ms

/-- Ends the running rebuild with a report. -/
def conclude (s : Session α) (number : Nat) (outcome : Except Patch.Fault Summary) : Session α :=
  { s with
    pass := none
    scheduler := s.scheduler.complete.2
    reports := s.reports ++ [⟨number, outcome⟩] }

/-- Begins a rebuild: the keyboard is put away and reset, and the graph is built. If it cannot be
built, the keyboard is taken back and the rebuild ends at once; otherwise what sounds begins to
fade. -/
def begin (s : Session α) : Session α :=
  let number := s.scheduler.passes
  let previous := s.keyboard.snapshot
  let keyboard := s.keyboard.reset
  let (outcome, mixer, voicing) := s.mixer.build s.graph .empty
  match outcome with
  | .error fault =>
    { s with mixer, keyboard := keyboard.restore previous }.conclude number (.error fault)
  | .ok patch =>
    { s with
      keyboard
      mixer := (mixer.fadeOut (seconds s.settings.fade)).2
      pass := some ⟨number, .discard ⟨patch, voicing⟩, s.time + s.settings.fade⟩ }

/-- Releases what sounded before. -/
def discardLive (s : Session α) : Session α :=
  match s.live with
  | some old => { s with live := none, mixer := s.mixer.release old }
  | none => s

/-- Installs a patch with its voices. -/
def install (s : Session α) (staged : Staged α) : Session α :=
  { s with
    live := some staged.patch
    keyboard := .withVoicing staged.voicing
    mixer := s.mixer.adopt staged.patch }

/-- Goes on to the next stage, which is due some milliseconds after this one. -/
def next (s : Session α) (pass : Pass α) (stage : Stage α) (delay : Nat) : Session α :=
  { s with pass := some { pass with stage, due := pass.due + delay } }

/-- Does what a rebuild does next. -/
def proceed (s : Session α) (pass : Pass α) : Session α :=
  match pass.stage with
  | .discard staged => s.discardLive.next pass (.install staged) s.settings.settle
  | .install staged =>
    (s.install staged).next pass (.start (.of staged)) s.settings.startDelay
  | .start summary =>
    { s with mixer := s.mixer.fadeIn (seconds s.settings.fade) }.next pass (.finish summary)
      s.settings.finishDelay
  | .finish summary => s.conclude pass.number (.ok summary)

/-- What happens next, and when: a rebuild that was asked for begins at once. -/
def upcoming? (s : Session α) : Option (Nat × Session α) :=
  match s.pass with
  | some pass => some (pass.due, { s with time := pass.due }.proceed pass)
  | none => if s.scheduler.isBusy then some (s.time, s.begin) else none

/-- Lets things happen until none is left, or until the next is due after `deadline`. -/
def runWithin (deadline : Option Nat) : Nat → Session α → Session α
  | 0, s => s
  | steps + 1, s =>
    match s.upcoming? with
    | none => s
    | some (due, s') =>
      if deadline.any (· < due) then s else runWithin deadline steps s'

/-- The most that can happen before no rebuild is asked for: each rebuild begins and has four
stages. -/
def stepsLeft (s : Session α) : Nat := 5 * s.scheduler.outstanding

/-- Lets `ms` milliseconds pass. -/
def advance (s : Session α) (ms : Nat) : Session α :=
  let deadline := s.time + ms
  { s.runWithin (some deadline) s.stepsLeft with time := deadline }

/-- Lets time pass until no rebuild is running or asked for. -/
def settle (s : Session α) : Session α := s.runWithin none s.stepsLeft

end Patchbay.Session
