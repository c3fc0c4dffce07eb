import Patchbay.Keyboard.Voicing
import Patchbay.Rack
/-!
# Envelopes

The cues that open and close a voice. Exponential ramps cannot touch zero, so levels are raised to
a floor below hearing, and a voice that has faded to the floor is set to zero.
-/

namespace Patchbay.Envelope

variable {α : Type} [Scalar α]

/-- The level that counts as silence. -/
def silence : α := 1e-5

/-- The ramps through the stages, each beginning where the one before it ends. -/
def stages (start : α) : List (α × α) → List (Cue α)
  | [] => []
  | (level, length) :: rest =>
    .exponential level (start + length) :: stages (start + length) rest

/-- Opens a voice whose gain is `current`: its course so far is cut off, and the levels of the
profile are passed through until it is silent. -/
def attack (profile : Profile α) (now current : α) : List (Cue α) :=
  [.hold now] ++ (if current < silence then [.set silence now] else []) ++
    stages now
      [(Scalar.greatest profile.attack silence, profile.attackLength),
        (Scalar.greatest profile.decay silence, profile.decayLength),
        (Scalar.greatest profile.sustain silence, profile.sustainLength),
        (silence, profile.releaseLength)]

/-- Closes a voice whose gain is `current`: it fades to silence and then to zero, at once when it
is silent already. -/
def release (profile : Profile α) (now current : α) : List (Cue α) :=
  if current < silence then [.hold now, .set 0.0 now]
  else
    [.hold now, .exponential silence (now + profile.releaseLength),
      .set 0.0 (now + profile.releaseLength)]

/-- Schedules cues that depend on the time and the present value of a parameter. -/
def schedule (cues : α → α → List (Cue α)) (rack : Rack α) (dial : Dial) : Rack α :=
  (cues rack.clock (rack.valueNow dial)).foldl (fun rack cue => rack.schedule dial cue) rack

end Patchbay.Envelope
