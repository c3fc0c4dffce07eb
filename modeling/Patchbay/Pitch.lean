import Patchbay.Scalar
/-!
# Pitch

Equal temperament: twelve half steps make an octave, and an octave doubles the frequency.
-/

namespace Patchbay.Pitch

variable {α : Type} [Scalar α]

/-- The factor between two frequencies so many octaves and half steps apart. -/
def ratio (octaves halfSteps : α) : α := Scalar.pow 2.0 (octaves + halfSteps / (12.0 : α))

/-- The frequency of a note, counted in half steps within an octave. The ninth note of the fourth
octave has 440 Hz. -/
def noteFrequency (note octave : α) : α :=
  (440.0 : α) * Scalar.pow 2.0 ((note - (9.0 : α)) / (12.0 : α) + octave - (4.0 : α))

end Patchbay.Pitch
