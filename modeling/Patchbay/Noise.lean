import Patchbay.Primitive
/-!
# Noise

Noise of seven colours, computed in binary32 from a shift-register generator with a word of 32
bits as its state. The same colour, length and seed always give the same samples.
-/

namespace Patchbay.Noise

inductive Color where
  | white
  | brown
  | pink
  | blue
  | violet
  | grey
  | velvet
deriving DecidableEq, Repr

namespace Color

def all : List Color := [white, brown, pink, blue, violet, grey, velvet]

def name : Color → String
  | white => "White Noise"
  | brown => "Brown Noise"
  | pink => "Pink Noise"
  | blue => "Blue Noise"
  | violet => "Violet Noise"
  | grey => "Grey Noise"
  | velvet => "Velvet Noise"

def ofName? (s : String) : Option Color := findByName? all name s

end Color

/-- The state in place of zero, which the generator would never leave. -/
def standardSeed : UInt32 := 0x12345678

/-- How long noise buffers are, and the seed of their samples. -/
structure Source (α : Type) where
  seconds : α
  seed : UInt32

/-! ## The generator -/

def seeded (seed : UInt32) : UInt32 := if seed = 0 then standardSeed else seed

/-- The state after a draw. -/
def advance (state : UInt32) : UInt32 :=
  let a := state ^^^ (state <<< 13)
  let b := a ^^^ (a >>> 17)
  b ^^^ (b <<< 5)

/-- A state as a fraction of `2 ^ 32`, rounded to a sample. -/
def unit (state : UInt32) : Float32 := state.toFloat32 / 4294967296.0

/-- A state as a sample around zero. -/
def bipolar (state : UInt32) : Float32 := unit state * 2.0 - 1.0

/-! ## Colours -/

/-- Appends `n` samples, each made from the state that the one before it left. -/
def fill {σ : Type} (step : σ → Float32 × σ) : Nat → σ → Array Float32 → Array Float32
  | 0, _, samples => samples
  | n + 1, state, samples =>
    let (sample, state) := step state
    fill step n state (samples.push sample)

def whiteStep (state : UInt32) : Float32 × UInt32 :=
  let state := advance state
  (bipolar state, state)

/-- White noise through a leaky sum. -/
def brownStep : UInt32 × Float32 → Float32 × (UInt32 × Float32)
  | (state, last) =>
    let state := advance state
    let last := (last + 0.02 * bipolar state) / 1.02
    (last * 3.5, (state, last))

/-- The seven running sums of pink noise. -/
structure PinkSums where
  b0 : Float32 := 0.0
  b1 : Float32 := 0.0
  b2 : Float32 := 0.0
  b3 : Float32 := 0.0
  b4 : Float32 := 0.0
  b5 : Float32 := 0.0
  b6 : Float32 := 0.0

def pinkStep : UInt32 × PinkSums → Float32 × (UInt32 × PinkSums)
  | (state, b) =>
    let state := advance state
    let white := bipolar state
    let b0 := 0.99886 * b.b0 + white * 0.0555179
    let b1 := 0.99332 * b.b1 + white * 0.0750759
    let b2 := 0.96900 * b.b2 + white * 0.1538520
    let b3 := 0.86650 * b.b3 + white * 0.3104856
    let b4 := 0.55000 * b.b4 + white * 0.5329522
    let b5 := -0.7616 * b.b5 - white * 0.0168980
    let sum := b0 + b1 + b2 + b3 + b4 + b5 + b.b6
    ((sum + white * 0.5362) * 0.11, (state, ⟨b0, b1, b2, b3, b4, b5, white * 0.115926⟩))

/-- A tenth of the rise over the sample before, added to that sample. The first sample is plain
white noise, and the second rises from zero. -/
def blueStep : UInt32 × Option (Float32 × Float32) →
    Float32 × (UInt32 × Option (Float32 × Float32))
  | (state, none) =>
    let state := advance state
    let white := bipolar state
    (white, (state, some (white, 0.0)))
  | (state, some (before, origin)) =>
    let state := advance state
    let sample := 0.1 * (bipolar state - origin) + before
    (sample, (state, some (sample, sample)))

/-- The rise of white noise from sample to sample. -/
def violetStep : UInt32 × Option Float32 → Float32 × (UInt32 × Option Float32)
  | (state, none) =>
    let state := advance state
    let white := bipolar state
    (white, (state, some white))
  | (state, some before) =>
    let state := advance state
    let white := bipolar state
    (white - before, (state, some white))

/-- White noise, strongly smoothed. -/
def greyStep : UInt32 × Float32 → Float32 × (UInt32 × Float32)
  | (state, before) =>
    let state := advance state
    let sample := 0.02 * bipolar state + (1.0 - 0.02) * before
    (sample, (state, sample))

/-- Puts `n` impulses at drawn places of a silent buffer. A draw that falls behind the end puts
none. -/
def velvetImpulses : Nat → UInt32 → Array Float32 → Array Float32
  | 0, _, samples => samples
  | n + 1, state, samples =>
    let state := advance state
    let place := (unit state * Float32.ofNat samples.size).toUInt64.toNat
    if place < samples.size then
      let state := advance state
      velvetImpulses n state (samples.setIfInBounds place (bipolar state))
    else velvetImpulses n state samples

/-- `length` samples of a colour. Velvet noise has one impulse for every hundred samples. -/
def generate (color : Color) (length : Nat) (seed : UInt32) : Array Float32 :=
  let state := seeded seed
  match color with
  | .white => fill whiteStep length state #[]
  | .brown => fill brownStep length (state, 0.0) #[]
  | .pink => fill pinkStep length (state, {}) #[]
  | .blue => fill blueStep length (state, none) #[]
  | .violet => fill violetStep length (state, none) #[]
  | .grey => fill greyStep length (state, 0.0) #[]
  | .velvet => velvetImpulses (length / 100) state (Array.replicate length 0.0)

/-- The number of samples that fill a buffer at a rate. -/
def Source.length {α : Type} [Scalar α] (source : Source α) (rate : α) : Nat :=
  Scalar.toCount (Scalar.greatest source.seconds 0.0 * rate)

end Patchbay.Noise
