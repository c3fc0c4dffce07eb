import Patchbay.Timeline
/-!
# Primitives

What sound is made of: oscillators, gains, filters and the other building blocks, each with the
parameters of its family. A primitive keeps the complete record of what was asked of it.
-/

namespace Patchbay

/-- The entry of a closed list of words that has the given name. -/
def findByName? {β : Type} (all : List β) (nameOf : β → String) (name : String) : Option β :=
  all.find? fun b => nameOf b == name

inductive Waveform where
  | sine
  | square
  | sawtooth
  | triangle
deriving DecidableEq, Repr

namespace Waveform

def all : List Waveform := [sine, square, sawtooth, triangle]

def name : Waveform → String
  | sine => "sine"
  | square => "square"
  | sawtooth => "sawtooth"
  | triangle => "triangle"

def ofName? (s : String) : Option Waveform := findByName? all name s

end Waveform

/-- The response of a second-order filter. -/
inductive Response where
  | lowpass
  | highpass
  | bandpass
  | lowshelf
  | highshelf
  | peaking
  | notch
  | allpass
deriving DecidableEq, Repr

namespace Response

def all : List Response :=
  [lowpass, highpass, bandpass, lowshelf, highshelf, peaking, notch, allpass]

def name : Response → String
  | lowpass => "lowpass"
  | highpass => "highpass"
  | bandpass => "bandpass"
  | lowshelf => "lowshelf"
  | highshelf => "highshelf"
  | peaking => "peaking"
  | notch => "notch"
  | allpass => "allpass"

def ofName? (s : String) : Option Response := findByName? all name s

end Response

/-- What an analyser shows. -/
inductive Domain where
  | time
  | frequency
deriving DecidableEq, Repr

def Domain.name : Domain → String
  | time => "Time"
  | frequency => "Frequency"

/-- A parameter of a primitive. -/
inductive Param where
  | frequency
  | detune
  | gain
  | q
  | delayTime
  | offset
  | threshold
  | knee
  | ratio
  | attack
  | release
deriving DecidableEq, Repr

namespace Param

/-- All parameters, in the order in which a primitive lists them. -/
def all : List Param :=
  [frequency, detune, gain, q, delayTime, offset, threshold, knee, ratio, attack, release]

def name : Param → String
  | frequency => "frequency"
  | detune => "detune"
  | gain => "gain"
  | q => "Q"
  | delayTime => "delayTime"
  | offset => "offset"
  | threshold => "threshold"
  | knee => "knee"
  | ratio => "ratio"
  | attack => "attack"
  | release => "release"

def ofName? (s : String) : Option Param := findByName? all name s

end Param

/-- The bounds of a number. -/
structure Range (α : Type) where
  low : α
  high : α

namespace Range

variable {α : Type} [Scalar α]

def clamp (r : Range α) (x : α) : α := Scalar.clamp r.low r.high x

/-- Every finite number. -/
def unbounded : Range α := ⟨-Scalar.largest, Scalar.largest⟩

def atLeast (low : α) : Range α := ⟨low, Scalar.largest⟩

end Range

/-- The values a parameter can take when sound is rendered at `rate` samples per second. -/
def Param.range {α : Type} [Scalar α] (rate : α) : Param → Range α
  | .frequency => ⟨0.0, rate / (2.0 : α)⟩
  | .detune => ⟨-(153600.0 : α), 153600.0⟩
  | .q => ⟨0.0001, 1000.0⟩
  | .delayTime => ⟨0.0, Scalar.largestSample⟩
  | .attack | .release => ⟨0.0, 1.0⟩
  | .threshold => ⟨-(100.0 : α), 0.0⟩
  | .knee => ⟨0.0, 40.0⟩
  | .ratio => ⟨1.0, 20.0⟩
  | .gain | .offset => ⟨-Scalar.largestSample, Scalar.largestSample⟩

/-- The families of primitives. -/
inductive Family where
  | oscillator
  | bufferSource
  | constantSource
  | gain
  | biquadFilter
  | delay
  | waveShaper
  | dynamicsCompressor
  | analyser
deriving DecidableEq, Repr

namespace Family

def all : List Family :=
  [oscillator, bufferSource, constantSource, gain, biquadFilter, delay, waveShaper,
    dynamicsCompressor, analyser]

def name : Family → String
  | oscillator => "oscillator"
  | bufferSource => "buffer source"
  | constantSource => "constant source"
  | gain => "gain"
  | biquadFilter => "biquad filter"
  | delay => "delay"
  | waveShaper => "wave-shaper"
  | dynamicsCompressor => "dynamics compressor"
  | analyser => "analyser"

def ofName? (s : String) : Option Family := findByName? all name s

/-- Sources sound from when they are started until they are stopped. -/
def isSource : Family → Bool
  | oscillator | bufferSource | constantSource => true
  | _ => false

/-- The parameters of a family with their values before anything is scheduled. -/
def params {α : Type} [Scalar α] : Family → List (Param × α)
  | oscillator => [(.frequency, 440.0), (.detune, 0.0)]
  | bufferSource => [(.detune, 0.0)]
  | constantSource => [(.offset, 1.0)]
  | gain => [(.gain, 1.0)]
  | biquadFilter => [(.frequency, 350.0), (.q, 1.0), (.gain, 0.0), (.detune, 0.0)]
  | delay => [(.delayTime, 0.0)]
  | dynamicsCompressor =>
    [(.threshold, -(24.0 : α)), (.knee, 30.0), (.ratio, 12.0), (.attack, 0.003), (.release, 0.25)]
  | waveShaper | analyser => []

end Family

/-- What a primitive is made with. -/
inductive Setup (α : Type) where
  | oscillator (waveform : Waveform) (frequency : α)
  | bufferSource (samples : Array Float32) (looping : Bool)
  | constantSource (offset : α)
  | gain (level : α)
  | biquadFilter (response : Response)
  | delay (longest : α)
  | waveShaper (curve : List Float32)
  | dynamicsCompressor
  | analyser (shows : Domain)

namespace Setup

variable {α : Type}

def family : Setup α → Family
  | oscillator .. => .oscillator
  | bufferSource .. => .bufferSource
  | constantSource .. => .constantSource
  | gain .. => .gain
  | biquadFilter .. => .biquadFilter
  | delay .. => .delay
  | waveShaper .. => .waveShaper
  | dynamicsCompressor => .dynamicsCompressor
  | analyser .. => .analyser

/-- The parameter whose first value the setup gives. -/
def initial? : Setup α → Option (Param × α)
  | oscillator _ frequency => some (.frequency, frequency)
  | constantSource offset => some (.offset, offset)
  | gain level => some (.gain, level)
  | _ => none

/-- The timelines of a new primitive, in the order of `Param.all`. -/
def timelines [Scalar α] (s : Setup α) : List (Param × Timeline α) :=
  let values := (s.family.params (α := α)).map fun (p, v) =>
    match s.initial? with
    | some (p', v') => if p = p' then (p, v') else (p, v)
    | none => (p, v)
  Param.all.filterMap fun p =>
    (values.find? (·.1 == p)).map fun (_, v) => (p, Timeline.starting v)

end Setup

/-- The place of a primitive in its rack. -/
abbrev PrimitiveId := Nat

/-- One parameter of one primitive. -/
structure Dial where
  primitive : PrimitiveId
  param : Param
deriving DecidableEq, Repr

/-- Where a signal can be patched in. -/
inductive Inlet where
  | input (primitive : PrimitiveId)
  | dial (dial : Dial)
deriving DecidableEq, Repr

def primitiveText (id : PrimitiveId) : String := "p" ++ toString id

def Dial.text (d : Dial) : String := primitiveText d.primitive ++ "." ++ d.param.name

def Inlet.text : Inlet → String
  | .input id => primitiveText id
  | .dial d => d.text

/-- A primitive with everything that was asked of it. -/
structure Primitive (α : Type) where
  setup : Setup α
  timelines : List (Param × Timeline α)
  outputs : List Inlet
  startedAt : Option α
  stoppedAt : Option α
  released : Bool

namespace Primitive

variable {α : Type}

def new [Scalar α] (setup : Setup α) : Primitive α :=
  ⟨setup, setup.timelines, [], none, none, false⟩

def family (p : Primitive α) : Family := p.setup.family

def timeline? (p : Primitive α) (param : Param) : Option (Timeline α) :=
  (p.timelines.find? (·.1 == param)).map (·.2)

/-- Changes the timeline of one parameter; a primitive without it stays as it is. -/
def mapTimeline (p : Primitive α) (param : Param) (f : Timeline α → Timeline α) : Primitive α :=
  { p with timelines := p.timelines.map fun (own, tl) => (own, if own = param then f tl else tl) }

end Primitive

end Patchbay
