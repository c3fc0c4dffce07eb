import Patchbay.Graph.Basic
import Patchbay.Keyboard.Voicing
import Patchbay.Pitch
import Patchbay.Rack
/-!
# Blueprints

What has to be done on a rack to build one node: a list of steps, written down before any of them
is carried out. A rack numbers its primitives in the order in which they are created and a node is
built without interruption, so a blueprint can name its primitives from the first free number on.

`Kind.blueprint` holds all that the kinds have of their own.
-/

namespace Patchbay

/-- One step of building a node. -/
inductive Step (α : Type) where
  | create (setup : Setup α)
  | connect (source : PrimitiveId) (inlet : Inlet)
  | setValue (dial : Dial) (value : α)
  | register (profile : Profile α)
  | bind (key : Key) (bound : Voice)

/-- A parameter that a live control of a built node moves, and the values it can take. -/
structure Knob (α : Type) where
  control : String
  dial : Dial
  range : Range α

/-- A node as it was built: the primitives behind its output sockets, its knobs, and the analysers
that can be watched. -/
structure Part (α : Type) where
  outputs : List (String × PrimitiveId)
  knobs : List (Knob α)
  scopes : List (Domain × PrimitiveId)

namespace Part

variable {α : Type}

def output? (p : Part α) (socket : String) : Option PrimitiveId :=
  (p.outputs.find? (·.1 == socket)).map (·.2)

def knob? (p : Part α) (control : String) : Option (Knob α) :=
  p.knobs.find? (·.control == control)

end Part

structure Blueprint (α : Type) where
  steps : List (Step α)
  part : Part α

/-- What a blueprint depends on besides the node itself. -/
structure Site (α : Type) where
  /-- The number of the next primitive. -/
  next : PrimitiveId
  /-- The input of the master chain. -/
  master : PrimitiveId
  sampleRate : α
  noise : Noise.Source α
  /-- The number of profiles that are registered already. -/
  profiles : Nat
  /-- The primitives that feed each input socket, in the order of the connections. -/
  inputs : String → List PrimitiveId

variable {α : Type}

/-- Patches primitives into the input of another. -/
def Step.patch (sources : List PrimitiveId) (into : PrimitiveId) : List (Step α) :=
  sources.map fun source => .connect source (.input into)

/-- Whether the inline value of a socket is in effect. -/
def Socket.usesInline (s : Socket) (sources : List PrimitiveId) : Bool :=
  sources.isEmpty && s.inline.isSome

theorem Socket.usesInline_of_inline {s : Socket} {control : String} (h : s.inline = some control)
    (sources : List PrimitiveId) : s.usesInline sources = sources.isEmpty := by
  rw [usesInline, h, Option.isSome_some, Bool.and_true]

/-- The steps by which a socket drives a parameter. Without sources its inline value is set, if it
has one; sources that replace the value start from zero. -/
def Socket.drive [Scalar α] (s : Socket) (dial : Dial) (inline : α)
    (sources : List PrimitiveId) : List (Step α) :=
  if sources.isEmpty then (if s.inline.isSome then [.setValue dial inline] else [])
  else
    let patched : List (Step α) := sources.map fun source => .connect source (.dial dial)
    match s.combine with
    | .override | .additive => .setValue dial 0.0 :: patched
    | .modulate => patched
    | .signal => Step.patch sources dial.primitive

/-- The knob of a socket whose inline value is in effect. -/
def Socket.knobs (s : Socket) (dial : Dial) (range : Range α) (sources : List PrimitiveId) :
    List (Knob α) :=
  match s.inline with
  | some control => if s.usesInline sources then [⟨control, dial, range⟩] else []
  | none => []

namespace Kind

variable [Scalar α]

/-- Both parts of driving a parameter from the panel and a socket: the steps and the knob. -/
def driven (panel : Panel α) (site : Site α) (s : Socket) (dial : Dial) (range : Range α) :
    List (Step α) × List (Knob α) :=
  let sources := site.inputs s.name
  (s.drive dial (panel.number (s.inline.getD "")) sources, s.knobs dial range sources)

/-- The parameters of a compressor and their controls. -/
def compressorDials : List (String × Param) :=
  [("threshold", .threshold), ("knee", .knee), ("ratio", .ratio), ("attack", .attack),
    ("release", .release)]

/-- The steps that build one key of a keyboard instrument: an oscillator into a closed gate into
the common output. -/
def keySteps (waveform : Waveform) (frequency : α) (sources : List PrimitiveId)
    (profile : Nat) (out osc : PrimitiveId) (key : Key) : List (Step α) :=
  let gate := osc + 1
  [.create (.oscillator waveform frequency)] ++
    keysFrequency.drive ⟨osc, .frequency⟩ 0.0 sources ++
    [.create (.gain 0.0), .connect osc (.input gate), .connect gate (.input out),
      .bind key ⟨⟨gate, .gain⟩, profile⟩]

/-- How a node of a kind is built. A key that is not on the layout has no blueprint. -/
def blueprint (panel : Panel α) (site : Site α) : Except Rejection (Blueprint α) :=
  let first := site.next
  let signal := site.inputs signalIn.name
  let out : Part α := ⟨[("signal", first)], [], []⟩
  let waveform := (Waveform.ofName? (panel.choice "waveform")).getD .sine
  let ratio := Pitch.ratio (panel.number "octave") (panel.number "halfstep")
  match panel.kind with
  | .constant =>
    .ok ⟨[.create (.constantSource (panel.number "value"))],
      ⟨[("value", first)],
        [⟨"value", ⟨first, .offset⟩, Param.offset.range site.sampleRate⟩], []⟩⟩
  | .oscillator =>
    let dial : Dial := ⟨first, .frequency⟩
    let base := driven panel site baseFrequency dial (Param.frequency.range site.sampleRate)
    .ok ⟨[.create (.oscillator waveform (panel.number "baseFreq"))] ++ base.1 ++
        addedFrequency.drive dial 0.0 (site.inputs addedFrequency.name),
      { out with knobs := base.2 }⟩
  | .noise =>
    let color := (Noise.Color.ofName? (panel.choice "noiseType")).getD .white
    let samples := Noise.generate color (site.noise.length site.sampleRate) site.noise.seed
    .ok ⟨[.create (.bufferSource samples true)], out⟩
  | .noteFrequency =>
    let frequency := Pitch.noteFrequency (panel.number "note") (panel.number "octave")
    .ok ⟨[.create (.constantSource frequency)], ⟨[("value", first)], [], []⟩⟩
  | .gain =>
    let level := driven panel site gainLevel ⟨first, .gain⟩ (Param.gain.range site.sampleRate)
    .ok ⟨[.create (.gain (panel.number "gain"))] ++ Step.patch signal first ++ level.1,
      { out with knobs := level.2 }⟩
  | .biquadFilter =>
    let response := (Response.ofName? (panel.choice "filterType")).getD .lowpass
    let dials := [(filterFrequency, Param.frequency), (filterQ, .q), (gainLevel, .gain)].map
      fun (s, param) => driven panel site s ⟨first, param⟩ (param.range site.sampleRate)
    .ok ⟨[.create (.biquadFilter response)] ++ Step.patch signal first ++ dials.flatMap (·.1),
      { out with knobs := dials.flatMap (·.2) }⟩
  | .delay =>
    let longest := Scalar.greatest (panel.number "maxDelay") 1.0
    let time := driven panel site delayTime ⟨first, .delayTime⟩ ⟨0.0, longest⟩
    .ok ⟨[.create (.delay longest)] ++ Step.patch signal first ++ time.1,
      { out with knobs := time.2 }⟩
  | .clip =>
    let amp := Scalar.greatest (panel.number "amp") leastClip
    let corner (x : α) : Float32 := (Scalar.toFloat x).toFloat32
    .ok ⟨[.create (.gain ((1.0 : α) / amp)),
          .create (.waveShaper [corner (-amp), corner amp])] ++
        Step.patch signal first ++ [.connect first (.input (first + 1))],
      ⟨[("signal", first + 1)], [], []⟩⟩
  | .dynamicsCompressor =>
    .ok ⟨[.create .dynamicsCompressor] ++ Step.patch signal first ++
        compressorDials.map fun (control, param) =>
          .setValue ⟨first, param⟩ (panel.number control),
      { out with knobs := compressorDials.map fun (control, param) =>
          ⟨control, ⟨first, param⟩, param.range site.sampleRate⟩ }⟩
  | .transpose => .ok ⟨[.create (.gain ratio)] ++ Step.patch signal first, out⟩
  | .keyboardNote =>
    let sources := site.inputs keysFrequency.name
    let keys := Key.pitches.zipIdx.flatMap fun ((key, base), i) =>
      keySteps waveform (base * ratio) sources site.profiles first (first + 1 + 2 * i) key
    .ok ⟨[.register (panel.profile "adsrProfile"), .create (.gain 1.0)] ++ keys, out⟩
  | .keyboardAdsr =>
    let code := panel.choice "keyCode"
    match Key.ofCode? code with
    | none => .error ⟨.keyboardAdsr, "keyCode", .notAKey code⟩
    | some key =>
      .ok ⟨[.create (.gain 0.0)] ++ Step.patch signal first ++
          [.register (panel.profile "adsrProfile"), .bind key ⟨⟨first, .gain⟩, site.profiles⟩],
        out⟩
  | .audioOutput => .ok ⟨Step.patch signal site.master, ⟨[], [], []⟩⟩
  | .universalOutput =>
    .ok ⟨[.create (.gain (panel.number "gain"))] ++ Step.patch signal first ++
        [.connect first (.input site.master),
          .create (.analyser .time), .connect first (.input (first + 1)),
          .create (.analyser .frequency), .connect first (.input (first + 2))],
      ⟨[], [⟨"gain", ⟨first, .gain⟩, ⟨0.0, 1.0⟩⟩],
        [(.time, first + 1), (.frequency, first + 2)]⟩⟩
  | .timeVisualizer | .consoleDebugger =>
    .ok ⟨[.create (.analyser .time)] ++ Step.patch signal first, ⟨[], [], [(.time, first)]⟩⟩
  | .frequencyVisualizer =>
    .ok ⟨[.create (.analyser .frequency)] ++ Step.patch signal first,
      ⟨[], [], [(.frequency, first)]⟩⟩

end Kind

end Patchbay
