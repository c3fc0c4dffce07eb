import Patchbay.Graph.Basic
/-!
# The palette

What an editor offers: an entry for every kind of node, in the order of the menu, and the category
it is listed under. Entries are found by their label or by the tag of their kind, however the name
is spelled: letter case, spaces, dashes and underscores do not count.
-/

namespace Patchbay.Palette

inductive Category where
  | sources
  | processors
  | notes
  | keyboardInput
  | outputs
deriving DecidableEq, Repr

/-- A name without spaces, dashes and underscores, its letters made small. Beyond ASCII only the
Kelvin sign becomes an ASCII letter, and only ASCII letters occur in what is looked for. -/
def bare (name : String) : String :=
  String.ofList <| (name.toList.filter fun c => c != ' ' && c != '-' && c != '_').map fun c =>
    if c == '\u212a' then 'k' else c.toLower

/-- Whether two names differ in spelling only. -/
def sameName (a b : String) : Bool := bare a == bare b

namespace Category

def all : List Category := [sources, processors, notes, keyboardInput, outputs]

def name : Category → String
  | sources => "Sources"
  | processors => "Processors"
  | notes => "Notes"
  | keyboardInput => "Keyboard Input"
  | outputs => "Outputs"

def description : Category → String
  | sources => "Constants, oscillators, and noise generators"
  | processors => "Gain, filtering, delay, clipping, and compression"
  | notes => "Note frequencies and transposition"
  | keyboardInput => "Instruments played from the computer keyboard"
  | outputs => "Speaker outputs, visualizers, and debuggers"

def find? (name : String) : Option Category := all.find? fun c => sameName c.name name

end Category

structure Entry where
  kind : Kind
  label : String
  category : Category
  description : String
deriving DecidableEq, Repr

/-- All entries, in the order of the menu. -/
def entries : List Entry :=
  [⟨.constant, "Constant", .sources, "Emits a fixed value"⟩,
    ⟨.oscillator, "Oscillator", .sources,
      "Periodic waveform with base and additional frequency inputs"⟩,
    ⟨.noise, "Noise", .sources, "Looping noise buffer in seven colors"⟩,
    ⟨.gain, "Gain", .processors, "Scales its input"⟩,
    ⟨.biquadFilter, "Biquad Filter", .processors, "Second-order filter with eight responses"⟩,
    ⟨.delay, "Delay", .processors, "Delay line"⟩,
    ⟨.clip, "Clip", .processors, "Hard clips the signal at a fixed amplitude"⟩,
    ⟨.dynamicsCompressor, "Dynamics Compressor", .processors,
      "Compressor with threshold, knee, ratio, attack, and release"⟩,
    ⟨.noteFrequency, "Note Frequency", .notes, "Frequency of a note in equal temperament"⟩,
    ⟨.transpose, "Transpose", .notes, "Multiplies a frequency by octaves and half steps"⟩,
    ⟨.keyboardNote, "Keyboard Oscillator", .keyboardInput,
      "Two octaves of oscillators played from the keyboard"⟩,
    ⟨.keyboardAdsr, "Keyboard ADSR", .keyboardInput,
      "Envelope on any signal, gated by one key"⟩,
    ⟨.universalOutput, "Universal Output", .outputs,
      "Speaker output with volume and both scopes"⟩,
    ⟨.audioOutput, "Audio Output", .outputs, "Speaker output"⟩,
    ⟨.timeVisualizer, "Time Domain Visualizer", .outputs, "Oscilloscope view"⟩,
    ⟨.frequencyVisualizer, "Frequency Domain Visualizer", .outputs, "Spectrum view"⟩,
    ⟨.consoleDebugger, "Console Debugger", .outputs, "Logs what feeds it"⟩]

def entriesIn (c : Category) : List Entry := entries.filter (·.category = c)

def ofKind? (k : Kind) : Option Entry := entries.find? (·.kind = k)

/-- The first entry whose label or whose kind's tag is the given name. -/
def find? (name : String) : Option Entry :=
  entries.find? fun e => sameName e.label name || sameName e.kind.tag name

/-- Adds a node of the named kind to a graph, every control at its standard value. -/
def create {α : Type} [Scalar α] (g : Graph α) (name : String) : Option (NodeId × Graph α) :=
  (find? name).map fun e => g.addNode e.kind

end Patchbay.Palette
