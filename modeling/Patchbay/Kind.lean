import Patchbay.Control
import Patchbay.Noise
import Patchbay.Socket
/-!
# Kinds of nodes

The closed catalogue of nodes: the name that documents use for a kind, its role, its sockets and
its controls.
-/

namespace Patchbay

inductive Kind where
  | constant
  | oscillator
  | noise
  | noteFrequency
  | gain
  | biquadFilter
  | delay
  | clip
  | dynamicsCompressor
  | transpose
  | keyboardNote
  | keyboardAdsr
  | audioOutput
  | universalOutput
  | timeVisualizer
  | frequencyVisualizer
  | consoleDebugger
deriving DecidableEq, Repr

/-- What a node does in a graph. Sinks are what the others are built for. -/
inductive Role where
  | source
  | processor
  | input
  | sink
deriving DecidableEq, Repr

def Role.name : Role → String
  | source => "Source"
  | processor => "Processor"
  | input => "Input"
  | sink => "Sink"

namespace Kind

def all : List Kind :=
  [constant, oscillator, noise, noteFrequency, gain, biquadFilter, delay, clip,
    dynamicsCompressor, transpose, keyboardNote, keyboardAdsr, audioOutput, universalOutput,
    timeVisualizer, frequencyVisualizer, consoleDebugger]

/-- The name of the kind in documents. -/
def tag : Kind → String
  | constant => "Constant"
  | oscillator => "Oscillator"
  | noise => "Noise"
  | noteFrequency => "Note Frequency"
  | gain => "Gain"
  | biquadFilter => "Biquad Filter"
  | delay => "Delay"
  | clip => "Clip Signal"
  | dynamicsCompressor => "Dynamics Compressor"
  | transpose => "Transpose"
  | keyboardNote => "Keyboard Note"
  | keyboardAdsr => "Keyboard ADSR"
  | audioOutput => "Audio Output"
  | universalOutput => "Universal Output"
  | timeVisualizer => "Time Domain Visualizer"
  | frequencyVisualizer => "Frequency Domain Visualizer"
  | consoleDebugger => "Console Debugger"

def ofTag? (s : String) : Option Kind := findByName? all tag s

theorem mem_all (k : Kind) : k ∈ all := by cases k <;> decide

def role : Kind → Role
  | constant | oscillator | noise | noteFrequency => .source
  | gain | biquadFilter | delay | clip | dynamicsCompressor | transpose => .processor
  | keyboardNote | keyboardAdsr => .input
  | audioOutput | universalOutput | timeVisualizer | frequencyVisualizer | consoleDebugger => .sink

def isSink (k : Kind) : Bool := k.role = .sink

/-- Monitors show a signal and let nothing be heard. -/
def isMonitor : Kind → Bool
  | timeVisualizer | frequencyVisualizer | consoleDebugger => true
  | _ => false

/-! ## Sockets -/

def signalIn : Socket := .signalInput "signal" "Signal"

def signalOut : Socket := .output "signal" "Signal"

def baseFrequency : Socket := .base "baseFrequency" "Base Frequency" "baseFreq"

def addedFrequency : Socket := .additional "frequency" "Additional Frequency"

def gainLevel : Socket := .additive "gain" "Gain" "gain"

def filterFrequency : Socket := .additive "frequency" "Frequency" "freq"

def filterQ : Socket := .additive "q" "Q" "q"

def delayTime : Socket := .base "delayTime" "Delay Time" "delay"

def keysFrequency : Socket := .additional "additionalFrequency" "Additional Frequency"

def inputs : Kind → List Socket
  | constant | noise | noteFrequency => []
  | oscillator => [baseFrequency, addedFrequency]
  | gain => [signalIn, gainLevel]
  | biquadFilter => [signalIn, filterFrequency, filterQ, gainLevel]
  | delay => [signalIn, delayTime]
  | keyboardNote => [keysFrequency]
  | clip | dynamicsCompressor | transpose | keyboardAdsr | audioOutput | universalOutput
  | timeVisualizer | frequencyVisualizer | consoleDebugger => [signalIn]

def outputs : Kind → List Socket
  | constant => [.output "value" "Value"]
  | noteFrequency => [.output "value" "Frequency"]
  | oscillator | noise | gain | biquadFilter | delay | clip | dynamicsCompressor | transpose
  | keyboardNote | keyboardAdsr => [signalOut]
  | audioOutput | universalOutput | timeVisualizer | frequencyVisualizer | consoleDebugger => []

def input? (k : Kind) (name : String) : Option Socket := k.inputs.find? (·.name == name)

def output? (k : Kind) (name : String) : Option Socket := k.outputs.find? (·.name == name)

/-- The socket that a control is the inline value of. -/
def socketOf? (k : Kind) (control : String) : Option Socket :=
  k.inputs.find? (·.inline == some control)

/-! ## Controls -/

section

variable {α : Type} [Scalar α]

def waveformControl : Control α := .choice "waveform" "Waveform" "sine" (Waveform.all.map (·.name))

def scaleControl : Control α := .choice "visual" "Scale" "linear" ["linear", "log"]

def profileControl : Control α := ⟨"adsrProfile", "ADSR", .profile, false⟩

/-- The least amplitude at which a signal can be clipped. -/
def leastClip : α := 1e-6

def controls : Kind → List (Control α)
  | constant => [(Control.number "value" "Value" 1.0).alive]
  | oscillator => [(Control.number "baseFreq" "Base Frequency" 440.0).alive, waveformControl]
  | noise =>
    [.choice "noiseType" "Noise Type" "White Noise" (Noise.Color.all.map (·.name))]
  | noteFrequency =>
    [.ranged "note" "Note" 9.0 0.0 11.0, .number "octave" "Octave" 4.0]
  | gain => [(Control.number "gain" "Gain" 1.0).alive]
  | biquadFilter =>
    [(Control.number "freq" "Frequency" 350.0).alive,
      (Control.number "q" "Q" 1.0).alive,
      (Control.number "gain" "Gain" 0.0).alive,
      .choice "filterType" "Filter Type" "lowpass" (Response.all.map (·.name))]
  | delay =>
    [(Control.atLeast "delay" "Delay Time" 1.0 0.0).alive,
      .atLeast "maxDelay" "Max Delay" 1.0 0.0]
  | clip => [.atLeast "amp" "Amplitude" 1.0 leastClip]
  | dynamicsCompressor =>
    [(Control.ranged "threshold" "Threshold" (-(24.0 : α)) (-(100.0 : α)) 0.0).alive,
      (Control.ranged "knee" "Knee" 30.0 0.0 40.0).alive,
      (Control.ranged "ratio" "Ratio" 12.0 1.0 20.0).alive,
      (Control.ranged "attack" "Attack" 0.003 0.0 1.0).alive,
      (Control.ranged "release" "Release" 0.25 0.0 1.0).alive]
  | transpose => [.number "halfstep" "Half Steps" 0.0, .number "octave" "Octaves" 0.0]
  | keyboardNote =>
    [waveformControl, .number "halfstep" "Half Steps" 0.0, .number "octave" "Octaves" 0.0,
      profileControl]
  | keyboardAdsr => [⟨"keyCode", "Key", .key .a, false⟩, profileControl]
  | universalOutput =>
    [(Control.ranged "gain" "Volume" 1.0 0.0 1.0).alive,
      scaleControl,
      .number "rangeMin" "Range Min (dB)" (-(100.0 : α)),
      .number "rangeMax" "Range Max (dB)" (-(10.0 : α))]
  | frequencyVisualizer => [scaleControl]
  | audioOutput | timeVisualizer | consoleDebugger => []

def control? (k : Kind) (key : String) : Option (Control α) := k.controls.find? (·.key == key)

end

end Kind

end Patchbay
