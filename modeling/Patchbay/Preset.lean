import Patchbay.Document.Basic
/-!
# Presets

Small documents that are always at hand, under a name and a display name.
-/

namespace Patchbay

inductive Preset where
  | basicTone
  | filteredNoise
  | keyboardSynth
  | modulatedDelay
deriving DecidableEq, Repr

namespace Preset

def all : List Preset := [basicTone, filteredNoise, keyboardSynth, modulatedDelay]

def name : Preset → String
  | basicTone => "basic_tone"
  | filteredNoise => "filtered_noise"
  | keyboardSynth => "keyboard_synth"
  | modulatedDelay => "modulated_delay"

def displayName : Preset → String
  | basicTone => "Basic Tone"
  | filteredNoise => "Filtered Noise"
  | keyboardSynth => "Keyboard Synth"
  | modulatedDelay => "Modulated Delay"

/-- Whether two names differ at most in the case of ASCII letters. -/
def sameName (a b : String) : Bool := a.map Char.toLower == b.map Char.toLower

/-- The preset with a name or display name, letter case aside. -/
def find? (name : String) : Option Preset :=
  all.find? fun p => sameName p.name name || sameName p.displayName name

/-! ## Documents -/

def int (n : Int) : Json := .number (.int n)

def float (x : Float) : Json := .number (.float x)

def node (id name : String) (data : List (String × Json)) : NodeRecord :=
  ⟨id, name, .ofFields data⟩

/-- A connection from the signal of a node to a socket of another. -/
def signal (source target : NodeId) (input : String := "signal") : Connection :=
  ⟨source, "signal", target, input⟩

def universalOutput (id : NodeId) (gain : Float) : NodeRecord :=
  node id "Universal Output"
    [("gain", float gain), ("visual", .text "linear"), ("rangeMin", int (-100)),
      ("rangeMax", int (-10))]

def document : Preset → Document
  | basicTone =>
    ⟨[node "n1" "Oscillator" [("baseFreq", int 440), ("waveform", .text "sine")],
        universalOutput "n2" 0.5],
      [signal "n1" "n2"], []⟩
  | filteredNoise =>
    ⟨[node "n1" "Noise" [("noiseType", .text "Pink Noise")],
        node "n2" "Biquad Filter"
          [("freq", int 800), ("q", int 4), ("gain", int 0), ("filterType", .text "lowpass")],
        node "n3" "Gain" [("gain", float 0.4)],
        node "n4" "Audio Output" [],
        node "n5" "Frequency Domain Visualizer" [("visual", .text "log")]],
      [signal "n1" "n2", signal "n2" "n3", signal "n3" "n4", signal "n2" "n5"],
      [⟨"c1", "noise bed", .frame, ["n1", "n2"]⟩]⟩
  | keyboardSynth =>
    let profile : Profile Float :=
      { attack := 0.8, attackLength := 0.02, decay := 0.5, decayLength := 0.2, sustain := 0.3,
        sustainLength := 4.0, releaseLength := 0.6 }
    ⟨[node "n1" "Keyboard Note"
          [("waveform", .text "sawtooth"), ("halfstep", int 0), ("octave", int 0),
            ("adsrProfile", profile.toJson)],
        node "n2" "Biquad Filter"
          [("freq", int 2000), ("q", int 1), ("gain", int 0), ("filterType", .text "lowpass")],
        node "n3" "Dynamics Compressor"
          [("threshold", int (-24)), ("knee", int 30), ("ratio", int 12), ("attack", float 0.003),
            ("release", float 0.25)],
        universalOutput "n4" 0.8,
        node "n5" "Time Domain Visualizer" []],
      [signal "n1" "n2", signal "n2" "n3", signal "n3" "n4", signal "n3" "n5"],
      [⟨"c1", "play with Z..M and Q..I, hold shift to sustain", .inline, ["n1"]⟩]⟩
  | modulatedDelay =>
    ⟨[node "n1" "Oscillator" [("baseFreq", int 220), ("waveform", .text "triangle")],
        node "n2" "Delay" [("delay", float 0.25), ("maxDelay", int 1)],
        node "n3" "Oscillator" [("baseFreq", float 0.5), ("waveform", .text "sine")],
        node "n4" "Gain" [("gain", float 0.01)],
        node "n5" "Constant" [("value", float 0.25)],
        node "n6" "Gain" [("gain", int 1)],
        universalOutput "n7" 0.6],
      [signal "n3" "n4", signal "n4" "n6", ⟨"n5", "value", "n6", "signal"⟩,
        signal "n6" "n2" "delayTime", signal "n1" "n2", signal "n1" "n7", signal "n2" "n7"],
      []⟩

end Preset

end Patchbay
