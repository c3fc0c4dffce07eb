import Patchbay.Noise
import Patchbay.Number.Layout
import Patchbay.Toml.Reader
/-!
# Settings

What can be tuned: how long the stages of a rebuild take, how fast live changes move, the master
level, the noise buffers and the sample rate. Settings are written as a TOML document of five
sections. What a document leaves out has the standard value and what it adds is ignored, but a
value of the wrong type or out of its bounds is a fault.
-/

namespace Patchbay

structure Settings where
  /-- How long the patch that is replaced fades out, in milliseconds like all times here. -/
  fade : Nat := 50
  /-- The pause after the fade, before the new patch is installed. -/
  settle : Nat := 50
  /-- The pause before the sources of the new patch start. -/
  startDelay : Nat := 100
  /-- The pause before a rebuild counts as finished. -/
  finishDelay : Nat := 50
  /-- How long a live change takes. -/
  ramp : Nat := 20
  masterGain : Float := 1.0
  noiseSeconds : Float := 10.0
  noiseSeed : UInt32 := Noise.standardSeed
  sampleRate : Nat := 48000

namespace Settings

/-- How long an uninterrupted rebuild takes. -/
def passLength (s : Settings) : Nat := s.fade + s.settle + s.startDelay + s.finishDelay

def noise {α : Type} [Scalar α] (s : Settings) : Noise.Source α :=
  ⟨Scalar.ofFloat s.noiseSeconds, s.noiseSeed⟩

/-! ## Faults -/

inductive Fault where
  /-- The text is no TOML document, or a value has the wrong type. -/
  | unreadable
  | invalid (field reason : String)
deriving DecidableEq, Repr

def Fault.message : Fault → String
  | .unreadable => "failed to parse TOML"
  | .invalid field reason => "invalid setting '" ++ field ++ "': " ++ reason

/-- The first value out of its bounds, in the order of the sections. -/
def fault? (s : Settings) : Option Fault :=
  let positive : List (String × Nat) :=
    [("reconcile.fade_ms", s.fade), ("reconcile.start_delay_ms", s.startDelay),
      ("reconcile.finish_delay_ms", s.finishDelay), ("live.ramp_ms", s.ramp)]
  match positive.find? (·.2 == 0) with
  | some (field, _) => some (.invalid field "must be greater than 0")
  | none =>
    if !(0.0 ≤ s.masterGain && s.masterGain ≤ 1.0) then
      some (.invalid "output.master_gain" (Number.plainText s.masterGain ++ " is outside [0, 1]"))
    else if !(s.noiseSeconds.isFinite && 0.0 < s.noiseSeconds) then
      some (.invalid "noise.buffer_seconds" "must be a positive number of seconds")
    else if s.sampleRate < 8000 ∨ 192000 < s.sampleRate then
      some (.invalid "backend.sample_rate" (toString s.sampleRate ++ " is outside [8000, 192000]"))
    else none

/-! ## Reading -/

/-- One setting of a section: its name, and how its value is put among the settings. -/
structure Entry where
  name : String
  put : Toml.Value → Settings → Option Settings

/-- A whole number from zero to `largest`. -/
def count? (largest : Nat) : Toml.Value → Option Nat
  | .int n => if 0 ≤ n ∧ n ≤ largest then some n.toNat else none
  | _ => none

/-- A number, with or without a fraction. -/
def number? : Toml.Value → Option Float
  | .float x => some x
  | .int n => some (Float.ofInt n)
  | _ => none

/-- A number of milliseconds. -/
def timeEntry (name : String) (put : Nat → Settings → Settings) : Entry where
  name := name
  put v s := (count? (Nat.pow 2 64 - 1) v).map (put · s)

/-- The sections with their entries, in the order in which they are written. -/
def sections : List (String × List Entry) :=
  [("reconcile",
      [timeEntry "fade_ms" fun n s => { s with fade := n },
        timeEntry "settle_ms" fun n s => { s with settle := n },
        timeEntry "start_delay_ms" fun n s => { s with startDelay := n },
        timeEntry "finish_delay_ms" fun n s => { s with finishDelay := n }]),
    ("live", [timeEntry "ramp_ms" fun n s => { s with ramp := n }]),
    ("output",
      [⟨"master_gain", fun v s => (number? v).map fun x => { s with masterGain := x }⟩]),
    ("noise",
      [⟨"buffer_seconds", fun v s => (number? v).map fun x => { s with noiseSeconds := x }⟩,
        ⟨"seed", fun v s =>
          (count? (Nat.pow 2 32 - 1) v).map fun n => { s with noiseSeed := n.toUInt32 }⟩]),
    ("backend",
      [⟨"sample_rate", fun v s =>
        (count? (Nat.pow 2 32 - 1) v).map fun n => { s with sampleRate := n }⟩])]

/-- Takes over the fields that are entries. -/
def putFields (entries : List Entry) (fields : Toml.Fields) (s : Settings) : Option Settings :=
  fields.foldlM (fun s (name, value) =>
    match entries.find? (·.name == name) with
    | some e => e.put value s
    | none => some s) s

/-- Takes over values by position. -/
def putItems (entries : List Entry) (items : List Toml.Value) (s : Settings) : Option Settings :=
  (entries.zip items).foldlM (fun s (e, value) => e.put value s) s

/-- Takes over a section, which is a table, or a list of its values in order. A moment counts as
an empty table. -/
def putSection (entries : List Entry) (s : Settings) : Toml.Value → Option Settings
  | .table _ fields => putFields entries fields s
  | .list items => putItems entries items s
  | .tables items => putItems entries (items.map (.table .header)) s
  | .moment => some s
  | _ => none

def ofFields (fields : Toml.Fields) : Option Settings :=
  fields.foldlM (fun s (name, value) =>
    match sections.find? (·.1 == name) with
    | some (_, entries) => putSection entries s value
    | none => some s) {}

/-- Reads the settings from a TOML document. -/
def ofText (source : String) : Except Fault Settings :=
  match (Toml.read source).bind ofFields with
  | none => .error .unreadable
  | some s => match s.fault? with
    | some fault => .error fault
    | none => .ok s

/-! ## Writing -/

def floatText (x : Float) : String := Number.Layout.pointedPlain.render x

/-- The sections with their values as they are written. -/
def written (s : Settings) : List (String × List (String × String)) :=
  [("reconcile",
      [("fade_ms", toString s.fade), ("settle_ms", toString s.settle),
        ("start_delay_ms", toString s.startDelay), ("finish_delay_ms", toString s.finishDelay)]),
    ("live", [("ramp_ms", toString s.ramp)]),
    ("output", [("master_gain", floatText s.masterGain)]),
    ("noise",
      [("buffer_seconds", floatText s.noiseSeconds), ("seed", toString s.noiseSeed.toNat)]),
    ("backend", [("sample_rate", toString s.sampleRate)])]

/-- All settings as lines of TOML: a blank line stands between two sections. -/
def toText (s : Settings) : String :=
  "\n".intercalate <| s.written.map fun (title, entries) =>
    "[" ++ title ++ "]\n" ++
      String.join (entries.map fun (name, value) => name ++ " = " ++ value ++ "\n")

/-- The times, which alone can be greater than an integer of TOML. -/
def times (s : Settings) : List Nat :=
  [s.fade, s.settle, s.startDelay, s.finishDelay, s.ramp]

/-- The TOML document of the settings, if every time is an integer of TOML. -/
def toToml? (s : Settings) : Option String :=
  if s.times.all (· < Nat.pow 2 63) then some s.toText else none

end Settings

end Patchbay
