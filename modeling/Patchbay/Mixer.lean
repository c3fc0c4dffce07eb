import Patchbay.Patch.Assembly
/-!
# The mixer

What outlives a patch: the rack, and the master chain through which everything is heard. Sinks
feed the master gain, which feeds the master compressor, which feeds the loudspeakers. The master
gain is closed at first; it is opened after the sources of a patch have been started, and closed
before they are stopped.
-/

namespace Patchbay

/-- A primitive that sounds once it is started. -/
structure Mixer.Source where
  id : PrimitiveId
  started : Bool
deriving DecidableEq, Repr

structure Mixer (α : Type) where
  rack : Rack α
  master : PrimitiveId
  compressor : PrimitiveId
  /-- What the master gain is opened to. -/
  level : α
  noise : Noise.Source α
  sources : List Mixer.Source

namespace Mixer

variable {α : Type} [Scalar α]

/-- A level within `[0, 1]`. -/
def levelOf (x : α) : α := Scalar.clamp 0.0 1.0 x

/-- Puts a master chain on a rack. -/
def new (rack : Rack α) (level : α) (noise : Noise.Source α) : Except Refusal (Mixer α) := do
  let (master, rack) ← rack.create (.gain 0.0)
  let (compressor, rack) ← rack.create .dynamicsCompressor
  let rack := (rack.connect master (.input compressor)).connect compressor (.input Rack.destination)
  return ⟨rack, master, compressor, levelOf level, noise, []⟩

def masterGain (m : Mixer α) : Dial := ⟨m.master, .gain⟩

def mapRack (m : Mixer α) (f : Rack α → Rack α) : Mixer α := { m with rack := f m.rack }

/-- Changes the level, from the next time the master gain is opened. -/
def setLevel (m : Mixer α) (level : α) : Mixer α := { m with level := levelOf level }

def startedSources (m : Mixer α) : List Source := m.sources.filter (·.started)

/-- Takes over the sources of a patch, none of them started. -/
def adopt (m : Mixer α) (patch : Patch α) : Mixer α :=
  { m with sources := patch.sources.map fun id => ⟨id, false⟩ }

/-- Closes the master gain over `ramp` seconds and stops what is started at the end of it. Does
nothing when nothing is started; gives whether anything was. -/
def fadeOut (m : Mixer α) (ramp : α) : Bool × Mixer α :=
  if m.startedSources.isEmpty then (false, m)
  else
    let rack := m.rack.rampTo m.masterGain 0.0 ramp
    let ended := rack.clock + ramp
    (true, { m with
      rack := m.startedSources.foldl (fun rack s => rack.stop s.id ended) rack
      sources := m.sources.map fun s => { s with started := false } })

/-- Starts what is not started and opens the master gain over `ramp` seconds. -/
def fadeIn (m : Mixer α) (ramp : α) : Mixer α :=
  let waiting := m.sources.filter (!·.started)
  let rack := waiting.foldl (fun rack s => rack.start s.id rack.clock) m.rack
  { m with
    rack := rack.rampTo m.masterGain m.level ramp
    sources := m.sources.map fun s => { s with started := true } }

/-- Releases every primitive of a patch and forgets its sources. -/
def release (m : Mixer α) (patch : Patch α) : Mixer α :=
  { m with
    rack := m.rack.releaseAll patch.ids
    sources := m.sources.filter fun s => !patch.ids.contains s.id }

/-- Builds a graph into the master chain, adding voices to a voicing. -/
def build (m : Mixer α) (g : Graph α) (voicing : Voicing α) :
    Except Patch.Fault (Patch α) × Mixer α × Voicing α :=
  let built := g.build m.master m.noise m.rack voicing
  (built.outcome, { m with rack := built.rack }, built.voicing)

end Mixer

end Patchbay
