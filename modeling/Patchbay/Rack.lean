import Patchbay.Primitive
/-!
# Racks

A rack holds primitives and records what is done with them: they are created, patched into each
other, automated, started, stopped and released. Nothing is ever taken out of a rack, so the
number of a primitive is its for good. A rack can refuse to create the primitives of chosen
families.

The values of parameters and of the outputs that are known without rendering sound can be asked
for at any time on the rack's clock.
-/

namespace Patchbay

/-- The primitive that a rack could not create. -/
structure Refusal where
  family : Family
deriving DecidableEq, Repr

def Refusal.message (r : Refusal) : String :=
  "backend could not create " ++ r.family.name ++ ": creation disabled"

structure Rack (α : Type) where
  clock : α
  sampleRate : α
  running : Bool
  primitives : Array (Primitive α)
  refused : List Family

namespace Rack

variable {α : Type}

/-- The place of the loudspeakers, which is not in the rack. -/
def destination : PrimitiveId := Nat.pow 2 32 - 1

section

variable [Scalar α]

/-- An empty rack, running, with its clock at zero. -/
def new (sampleRate : α) : Rack α := ⟨0.0, sampleRate, true, #[], []⟩

/-! ## Changes -/

def refuse (rack : Rack α) (family : Family) : Rack α :=
  if family ∈ rack.refused then rack else { rack with refused := family :: rack.refused }

def accept (rack : Rack α) (family : Family) : Rack α :=
  { rack with refused := rack.refused.filter (· ≠ family) }

/-- Moves the clock forward to a time; it never goes back. -/
def advanceTo (rack : Rack α) (time : α) : Rack α :=
  { rack with clock := Scalar.greatest rack.clock time }

def advanceBy (rack : Rack α) (seconds : α) : Rack α :=
  { rack with clock := rack.clock + Scalar.greatest seconds 0.0 }

def setRunning (rack : Rack α) (running : Bool) : Rack α := { rack with running }

/-- Adds a primitive at the end of the rack. -/
def add (rack : Rack α) (setup : Setup α) : Rack α :=
  { rack with primitives := rack.primitives.push (.new setup) }

/-- Adds a primitive and gives its place, unless its family is refused. -/
def create (rack : Rack α) (setup : Setup α) : Except Refusal (PrimitiveId × Rack α) :=
  if setup.family ∈ rack.refused then .error ⟨setup.family⟩
  else .ok (rack.primitives.size, rack.add setup)

/-- Changes the record of one primitive; without that primitive the rack stays as it is. -/
def update (rack : Rack α) (id : PrimitiveId) (f : Primitive α → Primitive α) : Rack α :=
  { rack with primitives := rack.primitives.modify id f }

def connect (rack : Rack α) (source : PrimitiveId) (inlet : Inlet) : Rack α :=
  rack.update source fun p => { p with outputs := p.outputs ++ [inlet] }

/-- Unpatches a primitive's outputs and releases it. -/
def release (rack : Rack α) (id : PrimitiveId) : Rack α :=
  rack.update id fun p => { p with outputs := [], released := true }

def releaseAll (rack : Rack α) (ids : List PrimitiveId) : Rack α := ids.foldl release rack

def schedule (rack : Rack α) (dial : Dial) (cue : Cue α) : Rack α :=
  rack.update dial.primitive (·.mapTimeline dial.param (·.apply rack.clock cue))

def start (rack : Rack α) (id : PrimitiveId) (time : α) : Rack α :=
  rack.update id fun p => { p with startedAt := some time }

def stop (rack : Rack α) (id : PrimitiveId) (time : α) : Rack α :=
  rack.update id fun p => { p with stoppedAt := some time }

/-! ## Values -/

def primitive? (rack : Rack α) (id : PrimitiveId) : Option (Primitive α) := rack.primitives[id]?

/-- The value scheduled for a parameter, leaving out what is patched into it. -/
def valueAt (rack : Rack α) (dial : Dial) (t : α) : α :=
  match (rack.primitive? dial.primitive).bind (·.timeline? dial.param) with
  | some tl => tl.valueAt t
  | none => 0.0

/-- The value of a parameter now. -/
def valueNow (rack : Rack α) (dial : Dial) : α := rack.valueAt dial rack.clock

/-- Sets a parameter from now on. -/
def setValue (rack : Rack α) (dial : Dial) (value : α) : Rack α :=
  rack.schedule dial (.set value rack.clock)

/-- Moves a parameter in a straight line from its present value. -/
def rampTo (rack : Rack α) (dial : Dial) (value duration : α) : Rack α :=
  let held := rack.valueNow dial
  (rack.schedule dial (.set held rack.clock)).schedule dial (.linear value (rack.clock + duration))

/-- The unreleased primitives patched into an inlet, each once, in the order of their places. -/
def inputsOf (rack : Rack α) (inlet : Inlet) : List PrimitiveId :=
  (List.range rack.primitives.size).filter fun id =>
    match rack.primitive? id with
    | some p => !p.released && p.outputs.contains inlet
    | none => false

/-- The parameters that unreleased primitives are patched into, by primitive. -/
def modulatedDials (rack : Rack α) : List Dial :=
  (List.range rack.primitives.size).flatMap fun id =>
    match rack.primitive? id with
    | some p => (p.timelines.map fun (param, _) => (⟨id, param⟩ : Dial)).filter fun d =>
        !(rack.inputsOf (.dial d)).isEmpty
    | none => []

/-- The sum of `start` and the outputs of the given primitives, unknown when one of them is. -/
def sumOutputs (output? : PrimitiveId → Option α) (start : α) (ids : List PrimitiveId) :
    Option α :=
  ids.foldlM (fun sum id => (output? id).map (sum + ·)) start

/-- The output of a primitive at time `t`, as far as it is known through at most `depth`
primitives: constants give their offset and gains scale the sum of their inputs. -/
def outputWithin (rack : Rack α) (t : α) : Nat → PrimitiveId → Option α
  | 0, _ => none
  | depth + 1, id => do
    let p ← rack.primitive? id
    let driven (param : Param) : Option α :=
      sumOutputs (outputWithin rack t depth) (rack.valueAt ⟨id, param⟩ t)
        (rack.inputsOf (.dial ⟨id, param⟩))
    match p.family with
    | .constantSource => driven .offset
    | .gain =>
      let input ← sumOutputs (outputWithin rack t depth) 0.0 (rack.inputsOf (.input id))
      let level ← driven .gain
      return input * level
    | _ => none

/-- The output of a primitive at time `t`. Where nothing is patched in a circle no path is longer
than the rack. -/
def outputAt (rack : Rack α) (id : PrimitiveId) (t : α) : Option α :=
  rack.outputWithin t (rack.primitives.size + 1) id

/-- The value of a parameter at time `t` with everything that is patched into it. -/
def effectiveAt (rack : Rack α) (dial : Dial) (t : α) : Option α :=
  sumOutputs (rack.outputAt · t) (rack.valueAt dial t) (rack.inputsOf (.dial dial))

end

/-! ## Counts -/

/-- How many of the families are listed, family by family; those that are not are left out. -/
def countFamilies (families : List Family) : List (Family × Nat) :=
  Family.all.filterMap fun f =>
    let n := families.count f
    if n = 0 then none else some (f, n)

/-- The families of the unreleased primitives. -/
def liveFamilies (rack : Rack α) : List Family :=
  rack.primitives.toList.filterMap fun p => if p.released then none else some p.family

def liveCounts (rack : Rack α) : List (Family × Nat) := countFamilies rack.liveFamilies

def liveCount (rack : Rack α) (family : Family) : Nat := rack.liveFamilies.count family

end Rack

end Patchbay
