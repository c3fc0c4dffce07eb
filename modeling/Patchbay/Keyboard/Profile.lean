import Patchbay.Json.Shape
import Patchbay.Scalar
/-!
# Envelope profiles

The shape of a note: the levels it passes through after the key goes down, how long it takes to
reach each, and how long it takes to fade. A profile is written as a JSON record; what it leaves
out has the standard value.
-/

namespace Patchbay

structure Profile (α : Type) where
  attack : α
  attackLength : α
  decay : α
  decayLength : α
  sustain : α
  sustainLength : α
  releaseLength : α

namespace Profile

variable {α : Type}

def standard [Scalar α] : Profile α where
  attack := 0.8
  attackLength := 0.05
  decay := 0.7
  decayLength := 0.1
  sustain := 0.1
  sustainLength := 3.0
  releaseLength := 1.0

/-- The seven numbers in order. -/
def toList (p : Profile α) : List α :=
  [p.attack, p.attackLength, p.decay, p.decayLength, p.sustain, p.sustainLength, p.releaseLength]

def map {β : Type} (f : α → β) (p : Profile α) : Profile β where
  attack := f p.attack
  attackLength := f p.attackLength
  decay := f p.decay
  decayLength := f p.decayLength
  sustain := f p.sustain
  sustainLength := f p.sustainLength
  releaseLength := f p.releaseLength

/-- The levels with their names. -/
def levels (p : Profile α) : List (String × α) :=
  [("attack", p.attack), ("decay", p.decay), ("sustain", p.sustain)]

/-- The lengths with their names. -/
def lengths (p : Profile α) : List (String × α) :=
  [("attackLength", p.attackLength), ("decayLength", p.decayLength),
    ("sustainLength", p.sustainLength), ("releaseLength", p.releaseLength)]

/-- Why a profile cannot be played. -/
inductive Fault where
  | notFinite (name : String) (value : Float)
  | negative (name : String) (value : Float)
  | notPositive (name : String) (value : Float)

def Fault.message : Fault → String
  | .notFinite name value => name ++ " must be finite, got " ++ Number.plainText value
  | .negative name value => name ++ " must be >= 0, got " ++ Number.plainText value
  | .notPositive name value => name ++ " must be > 0, got " ++ Number.plainText value

/-- The first fault: numbers that are not finite come before levels below zero, and these before
lengths that are not positive. -/
def fault? [Scalar α] (p : Profile α) : Option Fault :=
  let named (cause : String → Float → Fault) : Option (String × α) → Option Fault :=
    Option.map fun (name, value) => cause name (Scalar.toFloat value)
  named .notFinite ((p.levels ++ p.lengths).find? fun (_, v) => !Scalar.isFinite v) <|>
    named .negative (p.levels.find? fun (_, v) => v < (0.0 : α)) <|>
    named .notPositive (p.lengths.find? fun (_, v) => v ≤ (0.0 : α))

/-- The names of the seven numbers, in order. -/
def names : List String :=
  ["attack", "attackLength", "decay", "decayLength", "sustain", "sustainLength", "releaseLength"]

def toJson (p : Profile Float) : Json :=
  .ofFields (names.zip (p.toList.map fun v => .number (.float v)))

/-- A profile being read: what has been given so far. -/
abbrev Draft := Profile (Option Float)

/-- One of the seven numbers of a profile being read. -/
def member (name : String) (get : Draft → Option Float) (put : Draft → Float → Draft) :
    Json.Member Draft where
  name := name
  required := false
  present p := (get p).isSome
  read _ outline p := return put p (← Json.asFloat outline)

def members : List (Json.Member Draft) :=
  [member "attack" (·.attack) fun p v => { p with attack := some v },
    member "attackLength" (·.attackLength) fun p v => { p with attackLength := some v },
    member "decay" (·.decay) fun p v => { p with decay := some v },
    member "decayLength" (·.decayLength) fun p v => { p with decayLength := some v },
    member "sustain" (·.sustain) fun p v => { p with sustain := some v },
    member "sustainLength" (·.sustainLength) fun p v => { p with sustainLength := some v },
    member "releaseLength" (·.releaseLength) fun p v => { p with releaseLength := some v }]

/-- Fills what was not given with the standard values. -/
def complete (p : Draft) : Profile Float where
  attack := p.attack.getD standard.attack
  attackLength := p.attackLength.getD standard.attackLength
  decay := p.decay.getD standard.decay
  decayLength := p.decayLength.getD standard.decayLength
  sustain := p.sustain.getD standard.sustain
  sustainLength := p.sustainLength.getD standard.sustainLength
  releaseLength := p.releaseLength.getD standard.releaseLength

/-- Reads a profile from a JSON value. Whether it can be played is not asked here. -/
def ofJson (value : Json) : Except Json.Fault (Profile Float) :=
  (Json.asRecord .value "struct VoiceProfile" members ⟨none, none, none, none, none, none, none⟩ 0
    (.ofJson value)).map complete

end Profile

end Patchbay
