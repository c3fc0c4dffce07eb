import Patchbay.Keyboard.Envelope
/-!
# The keyboard

Which keys are down, and which are only kept sounding by the sustain pedal. The shift key is the
pedal: a key that changes no voice takes shift as a change of the pedal. Pressing a key that is
held does nothing more to its voices, so that a repeating key is one note.
-/

namespace Patchbay

inductive KeyState where
  | idle
  | held
  | deferred
deriving DecidableEq, Repr

structure Keyboard (α : Type) where
  voicing : Voicing α
  states : Key → KeyState
  sustaining : Bool

namespace Keyboard

variable {α : Type}

/-- A keyboard with all keys up and the pedal up. -/
def withVoicing (voicing : Voicing α) : Keyboard α := ⟨voicing, fun _ => .idle, false⟩

def new : Keyboard α := withVoicing .empty

/-! ## Putting a keyboard away -/

/-- What a keyboard was like at one time. -/
structure Snapshot (α : Type) where
  voicing : Voicing α
  states : Key → KeyState
  sustaining : Bool

/-- Captures all that `reset` drops. -/
def snapshot (kb : Keyboard α) : Snapshot α := ⟨kb.voicing, kb.states, kb.sustaining⟩

/-- Puts back what was captured, held keys and the pedal included. -/
def restore (kb : Keyboard α) (kept : Snapshot α) : Keyboard α :=
  { kb with voicing := kept.voicing, states := kept.states, sustaining := kept.sustaining }

/-- Drops all voices with their profiles; all keys and the pedal are up. -/
def reset (kb : Keyboard α) : Keyboard α :=
  { kb with voicing := .empty, states := fun _ => .idle, sustaining := false }

theorem reset_eq (kb : Keyboard α) : kb.reset = new := rfl

/-- Whatever has become of a keyboard, it can be taken back as it was. -/
theorem restore_snapshot (later kb : Keyboard α) : later.restore kb.snapshot = kb := rfl

/-! ## Keys -/

def setState (kb : Keyboard α) (key : Key) (state : KeyState) : Keyboard α :=
  { kb with states := fun other => if other = key then state else kb.states other }

/-- The key with a code, if it has voices. -/
def playable? (kb : Keyboard α) (code : String) : Option Key :=
  (Key.ofCode? code).filter fun key => !(kb.voicing.voicesOf key).isEmpty

section

variable [Scalar α]

/-- Schedules cues on every voice of a key. -/
def onVoices (kb : Keyboard α) (cues : Profile α → α → α → List (Cue α)) (key : Key)
    (rack : Rack α) : Rack α :=
  (kb.voicing.voicesOf key).foldl
    (fun rack voice =>
      Envelope.schedule (cues (kb.voicing.profileAt voice.profile)) rack voice.gain)
    rack

/-- A key goes down. Gives whether voices were opened. -/
def down (kb : Keyboard α) (rack : Rack α) (code : String) (shift : Bool) :
    Bool × Keyboard α × Rack α :=
  match (kb.playable? code).filter (kb.states · ≠ .held) with
  | some key => (true, kb.setState key .held, kb.onVoices Envelope.attack key rack)
  | none => (false, { kb with sustaining := kb.sustaining || shift }, rack)

/-- The keys that only the pedal keeps sounding. -/
def deferredKeys (kb : Keyboard α) : List Key := Key.all.filter (kb.states · = .deferred)

/-- Closes the voices of a key and lets it go. -/
def letGo (kb : Keyboard α) (rack : Rack α) (key : Key) : Keyboard α × Rack α :=
  (kb.setState key .idle, kb.onVoices Envelope.release key rack)

/-- Lets keys go one after the other. -/
def letGoAll (kb : Keyboard α) (rack : Rack α) (keys : List Key) : Keyboard α × Rack α :=
  keys.foldl (fun (kb, rack) key => kb.letGo rack key) (kb, rack)

/-- The pedal goes down or up. When it goes up, the keys that only it kept sounding are let go. -/
def setSustain (kb : Keyboard α) (rack : Rack α) (on : Bool) : Keyboard α × Rack α :=
  let pedal := { kb with sustaining := on }
  if on then (pedal, rack) else pedal.letGoAll rack pedal.deferredKeys

/-- A key goes up. -/
def up (kb : Keyboard α) (rack : Rack α) (code : String) (shift : Bool) :
    Keyboard α × Rack α :=
  match (kb.playable? code).filter (kb.states · = .held) with
  | some key =>
    if kb.sustaining then (kb.setState key .deferred, rack) else kb.letGo rack key
  | none => if shift then (kb, rack) else kb.setSustain rack false

end

/-- The keys that are not idle, with their states. -/
def activeKeys (kb : Keyboard α) : List (Key × KeyState) :=
  Key.all.filterMap fun key =>
    if kb.states key = .idle then none else some (key, kb.states key)

end Keyboard

end Patchbay
