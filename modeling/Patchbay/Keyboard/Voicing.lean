import Patchbay.Keyboard.Key
import Patchbay.Keyboard.Profile
/-!
# Voicings

A voicing says what each key sounds: the gain parameters that it opens and closes, and the
envelope profile of each.
-/

namespace Patchbay

/-- A gain that a key plays. -/
structure Voice where
  gain : Dial
  /-- The place of the envelope profile in the voicing. -/
  profile : Nat
deriving DecidableEq, Repr

structure Voicing (α : Type) where
  profiles : List (Profile α)
  /-- Every voice with its key, in the order in which they were bound. -/
  bindings : List (Key × Voice)

namespace Voicing

variable {α : Type}

def empty : Voicing α := ⟨[], []⟩

/-- Adds a profile at the end; its place is the number of profiles before. -/
def register (v : Voicing α) (profile : Profile α) : Voicing α :=
  { v with profiles := v.profiles ++ [profile] }

def bind (v : Voicing α) (key : Key) (voice : Voice) : Voicing α :=
  { v with bindings := v.bindings ++ [(key, voice)] }

/-- The voices of a key, in the order in which they were bound. -/
def voicesOf (v : Voicing α) (key : Key) : List Voice :=
  (v.bindings.filter (·.1 == key)).map (·.2)

theorem voicesOf_bind (v : Voicing α) (key key' : Key) (voice : Voice) :
    (v.bind key voice).voicesOf key' =
      v.voicesOf key' ++ if key = key' then [voice] else [] := by
  by_cases h : key = key' <;> simp [voicesOf, bind, h]

/-- The profile at a place, or the standard one when there is none. -/
def profileAt [Scalar α] (v : Voicing α) (index : Nat) : Profile α :=
  v.profiles[index]?.getD .standard

def voiceCount (v : Voicing α) : Nat := v.bindings.length

def isEmpty (v : Voicing α) : Bool := v.bindings.isEmpty

/-- The keys that have voices, in the order of their codes. -/
def keys (v : Voicing α) : List Key := Key.byCode.filter fun key => !(v.voicesOf key).isEmpty

end Voicing

end Patchbay
