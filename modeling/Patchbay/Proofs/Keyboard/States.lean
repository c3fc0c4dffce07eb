import Mathlib.Logic.Basic
import Patchbay.Keyboard.State
/-!
# The states of the keys

What the calls of a keyboard make of its states, whatever becomes of its voices. Only keys that have
voices are ever held or kept by the pedal (`Keyboard.Backed`), and keys are kept by the pedal only
while it is down (`Keyboard.Pedalled`).
-/

namespace Patchbay

variable {α : Type}

namespace Keyboard

/-! ## Calls -/

section

variable [Scalar α]

/-- Keys that are let go become idle, and nothing else changes. -/
theorem keyboard_letGoAll (kb : Keyboard α) (rack : Rack α) (keys : List Key) :
    (kb.letGoAll rack keys).1 =
      { kb with states := fun key => if key ∈ keys then .idle else kb.states key } := by
  unfold letGoAll
  induction keys generalizing kb rack with
  | nil => simp
  | cons first keys ih =>
    rw [List.foldl_cons]
    refine (ih (kb.letGo rack first).1 (kb.letGo rack first).2).trans ?_
    refine congrArg (fun states => { kb with states }) (funext fun key => ?_)
    by_cases hmem : key ∈ keys
    · simp [hmem]
    · by_cases hkey : key = first <;> simp [letGo, setState, hmem, hkey]

theorem states_letGoAll (kb : Keyboard α) (rack : Rack α) (keys : List Key) (key : Key) :
    (kb.letGoAll rack keys).1.states key = if key ∈ keys then .idle else kb.states key := by
  rw [keyboard_letGoAll]

theorem voicing_letGoAll (kb : Keyboard α) (rack : Rack α) (keys : List Key) :
    (kb.letGoAll rack keys).1.voicing = kb.voicing := by
  rw [keyboard_letGoAll]

omit [Scalar α] in
theorem mem_deferredKeys {kb : Keyboard α} {key : Key} :
    key ∈ kb.deferredKeys ↔ kb.states key = .deferred := by
  simp [deferredKeys, Key.mem_all]

/-- When the pedal goes up, the keys that only it kept are let go. -/
theorem states_setSustain (kb : Keyboard α) (rack : Rack α) (key : Key) :
    (kb.setSustain rack false).1.states key =
      if kb.states key = .deferred then .idle else kb.states key := by
  exact (states_letGoAll _ rack _ key).trans (if_congr mem_deferredKeys rfl rfl)

section

variable {kb : Keyboard α} {key : Key}

omit [Scalar α] in
theorem playable?_code (h : kb.voicing.voicesOf key ≠ []) : kb.playable? key.code = some key := by
  simp [playable?, Key.ofCode?_code, h]

/-- A key with voices is held once it has gone down. -/
theorem states_down_code (h : kb.voicing.voicesOf key ≠ []) (rack : Rack α) (shift : Bool) :
    (kb.down rack key.code shift).2.1.states key = .held := by
  unfold down
  rw [playable?_code h]
  by_cases hheld : kb.states key = .held <;> simp [Option.filter_some, hheld, setState]

/-- A key with voices is not held any more once it has gone up. -/
theorem states_up_code (h : kb.voicing.voicesOf key ≠ []) (rack : Rack α) (shift : Bool) :
    (kb.up rack key.code shift).1.states key ≠ .held := by
  unfold up
  rw [playable?_code h]
  by_cases hheld : kb.states key = .held
  · cases hpedal : kb.sustaining <;> simp [Option.filter_some, hheld, hpedal, letGo, setState]
  · cases shift with
    | true => simp [Option.filter_some, hheld]
    | false =>
      simp only [Option.filter_some, hheld, decide_false, Bool.false_eq_true, if_false]
      rw [states_setSustain]
      by_cases hdeferred : kb.states key = .deferred <;> simp [hdeferred, hheld]

/-- Once a key with voices has gone up and then the pedal, it is idle. -/
theorem states_up_sustain (h : kb.voicing.voicesOf key ≠ []) (rack rack' : Rack α) (shift : Bool) :
    ((kb.up rack key.code shift).1.setSustain rack' false).1.states key = .idle := by
  have hup := states_up_code h rack shift
  rw [states_setSustain]
  cases hstate : (kb.up rack key.code shift).1.states key with
  | idle => rfl
  | held => exact absurd hstate hup
  | deferred => rfl

end

theorem voicing_setSustain (kb : Keyboard α) (rack : Rack α) (on : Bool) :
    (kb.setSustain rack on).1.voicing = kb.voicing := by
  unfold setSustain
  cases on with
  | true => rfl
  | false => exact voicing_letGoAll _ rack _

theorem voicing_down (kb : Keyboard α) (rack : Rack α) (code : String) (shift : Bool) :
    (kb.down rack code shift).2.1.voicing = kb.voicing := by
  unfold down
  split <;> rfl

theorem voicing_up (kb : Keyboard α) (rack : Rack α) (code : String) (shift : Bool) :
    (kb.up rack code shift).1.voicing = kb.voicing := by
  unfold up
  split
  next => split <;> rfl
  next =>
    split
    next => rfl
    next => exact voicing_setSustain kb rack false

end

/-! ## Keys that are down -/

/-- Only keys with voices are held, or kept by the pedal. -/
def Backed (kb : Keyboard α) : Prop := ∀ key, kb.states key ≠ .idle → kb.voicing.voicesOf key ≠ []

theorem backed_withVoicing (voicing : Voicing α) : (withVoicing voicing).Backed :=
  fun _ hne => absurd rfl hne

namespace Backed

variable {kb : Keyboard α}

theorem setState (h : kb.Backed) {key : Key} {state : KeyState}
    (hkey : state ≠ .idle → kb.voicing.voicesOf key ≠ []) : (kb.setState key state).Backed := by
  intro other hother
  have hother : (if other = key then state else kb.states other) ≠ .idle := hother
  split at hother
  next heq => exact heq ▸ hkey hother
  next => exact h other hother

variable [Scalar α]

theorem letGoAll (h : kb.Backed) (rack : Rack α) (keys : List Key) :
    (kb.letGoAll rack keys).1.Backed := by
  induction keys generalizing kb rack with
  | nil => exact h
  | cons key keys ih => exact ih (h.setState fun hne => absurd rfl hne) _

theorem setSustain (h : kb.Backed) (rack : Rack α) (on : Bool) :
    (kb.setSustain rack on).1.Backed := by
  have hpedal : Backed { kb with sustaining := on } := h
  unfold Keyboard.setSustain
  cases on with
  | true => exact hpedal
  | false => exact hpedal.letGoAll rack _

theorem down (h : kb.Backed) (rack : Rack α) (code : String) (shift : Bool) :
    (kb.down rack code shift).2.1.Backed := by
  unfold Keyboard.down
  split
  next key hkey =>
    have hplayable : kb.playable? code = some key := (Option.filter_eq_some_iff.mp hkey).1
    have hvoices := (Option.filter_eq_some_iff.mp hplayable).2
    refine h.setState fun _ hnone => ?_
    rw [hnone] at hvoices
    cases hvoices
  next => exact h

theorem up (h : kb.Backed) (rack : Rack α) (code : String) (shift : Bool) :
    (kb.up rack code shift).1.Backed := by
  unfold Keyboard.up
  split
  next key hkey =>
    split
    next =>
      have hheld : kb.states key = .held := of_decide_eq_true (Option.filter_eq_some_iff.mp hkey).2
      refine h.setState fun _ => h key ?_
      rw [hheld]
      decide
    next => exact h.setState fun hne => absurd rfl hne
  next =>
    split
    next => exact h
    next => exact h.setSustain rack false

end Backed

/-! ## Keys that are kept -/

/-- The pedal keeps keys only while it is down. -/
def Pedalled (kb : Keyboard α) : Prop := ∀ key, kb.states key = .deferred → kb.sustaining = true

theorem pedalled_withVoicing (voicing : Voicing α) : (withVoicing voicing).Pedalled := nofun

theorem Pedalled.setState {kb : Keyboard α} (h : kb.Pedalled) {key : Key} {state : KeyState}
    (hstate : state = .deferred → kb.sustaining = true) : (kb.setState key state).Pedalled := by
  intro other hother
  have hother : (if other = key then state else kb.states other) = .deferred := hother
  split at hother
  next => exact hstate hother
  next => exact h other hother

variable [Scalar α]

/-- When the pedal goes down nothing is asked of the states, and when it goes up no key is kept. -/
theorem pedalled_setSustain (kb : Keyboard α) (rack : Rack α) (on : Bool) :
    (kb.setSustain rack on).1.Pedalled := by
  cases on with
  | true => exact fun _ _ => rfl
  | false =>
    intro key hkey
    rw [states_setSustain] at hkey
    split at hkey
    next => cases hkey
    next hnot => exact absurd hkey hnot

namespace Pedalled

variable {kb : Keyboard α}

theorem down (h : kb.Pedalled) (rack : Rack α) (code : String) (shift : Bool) :
    (kb.down rack code shift).2.1.Pedalled := by
  unfold Keyboard.down
  split
  next => exact h.setState nofun
  next =>
    intro key hkey
    show (kb.sustaining || shift) = true
    rw [h key hkey, Bool.true_or]

theorem up (h : kb.Pedalled) (rack : Rack α) (code : String) (shift : Bool) :
    (kb.up rack code shift).1.Pedalled := by
  unfold Keyboard.up
  split
  next =>
    split
    next hpedal => exact h.setState fun _ => hpedal
    next => exact h.setState nofun
  next =>
    split
    next => exact h
    next => exact pedalled_setSustain kb rack false

end Pedalled

end Keyboard

end Patchbay
