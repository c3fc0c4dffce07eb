import Patchbay.Keyboard.State
import Patchbay.Proofs.Keyboard.Playing
import Patchbay.Proofs.Keyboard.States
import Patchbay.Proofs.Keyboard.Voices
/-!
# No note stays on

While a keyboard is played its keys change between the three states, and the gains of its voices
follow courses that reach far ahead of the clock. The two agree at every moment
(`Performance.Faithful`): the voices of a key that is held, or kept by the pedal, have been above
zero since the key was struck, and those of an idle key are at zero once they have faded after the
key was let go. An event changes the voices of some keys, each from whatever course it was on
(`Faithful.strike`, `Faithful.letGo`), and leaves all others alone, because no two voices share a
gain.
-/

namespace Patchbay

variable {α : Type}

/-! ## Playing -/

/-- What happens while a keyboard is played. -/
inductive Keyboard.Event (α : Type) where
  | down (code : String) (shift : Bool)
  | up (code : String) (shift : Bool)
  | sustain (on : Bool)
  | advanceTo (time : α)
  | advanceBy (seconds : α)

/-- What last became of a key: it was struck, or it was let go. -/
inductive Touch (α : Type) where
  | never
  | struck (time : α)
  | released (time : α)

/-- A key that becomes held is struck, and one that becomes idle is let go. -/
def Touch.next (touch : Touch α) (now : α) (before after : KeyState) : Touch α :=
  if after = before then touch
  else
    match after with
    | .held => .struck now
    | .idle => .released now
    | .deferred => touch

@[simp]
theorem Touch.next_self (touch : Touch α) (now : α) (state : KeyState) :
    touch.next now state state = touch := if_pos rfl

/-- A keyboard that is played on a rack, and when its keys were last touched. -/
structure Performance (α : Type) where
  keyboard : Keyboard α
  rack : Rack α
  touched : Key → Touch α

/-- The course of a voice fits the state of its key. A voice that was never played is at zero. When
its key was let go it is at zero as soon as it has faded. Otherwise it has been above zero since its
key was struck. -/
def Timeline.Fits [Scalar α] (tl : Timeline α) (profile : Profile α) : KeyState → Touch α → Prop
  | .idle, .never => ∀ t, tl.valueAt t = (0.0 : α)
  | .idle, .released r => ∀ t, r + profile.releaseLength ≤ t → tl.valueAt t = (0.0 : α)
  | .held, .struck s | .deferred, .struck s => ∀ t, s ≤ t → (0.0 : α) < tl.valueAt t
  | _, _ => False

namespace Performance

variable [Scalar α]

/-- All keys are up. -/
def begun (voicing : Voicing α) (rack : Rack α) : Performance α :=
  ⟨.withVoicing voicing, rack, fun _ => .never⟩

/-- What an event makes of the keyboard and the rack. -/
def outcome (p : Performance α) : Keyboard.Event α → Keyboard α × Rack α
  | .down code shift => (p.keyboard.down p.rack code shift).2
  | .up code shift => p.keyboard.up p.rack code shift
  | .sustain on => p.keyboard.setSustain p.rack on
  | .advanceTo time => (p.keyboard, p.rack.advanceTo time)
  | .advanceBy seconds => (p.keyboard, p.rack.advanceBy seconds)

/-- The keys whose states have changed were touched now. -/
def moved (p : Performance α) (after : Keyboard α × Rack α) : Performance α where
  keyboard := after.1
  rack := after.2
  touched key := (p.touched key).next p.rack.clock (p.keyboard.states key) (after.1.states key)

def step (p : Performance α) (event : Keyboard.Event α) : Performance α := p.moved (p.outcome event)

def run (p : Performance α) (events : List (Keyboard.Event α)) : Performance α :=
  events.foldl step p

end Performance

/-! ## Courses and states -/

namespace Performance

open Scalar (Exact)

/-- The gains are on courses that fit the states of the keys. -/
structure Faithful [Scalar α] (p : Performance α) : Prop where
  distinct : (p.keyboard.voicing.bindings.map (·.2.gain)).Nodup
  profiles : ∀ b ∈ p.keyboard.voicing.bindings,
    (p.keyboard.voicing.profileAt b.2.profile).fault? = none
  fits : ∀ key, ∀ voice ∈ p.keyboard.voicing.voicesOf key,
    ∃ tl, p.rack.timeline? voice.gain = some tl ∧
      tl.Fits (p.keyboard.voicing.profileAt voice.profile) (p.keyboard.states key) (p.touched key)

namespace Faithful

variable [Scalar α] {p : Performance α}

theorem begun {voicing : Voicing α} {rack : Rack α} (h : voicing.Fresh rack)
    (hprofiles : ∀ profile ∈ voicing.profiles, profile.fault? = none) :
    (begun voicing rack).Faithful where
  distinct := h.distinct
  profiles b hb := by
    show (voicing.profileAt b.2.profile).fault? = none
    unfold Voicing.profileAt
    rw [List.getElem?_eq_getElem (h.profiled b hb)]
    exact hprofiles _ (List.getElem_mem _)
  fits key voice hvoice := by
    refine ⟨_, h.closed _ (Voicing.mem_voicesOf.mp hvoice), fun t => ?_⟩
    rfl

/-- Of the keyboard only the voicing and the states count, and of the rack only the courses. -/
theorem congr (h : p.Faithful) {p' : Performance α}
    (hvoicing : p'.keyboard.voicing = p.keyboard.voicing)
    (hstates : p'.keyboard.states = p.keyboard.states) (htouched : p'.touched = p.touched)
    (hrack : p'.rack.primitives = p.rack.primitives) : p'.Faithful where
  distinct := hvoicing ▸ h.distinct
  profiles := hvoicing ▸ h.profiles
  fits := by
    rw [hvoicing, hstates, htouched]
    unfold Rack.timeline? Rack.primitive?
    rw [hrack]
    exact h.fits

/-- A key gets another state, and its voices are on courses that fit it. -/
theorem change (h : p.Faithful) {key : Key} {state : KeyState} {touch : Touch α} {rack : Rack α}
    (hothers : ∀ dial ∉ (p.keyboard.voicing.voicesOf key).map (·.gain),
      rack.timeline? dial = p.rack.timeline? dial)
    (hown : ∀ voice ∈ p.keyboard.voicing.voicesOf key, ∃ tl, rack.timeline? voice.gain = some tl ∧
      tl.Fits (p.keyboard.voicing.profileAt voice.profile) state touch) :
    Faithful ⟨p.keyboard.setState key state, rack, Function.update p.touched key touch⟩ where
  distinct := h.distinct
  profiles := h.profiles
  fits other voice hvoice := by
    have hvoice : voice ∈ p.keyboard.voicing.voicesOf other := hvoice
    by_cases hkey : other = key
    · subst hkey
      obtain ⟨tl, htl, hfits⟩ := hown voice hvoice
      refine ⟨tl, htl, ?_⟩
      simpa [Keyboard.setState] using hfits
    · obtain ⟨tl, htl, hfits⟩ := h.fits other voice hvoice
      refine ⟨tl, (hothers _ fun hmem => ?_).trans htl, ?_⟩
      · obtain ⟨own, hown, hgain⟩ := List.mem_map.mp hmem
        exact Voicing.gain_ne h.distinct hown hvoice (Ne.symm hkey) hgain
      · simpa [Keyboard.setState, hkey] using hfits

/-- The voices of a key are played from whatever courses they are on. -/
theorem play (h : p.Faithful) {key : Key} {state : KeyState} {touch : Touch α}
    {cues : Profile α → α → α → List (Cue α)}
    (hcues : ∀ profile : Profile α, profile.fault? = none → ∀ tl : Timeline α,
      (tl.play p.rack.clock (cues profile p.rack.clock (tl.valueAt p.rack.clock))).Fits profile
        state touch) :
    Faithful ⟨p.keyboard.setState key state, p.keyboard.onVoices cues key p.rack,
      Function.update p.touched key touch⟩ := by
  refine h.change (fun dial hdial => Voicing.timeline?_play_of_notMem hdial cues p.rack)
    fun voice hvoice => ?_
  obtain ⟨tl, htl, -⟩ := h.fits key voice hvoice
  exact ⟨_, Voicing.timeline?_play_of_nodup (Voicing.nodup_gains h.distinct key) hvoice cues htl,
    hcues _ (h.profiles _ (Voicing.mem_voicesOf.mp hvoice)) tl⟩

/-- A key that is held is kept by the pedal. -/
theorem defer (h : p.Faithful) {key : Key} (hheld : p.keyboard.states key = .held) :
    Faithful ⟨p.keyboard.setState key .deferred, p.rack, p.touched⟩ := by
  have hsame : p.touched = Function.update p.touched key (p.touched key) :=
    (Function.update_eq_self key p.touched).symm
  rw [hsame]
  refine h.change (fun _ _ => rfl) fun voice hvoice => ?_
  obtain ⟨tl, htl, hfits⟩ := h.fits key voice hvoice
  rw [hheld] at hfits
  refine ⟨tl, htl, ?_⟩
  cases htouch : p.touched key with
  | struck s =>
    rw [htouch] at hfits
    exact hfits
  | never | released r =>
    rw [htouch] at hfits
    exact hfits

variable [Exact α]

/-- A key is struck. -/
theorem strike (h : p.Faithful) (key : Key) :
    Faithful ⟨p.keyboard.setState key .held, p.keyboard.onVoices Envelope.attack key p.rack,
      Function.update p.touched key (.struck p.rack.clock)⟩ :=
  h.play fun _ hprofile tl _ ht => Envelope.valueAt_attack_pos hprofile tl ht

/-- A key is let go. -/
theorem letGo (h : p.Faithful) (key : Key) :
    Faithful ⟨p.keyboard.setState key .idle, p.keyboard.onVoices Envelope.release key p.rack,
      Function.update p.touched key (.released p.rack.clock)⟩ :=
  h.play fun _ hprofile tl _ ht => Envelope.valueAt_release hprofile tl _ ht

/-- Several keys are let go. -/
theorem letGoAll (h : p.Faithful) (keys : List Key) :
    Faithful ⟨(p.keyboard.letGoAll p.rack keys).1, (p.keyboard.letGoAll p.rack keys).2,
      fun key => if key ∈ keys then .released p.rack.clock else p.touched key⟩ := by
  induction keys generalizing p with
  | nil => exact h
  | cons key keys ih =>
    have hrest := ih (h.letGo key)
    have hclock : (p.keyboard.onVoices Envelope.release key p.rack).clock = p.rack.clock :=
      p.keyboard.voicing.clock_play Envelope.release _ p.rack
    refine hrest.congr rfl rfl ?_ rfl
    funext other
    by_cases hmem : other ∈ keys
    · simp [hmem, hclock]
    · by_cases hkey : other = key
      · simp [hkey, hclock]
      · simp [hmem, hkey]

end Faithful

/-! ## Events -/

/-- One key gets another state. -/
theorem touched_moved_setState (p : Performance α) (key : Key) {state : KeyState}
    (hstate : state ≠ p.keyboard.states key) (rack : Rack α) :
    (p.moved (p.keyboard.setState key state, rack)).touched = Function.update p.touched key
      ((p.touched key).next p.rack.clock (p.keyboard.states key) state) := by
  funext other
  by_cases hkey : other = key
  · subst hkey
    simp [moved, Keyboard.setState]
  · simp [moved, Keyboard.setState, hkey]

namespace Faithful

variable [Scalar α] [Exact α] {p : Performance α}

/-- The pedal goes down or up. -/
theorem setSustain (h : p.Faithful) (on : Bool) :
    (p.moved (p.keyboard.setSustain p.rack on)).Faithful := by
  unfold Keyboard.setSustain
  cases on with
  | true => exact h.congr rfl rfl (funext fun key => Touch.next_self _ _ _) rfl
  | false =>
    let pedal : Performance α := { p with keyboard := { p.keyboard with sustaining := false } }
    have hpedal : pedal.Faithful := h.congr rfl rfl rfl rfl
    refine (hpedal.letGoAll pedal.keyboard.deferredKeys).congr rfl rfl ?_ rfl
    funext key
    -- the keys that become idle are those that only the pedal kept
    have hmem : key ∈ pedal.keyboard.deferredKeys ↔ p.keyboard.states key = .deferred :=
      Keyboard.mem_deferredKeys
    show (p.touched key).next p.rack.clock (p.keyboard.states key)
      ((pedal.keyboard.letGoAll p.rack pedal.keyboard.deferredKeys).1.states key) =
        if key ∈ pedal.keyboard.deferredKeys then .released p.rack.clock else p.touched key
    rw [Keyboard.states_letGoAll]
    by_cases hdeferred : p.keyboard.states key = .deferred
    · rw [if_pos (hmem.mpr hdeferred), if_pos (hmem.mpr hdeferred), hdeferred]
      rfl
    · rw [if_neg (mt hmem.mp hdeferred), if_neg (mt hmem.mp hdeferred)]
      exact Touch.next_self _ _ _

theorem down (h : p.Faithful) (code : String) (shift : Bool) :
    (p.moved (p.keyboard.down p.rack code shift).2).Faithful := by
  unfold Keyboard.down
  split
  next key hkey =>
    have hstate : KeyState.held ≠ p.keyboard.states key :=
      (of_decide_eq_true (Option.filter_eq_some_iff.mp hkey).2).symm
    refine (h.strike key).congr rfl rfl ?_ rfl
    rw [touched_moved_setState p key hstate, Touch.next, if_neg hstate]
  next => exact h.congr rfl rfl (funext fun key => Touch.next_self _ _ _) rfl

theorem up (h : p.Faithful) (code : String) (shift : Bool) :
    (p.moved (p.keyboard.up p.rack code shift)).Faithful := by
  unfold Keyboard.up
  split
  next key hkey =>
    have hheld : p.keyboard.states key = .held :=
      of_decide_eq_true (Option.filter_eq_some_iff.mp hkey).2
    split
    next =>
      have hstate : KeyState.deferred ≠ p.keyboard.states key := by
        rw [hheld]
        nofun
      refine (h.defer hheld).congr rfl rfl ?_ rfl
      rw [touched_moved_setState p key hstate, Touch.next, if_neg hstate]
      exact Function.update_eq_self key p.touched
    next =>
      have hstate : KeyState.idle ≠ p.keyboard.states key := by
        rw [hheld]
        nofun
      refine (h.letGo key).congr rfl rfl ?_ rfl
      unfold Keyboard.letGo
      rw [touched_moved_setState p key hstate, Touch.next, if_neg hstate]
  next =>
    split
    next => exact h.congr rfl rfl (funext fun key => Touch.next_self _ _ _) rfl
    next => exact h.setSustain false

/-- Whatever happens, courses and states agree afterwards. -/
theorem step (h : p.Faithful) (event : Keyboard.Event α) : (p.step event).Faithful := by
  have hidle : ∀ after : Keyboard α × Rack α, after.1 = p.keyboard →
      after.2.primitives = p.rack.primitives → (p.moved after).Faithful := by
    rintro ⟨kb, rack⟩ rfl hrack
    exact h.congr rfl rfl (funext fun key => Touch.next_self _ _ _) hrack
  cases event with
  | down code shift => exact h.down code shift
  | up code shift => exact h.up code shift
  | sustain on => exact h.setSustain on
  | advanceTo time => exact hidle _ rfl rfl
  | advanceBy seconds => exact hidle _ rfl rfl

theorem run (h : p.Faithful) (events : List (Keyboard.Event α)) : (p.run events).Faithful := by
  induction events generalizing p with
  | nil => exact h
  | cons event events ih => exact ih (h.step event)

omit [Exact α] in
/-- What holds of a voice whose course fits the state of its key. -/
theorem heard (h : p.Faithful) {key : Key} {voice : Voice}
    (hvoice : voice ∈ p.keyboard.voicing.voicesOf key) :
    (p.keyboard.states key = .idle →
      (p.touched key = .never ∧ ∀ t, p.rack.valueAt voice.gain t = (0.0 : α)) ∨
      ∃ r, p.touched key = .released r ∧
        ∀ t, r + (p.keyboard.voicing.profileAt voice.profile).releaseLength ≤ t →
          p.rack.valueAt voice.gain t = (0.0 : α)) ∧
    (p.keyboard.states key ≠ .idle →
      ∃ s, p.touched key = .struck s ∧ ∀ t, s ≤ t → (0.0 : α) < p.rack.valueAt voice.gain t) := by
  obtain ⟨tl, htl, hfits⟩ := h.fits key voice hvoice
  have hvalue : p.rack.valueAt voice.gain = tl.valueAt :=
    funext fun t => Rack.valueAt_of_timeline? htl t
  rw [hvalue]
  cases hstate : p.keyboard.states key <;> cases htouch : p.touched key <;>
    rw [hstate, htouch] at hfits
  -- the state and the last touch that fit each other
  case idle.never => exact ⟨fun _ => .inl ⟨rfl, hfits⟩, fun hne => absurd rfl hne⟩
  case idle.released r => exact ⟨fun _ => .inr ⟨r, rfl, hfits⟩, fun hne => absurd rfl hne⟩
  case held.struck s | deferred.struck s =>
    refine ⟨fun hidle => ?_, fun _ => ⟨s, rfl, hfits⟩⟩
    cases hidle
  all_goals exact hfits.elim

end Faithful

/-- The voices stay the same. -/
theorem voicing_run [Scalar α] (p : Performance α) (events : List (Keyboard.Event α)) :
    (p.run events).keyboard.voicing = p.keyboard.voicing := by
  induction events generalizing p with
  | nil => rfl
  | cons event events ih =>
    refine (ih (p.step event)).trans ?_
    show (p.outcome event).1.voicing = p.keyboard.voicing
    cases event with
    | down code shift => exact Keyboard.voicing_down _ _ code shift
    | up code shift => exact Keyboard.voicing_up _ _ code shift
    | sustain on => exact Keyboard.voicing_setSustain _ _ on
    | advanceTo time => rfl
    | advanceBy seconds => rfl

end Performance

/-- No note stays on, and none breaks off. When a graph was built and its keyboard is played in any
way, then at any moment every voice of a key that is not idle has been above zero since the key was
last struck, and stays so. A voice of an idle key was never touched and is at zero, or its key was
let go and it is at zero from the time on at which it has faded. A key with voices is held when it
goes down, and idle when it goes up and then the pedal. -/
theorem Graph.voices_of_run [Scalar α] [Scalar.Exact α] {g : Graph α} {master : PrimitiveId}
    {noise : Noise.Source α} {rack : Rack α} {patch : Patch α}
    (h : (g.build master noise rack .empty).outcome = .ok patch)
    (hprofiles : ∀ profile ∈ (g.build master noise rack .empty).voicing.profiles,
      profile.fault? = none) (events : List (Keyboard.Event α)) :
    let built := g.build master noise rack .empty
    let p := (Performance.begun built.voicing built.rack).run events
    ∀ key, ∀ voice ∈ built.voicing.voicesOf key,
      (p.keyboard.states key = .idle →
        (p.touched key = .never ∧ ∀ t, p.rack.valueAt voice.gain t = (0.0 : α)) ∨
        ∃ r, p.touched key = .released r ∧
          ∀ t, r + (built.voicing.profileAt voice.profile).releaseLength ≤ t →
            p.rack.valueAt voice.gain t = (0.0 : α)) ∧
      (p.keyboard.states key ≠ .idle →
        ∃ s, p.touched key = .struck s ∧ ∀ t, s ≤ t → (0.0 : α) < p.rack.valueAt voice.gain t) ∧
      ∀ shift, (p.step (.down key.code shift)).keyboard.states key = .held ∧
        ((p.step (.up key.code shift)).step (.sustain false)).keyboard.states key = .idle := by
  intro built p key voice hvoice
  have hfaithful : p.Faithful :=
    (Performance.Faithful.begun (Graph.fresh_of_build h) hprofiles).run events
  have hvoicing : p.keyboard.voicing = built.voicing := Performance.voicing_run _ events
  rw [← hvoicing] at hvoice ⊢
  obtain ⟨hidle, hheard⟩ := hfaithful.heard hvoice
  have hplayable : p.keyboard.voicing.voicesOf key ≠ [] := List.ne_nil_of_mem hvoice
  exact ⟨hidle, hheard, fun shift => ⟨Keyboard.states_down_code hplayable p.rack shift,
    Keyboard.states_up_sustain hplayable p.rack _ shift⟩⟩

namespace Performance

/-- A key that is heard. -/
noncomputable def keyed : BuildResult Reals :=
  (Graph.empty.run [.addNode .keyboardAdsr, .addNode .audioOutput,
    .connect ⟨"n1", "signal", "n2", "signal"⟩]).build 0 ⟨2.0, 1⟩ (.new 48000.0) .empty

/-- The key is struck again while it fades, kept by the pedal, and let go with the pedal. -/
noncomputable def restruck : Performance Reals :=
  (begun keyed.voicing keyed.rack).run
    [.down "KeyA" false, .advanceBy 1.0, .up "KeyA" false, .down "KeyA" false, .sustain true,
      .up "KeyA" true, .advanceTo 3.0, .up "ShiftLeft" false]

theorem voices_of_restruck : ∃ r, restruck.touched .a = .released r ∧
    ∀ t, r + 1.0 ≤ t → restruck.rack.valueAt ⟨0, .gain⟩ t = (0.0 : Reals) := by
  have hbuilt : keyed.outcome.toOption.isSome = true := by decide +kernel
  obtain ⟨patch, hpatch⟩ : ∃ patch, keyed.outcome = .ok patch := by
    cases houtcome : keyed.outcome with
    | ok patch => exact ⟨patch, rfl⟩
    | error fault =>
      rw [houtcome] at hbuilt
      cases hbuilt
  have hvoicing : keyed.voicing = ⟨[.standard], [(.a, ⟨⟨0, .gain⟩, 0⟩)]⟩ := rfl
  have hstandard : ∀ profile ∈ keyed.voicing.profiles, profile.fault? = none := by
    rw [hvoicing]
    simp only [List.mem_singleton, forall_eq]
    exact Profile.fault?_standard
  have hvoice : (⟨⟨0, .gain⟩, 0⟩ : Voice) ∈ keyed.voicing.voicesOf .a := by
    rw [hvoicing]
    exact List.mem_singleton_self _
  have hidle : restruck.keyboard.states .a = .idle := by decide +kernel
  have hreleased : (restruck.touched .a).ctorIdx = 2 := by decide +kernel
  obtain ⟨hwhenIdle, -⟩ := Graph.voices_of_run hpatch hstandard [.down "KeyA" false, .advanceBy 1.0,
    .up "KeyA" false, .down "KeyA" false, .sustain true, .up "KeyA" true, .advanceTo 3.0,
    .up "ShiftLeft" false] .a _ hvoice
  rcases hwhenIdle hidle with ⟨hnever, -⟩ | hfaded
  · have hnever : restruck.touched .a = .never := hnever
    rw [hnever] at hreleased
    cases hreleased
  · exact hfaded

end Performance

end Patchbay
