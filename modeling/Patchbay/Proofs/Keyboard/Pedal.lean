import Patchbay.Proofs.Keyboard.Notes
/-!
# The pedal, in any order

When the pedal goes up, the keys that only it kept are let go one after another. Which of them comes
first does not matter (`Keyboard.pedal_of_perm`): what is scheduled for one parameter and what is
scheduled for another may change places (`Envelope.schedule_comm`), and in the voices of a graph no
two keys have a gain in common, whether it could be built or not (`Graph.nodup_gains_of_build`).
-/

namespace Patchbay

variable {α : Type}

/-! ## Changing places -/

/-- Two parameters of a primitive are automated on their own. -/
theorem Primitive.mapTimeline_comm (p : Primitive α) {param other : Param} (h : param ≠ other)
    (f g : Timeline α → Timeline α) :
    (p.mapTimeline param f).mapTimeline other g = (p.mapTimeline other g).mapTimeline param f := by
  unfold mapTimeline
  simp only [List.map_map]
  congr 1
  refine List.map_congr_left fun entry _ => ?_
  by_cases hparam : entry.1 = param
  · have hother : ¬entry.1 = other := fun heq => h (hparam.symm.trans heq)
    simp [hparam, h]
  · simp [hparam]

/-- Two primitives are changed on their own, and one primitive in two ways that do not interfere. -/
theorem Rack.update_comm (rack : Rack α) {id other : PrimitiveId} {f g : Primitive α → Primitive α}
    (h : id = other → ∀ p, g (f p) = f (g p)) :
    (rack.update id f).update other g = (rack.update other g).update id f := by
  refine congrArg (fun primitives => { rack with primitives }) (Array.ext_getElem? fun i => ?_)
  simp only [update, Array.getElem?_modify]
  by_cases hid : id = i
  · by_cases hother : other = i
    · simp [hid, hother, Function.comp_def, h (hid.trans hother.symm)]
    · simp [hid, hother]
  · simp [hid]

variable [Scalar α]

/-- Cues for two parameters. -/
theorem Rack.schedule_comm (rack : Rack α) {dial other : Dial} (h : dial ≠ other)
    (cue cue' : Cue α) :
    (rack.schedule dial cue).schedule other cue' =
      (rack.schedule other cue').schedule dial cue := by
  refine rack.update_comm fun hprimitive p => ?_
  have hparam : dial.param ≠ other.param := fun hparam => h (by
    cases dial
    cases other
    exact congr (congrArg Dial.mk hprimitive) hparam)
  exact p.mapTimeline_comm hparam _ _

namespace Envelope

variable {cues cues' : α → α → List (Cue α)} {rack : Rack α} {dial other : Dial}

theorem valueNow_schedule_of_ne (h : other ≠ dial) :
    (schedule cues rack dial).valueNow other = rack.valueNow other := by
  have hcourse : (schedule cues rack dial).timeline? other = rack.timeline? other :=
    timeline?_schedule_of_ne h
  unfold Rack.timeline? at hcourse
  unfold Rack.valueNow Rack.valueAt
  rw [hcourse, clock_schedule]

/-- All cues of one parameter pass all cues of another. -/
theorem foldl_schedule_comm (h : dial ≠ other) (l l' : List (Cue α)) (rack : Rack α) :
    l'.foldl (fun rack cue => rack.schedule other cue)
        (l.foldl (fun rack cue => rack.schedule dial cue) rack) =
      l.foldl (fun rack cue => rack.schedule dial cue)
        (l'.foldl (fun rack cue => rack.schedule other cue) rack) := by
  have hone : ∀ (rack : Rack α) (cue' : Cue α),
      (l.foldl (fun rack cue => rack.schedule dial cue) rack).schedule other cue' =
        l.foldl (fun rack cue => rack.schedule dial cue) (rack.schedule other cue') :=
    fun rack cue' => (List.foldl_hom (fun rack : Rack α => rack.schedule other cue')
      fun rack cue => (rack.schedule_comm h cue cue').symm).symm
  induction l' generalizing rack with
  | nil => rfl
  | cons cue' l' ih =>
    rw [List.foldl_cons, hone]
    exact ih (rack.schedule other cue')

/-- Envelopes of two parameters. Each takes its parameter up where it is, whatever becomes of the
other. -/
theorem schedule_comm (h : dial ≠ other) :
    schedule cues' (schedule cues rack dial) other =
      schedule cues (schedule cues' rack other) dial := by
  have hcues : cues' (schedule cues rack dial).clock ((schedule cues rack dial).valueNow other) =
      cues' rack.clock (rack.valueNow other) := by
    rw [clock_schedule, valueNow_schedule_of_ne h.symm]
  have hcues' : cues (schedule cues' rack other).clock ((schedule cues' rack other).valueNow dial) =
      cues rack.clock (rack.valueNow dial) := by
    rw [clock_schedule, valueNow_schedule_of_ne h]
  unfold schedule at hcues hcues' ⊢
  rw [hcues, hcues']
  exact foldl_schedule_comm h _ _ rack

end Envelope

/-! ## Voices -/

namespace Voicing

variable {v : Voicing α}

/-- Voices whose gains are all different may be played in any order. -/
theorem play_of_perm (hgains : (v.bindings.map (·.2.gain)).Nodup) {voices voices' : List Voice}
    (h : voices.Perm voices') (hbound : ∀ voice ∈ voices, ∃ key, (key, voice) ∈ v.bindings)
    (cues : Profile α → α → α → List (Cue α)) (rack : Rack α) :
    v.play cues voices rack = v.play cues voices' rack := by
  refine h.foldl_eq' (fun voice hvoice voice' hvoice' rack => ?_) rack
  by_cases hgain : voice.gain = voice'.gain
  · obtain ⟨key, hkey⟩ := hbound voice hvoice
    obtain ⟨key', hkey'⟩ := hbound voice' hvoice'
    have hsame : ((key, voice) : Key × Voice) = (key', voice') :=
      List.inj_on_of_nodup_map hgains hkey hkey' hgain
    rw [(Prod.mk.inj hsame).2]
  · exact Envelope.schedule_comm hgain

end Voicing

/-! ## Letting keys go -/

namespace Keyboard

/-- The pedal goes down or up. When it goes up, keys are let go in a given order. -/
def sustainIn (kb : Keyboard α) (order : List Key) (rack : Rack α) (on : Bool) :
    Keyboard α × Rack α :=
  let pedal := { kb with sustaining := on }
  if on then (pedal, rack) else pedal.letGoAll rack order

/-- A key goes up. Where that is taken as the pedal going up, keys are let go in a given order. -/
def upIn (kb : Keyboard α) (order : List Key) (rack : Rack α) (code : String) (shift : Bool) :
    Keyboard α × Rack α :=
  match (kb.playable? code).filter (kb.states · = .held) with
  | some key =>
    if kb.sustaining then (kb.setState key .deferred, rack) else kb.letGo rack key
  | none => if shift then (kb, rack) else kb.sustainIn order rack false

theorem sustainIn_deferredKeys (kb : Keyboard α) (rack : Rack α) (on : Bool) :
    kb.sustainIn kb.deferredKeys rack on = kb.setSustain rack on := rfl

theorem upIn_deferredKeys (kb : Keyboard α) (rack : Rack α) (code : String) (shift : Bool) :
    kb.upIn kb.deferredKeys rack code shift = kb.up rack code shift := rfl

/-- Keys that are let go become idle, and their voices are closed, one key after another. -/
theorem letGoAll_eq (kb : Keyboard α) (rack : Rack α) (keys : List Key) :
    kb.letGoAll rack keys =
      ({ kb with states := fun key => if key ∈ keys then .idle else kb.states key },
        kb.voicing.play Envelope.release (keys.flatMap kb.voicing.voicesOf) rack) := by
  refine Prod.ext (kb.keyboard_letGoAll rack keys) ?_
  unfold letGoAll
  induction keys generalizing kb rack with
  | nil => rfl
  | cons key keys ih =>
    rw [List.flatMap_cons, Voicing.play, List.foldl_append]
    exact ih (kb.letGo rack key).1 (kb.letGo rack key).2

/-- Keys whose voices have no gain in common may be let go in any order. -/
theorem letGoAll_of_perm (kb : Keyboard α)
    (hgains : (kb.voicing.bindings.map (·.2.gain)).Nodup) {keys keys' : List Key}
    (h : keys.Perm keys') (rack : Rack α) :
    kb.letGoAll rack keys = kb.letGoAll rack keys' := by
  rw [letGoAll_eq, letGoAll_eq]
  have hstates : (fun key => if key ∈ keys then .idle else kb.states key) =
      fun key => if key ∈ keys' then .idle else kb.states key := by
    simp only [h.mem_iff]
  have hbound : ∀ voice ∈ keys.flatMap kb.voicing.voicesOf, ∃ key,
      (key, voice) ∈ kb.voicing.bindings := by
    intro voice hvoice
    obtain ⟨key, -, hkey⟩ := List.mem_flatMap.mp hvoice
    exact ⟨key, Voicing.mem_voicesOf.mp hkey⟩
  rw [hstates, Voicing.play_of_perm hgains (h.flatMap_right _) hbound]

/-- A keyboard has the voices of a graph that was built on any rack, whether that went well or not.
In whatever state it is and on whatever rack it is played: when the pedal goes up, or a key that is
taken for it, the keys that only the pedal kept may be let go in any two orders, and the keyboard
and the whole rack end up the same. -/
theorem pedal_of_perm {g : Graph α} {master : PrimitiveId} {noise : Noise.Source α}
    {base : Rack α} {kb : Keyboard α}
    (hvoicing : kb.voicing = (g.build master noise base .empty).voicing) {order order' : List Key}
    (horder : order.Perm kb.deferredKeys) (horder' : order'.Perm kb.deferredKeys) (rack : Rack α) :
    (∀ on, kb.sustainIn order rack on = kb.sustainIn order' rack on) ∧
    ∀ code shift, kb.upIn order rack code shift = kb.upIn order' rack code shift := by
  have hperm : order.Perm order' := horder.trans horder'.symm
  have hgains : (kb.voicing.bindings.map (·.2.gain)).Nodup := by
    rw [hvoicing]
    exact Graph.nodup_gains_of_build
  have hsustain : ∀ on, kb.sustainIn order rack on = kb.sustainIn order' rack on := by
    intro on
    cases on with
    | true => rfl
    | false => exact letGoAll_of_perm { kb with sustaining := false } hgains hperm rack
  refine ⟨hsustain, fun code shift => ?_⟩
  unfold upIn
  rw [hsustain false]

/-- The notes of a chord were struck and are kept by the pedal. -/
noncomputable def chord : Keyboard Reals × Rack Reals :=
  let built := (Graph.empty.run [.addNode .keyboardNote, .addNode .audioOutput,
    .connect ⟨"n1", "signal", "n2", "signal"⟩]).build 0 ⟨2.0, 1⟩ (.new 48000.0) .empty
  let played := (Performance.begun built.voicing built.rack).run
    [.down "KeyZ" false, .down "KeyC" false, .down "KeyB" false, .sustain true,
      .up "KeyZ" true, .up "KeyB" true, .up "KeyC" true, .advanceBy 0.5]
  (played.keyboard, played.rack)

theorem pedal_of_chord :
    chord.1.deferredKeys = [.b, .c, .z] ∧
    chord.1.upIn [.z, .b, .c] chord.2 "ShiftLeft" false =
      chord.1.upIn [.c, .z, .b] chord.2 "ShiftLeft" false := by
  have hkeys : chord.1.deferredKeys = [.b, .c, .z] := by decide +kernel
  have hvoicing : chord.1.voicing = ((Graph.empty.run [.addNode .keyboardNote,
      .addNode .audioOutput, .connect ⟨"n1", "signal", "n2", "signal"⟩]).build 0 ⟨2.0, 1⟩
        (.new (48000.0 : Reals)) .empty).voicing := Performance.voicing_run _ _
  refine ⟨hkeys, (pedal_of_perm hvoicing ?_ ?_ chord.2).2 "ShiftLeft" false⟩
  · rw [hkeys]
    decide
  · rw [hkeys]
    decide

end Keyboard

end Patchbay
