import Patchbay.Proofs.Patch.Frame
import Patchbay.Proofs.Patch.Places
import Patchbay.Proofs.Ramp
/-!
# What a node sounds like

The state of a primitive is what it was made as and the values of its parameters, whatever is
patched into them. For every node there is a description of the states of its primitives
(`Panel.states`), which depends on the panel and on the levels at which its sockets hold their
parameters, and one of its voices (`Panel.voices`). Building a node puts just these on a rack:
`states_of_blueprint`, `voicing_of_blueprint`.
-/

namespace Patchbay

variable {α : Type}

/-! ## States -/

/-- What a primitive was made as, and the values of its parameters. -/
structure Primitive.State (α : Type) where
  setup : Setup α
  levels : List (Param × α)

variable [Scalar α]

/-- A setup without the first values of parameters, which are levels, and without what is not
compared: the samples of a buffer and what an analyser shows. -/
def Setup.bare : Setup α → Setup α
  | .oscillator waveform _ => .oscillator waveform 440.0
  | .bufferSource _ looping => .bufferSource #[] looping
  | .constantSource _ => .constantSource 1.0
  | .gain _ => .gain 1.0
  | .analyser _ => .analyser .time
  | setup => setup

@[simp]
theorem Setup.family_bare (setup : Setup α) : setup.bare.family = setup.family := by
  cases setup <;> rfl

/-- The state of a new primitive. -/
def Setup.state (setup : Setup α) : Primitive.State α where
  setup := setup.bare
  levels := setup.timelines.map fun entry => (entry.1, entry.2.initial)

namespace Primitive

omit [Scalar α] in
/-- The state with a parameter at another level. -/
def State.set (state : State α) (param : Param) (v : α) : State α :=
  { state with
    levels := state.levels.map fun entry => (entry.1, if entry.1 = param then v else entry.2) }

/-- The state at a time. -/
def stateAt (p : Primitive α) (t : α) : State α where
  setup := p.setup.bare
  levels := p.timelines.map fun entry => (entry.1, entry.2.valueAt t)

theorem stateAt_new (setup : Setup α) (t : α) : (new setup).stateAt t = setup.state := by
  have hstarting : ∀ entry ∈ setup.timelines, entry.2.valueAt t = entry.2.initial := by
    intro entry hentry
    obtain ⟨param, -, hparam⟩ := List.mem_filterMap.mp hentry
    obtain ⟨value, -, rfl⟩ := Option.map_eq_some_iff.mp hparam
    rfl
  unfold stateAt Setup.state
  exact congrArg _ (List.map_congr_left fun entry hentry => by rw [hstarting entry hentry])

theorem stateAt_mapTimeline {p : Primitive α} {param : Param} {f : Timeline α → Timeline α}
    {t v : α} (hf : ∀ entry ∈ p.timelines, (f entry.2).valueAt t = v) :
    (p.mapTimeline param f).stateAt t = (p.stateAt t).set param v := by
  unfold stateAt State.set mapTimeline
  refine congrArg (State.mk p.setup.bare) ?_
  rw [List.map_map, List.map_map]
  refine List.map_congr_left fun entry hentry => ?_
  obtain ⟨own, tl⟩ := entry
  by_cases hown : own = param
  · simp [hown, hf _ hentry]
  · simp [hown]

/-- Nothing that was scheduled lies ahead of the clock or of a time. -/
def Settled (p : Primitive α) (clock t : α) : Prop :=
  ∀ entry ∈ p.timelines, ∀ point ∈ entry.2.points, ¬clock < point.time ∧ point.time ≤ t

variable {p : Primitive α} {clock t : α}

theorem settled_new (setup : Setup α) : (new setup).Settled clock t := by
  intro entry hentry point hpoint
  obtain ⟨param, -, hparam⟩ := List.mem_filterMap.mp hentry
  obtain ⟨value, -, rfl⟩ := Option.map_eq_some_iff.mp hparam
  cases hpoint

theorem Settled.points_set (h : p.Settled clock t) {entry : Param × Timeline α}
    (hentry : entry ∈ p.timelines) (v : α) :
    (entry.2.apply clock (.set v clock)).points = entry.2.points ++ [⟨.set, v, clock, clock⟩] :=
  Timeline.insertPoint_eq_append fun point hpoint => (h entry hentry point hpoint).1

/-- Setting a parameter sets its level from then on. -/
theorem Settled.stateAt_set (h : p.Settled clock t) (ht : clock ≤ t) (param : Param) (v : α) :
    (p.mapTimeline param (·.apply clock (.set v clock))).stateAt t = (p.stateAt t).set param v := by
  refine stateAt_mapTimeline fun entry hentry => ?_
  rw [Timeline.valueAt_of_past, Timeline.rest_of_append (h.points_set hentry v)]
  intro point hpoint
  rw [h.points_set hentry v] at hpoint
  rcases List.mem_append.mp hpoint with hpoint | hpoint
  · exact (h entry hentry point hpoint).2
  · rw [List.mem_singleton.mp hpoint]
    exact ht

theorem Settled.set (h : p.Settled clock t) (hclock : ¬clock < clock) (ht : clock ≤ t)
    (param : Param) (v : α) :
    (p.mapTimeline param (·.apply clock (.set v clock))).Settled clock t := by
  intro entry hentry point hpoint
  obtain ⟨⟨own, tl⟩, hold, rfl⟩ := List.mem_map.mp hentry
  dsimp only at hpoint
  by_cases hown : own = param
  · rw [if_pos hown, h.points_set hold v] at hpoint
    rcases List.mem_append.mp hpoint with hpoint | hpoint
    · exact h _ hold point hpoint
    · rw [List.mem_singleton.mp hpoint]
      exact ⟨hclock, ht⟩
  · rw [if_neg hown] at hpoint
    exact h _ hold point hpoint

end Primitive

/-- The states of all primitives at a time, in the order of their places. -/
def Rack.statesAt (rack : Rack α) (t : α) : List (Primitive.State α) :=
  rack.primitives.toList.map (·.stateAt t)

theorem Rack.statesAt_add (rack : Rack α) (setup : Setup α) (t : α) :
    (rack.add setup).statesAt t = rack.statesAt t ++ [setup.state] := by
  simp [statesAt, add, Primitive.stateAt_new]

theorem Rack.statesAt_update (rack : Rack α) (id : PrimitiveId) {f : Primitive α → Primitive α}
    {f' : Primitive.State α → Primitive.State α} {t : α}
    (hf : ∀ p, rack.primitive? id = some p → (f p).stateAt t = f' (p.stateAt t)) :
    (rack.update id f).statesAt t = (rack.statesAt t).modify id f' := by
  unfold statesAt update
  refine List.ext_getElem? fun i => ?_
  simp only [List.getElem?_map, Array.getElem?_toList, Array.getElem?_modify, List.getElem?_modify]
  split
  next heq =>
    subst heq
    cases hp : rack.primitives[id]? with
    | none => rfl
    | some p => exact congrArg some (hf p hp)
  next => simp

/-- What does not change the state of a primitive changes no states. -/
theorem Rack.statesAt_update_eq (rack : Rack α) (id : PrimitiveId)
    {f : Primitive α → Primitive α} {t : α}
    (hf : ∀ p : Primitive α, (f p).stateAt t = p.stateAt t) :
    (rack.update id f).statesAt t = rack.statesAt t :=
  (rack.statesAt_update id fun p _ => hf p).trans (List.modify_id _ _)

/-- The level of a parameter that nothing is patched into. -/
def Panel.inlineLevel (panel : Panel α) (socket : String) : α :=
  panel.number (((panel.kind.input? socket).bind (·.inline)).getD "")

/-- The states of the primitives of a node, its sockets holding the parameters that they drive at
given levels. -/
def Panel.states (panel : Panel α) (level : String → α) : List (Primitive.State α) :=
  let waveform := (Waveform.ofName? (panel.choice "waveform")).getD .sine
  let ratio := Pitch.ratio (panel.number "octave") (panel.number "halfstep")
  match panel.kind with
  | .constant => [(Setup.constantSource (panel.number "value")).state]
  | .oscillator => [(Setup.oscillator waveform (level "baseFrequency")).state]
  | .noise => [(Setup.bufferSource #[] true).state]
  | .noteFrequency =>
    [(Setup.constantSource
      (Pitch.noteFrequency (panel.number "note") (panel.number "octave"))).state]
  | .gain => [(Setup.gain (level "gain")).state]
  | .biquadFilter =>
    let response := (Response.ofName? (panel.choice "filterType")).getD .lowpass
    [(((Setup.biquadFilter response).state.set .frequency (level "frequency")).set .q
      (level "q")).set .gain (level "gain")]
  | .delay =>
    [(Setup.delay (Scalar.greatest (panel.number "maxDelay") 1.0)).state.set .delayTime
      (level "delayTime")]
  | .clip =>
    let amp : α := panel.number "amp"
    let corner (x : α) : Float32 := (Scalar.toFloat x).toFloat32
    [(Setup.gain ((1.0 : α) / amp)).state, (Setup.waveShaper [corner (-amp), corner amp]).state]
  | .dynamicsCompressor =>
    [Kind.compressorDials.foldl (fun state (control, param) =>
      state.set param (panel.number control)) Setup.dynamicsCompressor.state]
  | .transpose => [(Setup.gain ratio).state]
  | .keyboardNote =>
    (Setup.gain 1.0).state :: Key.pitches.flatMap fun (_, base) =>
      [(Setup.oscillator waveform (base * ratio)).state, (Setup.gain 0.0).state]
  | .keyboardAdsr => [(Setup.gain 0.0).state]
  | .audioOutput => []
  | .universalOutput =>
    [(Setup.gain (panel.number "gain")).state, (Setup.analyser .time).state,
      (Setup.analyser .time).state]
  | .timeVisualizer | .frequencyVisualizer | .consoleDebugger => [(Setup.analyser .time).state]

/-- The profiles that a node registers. -/
def Panel.profiles (panel : Panel α) : List (Profile α) :=
  match panel.kind with
  | .keyboardNote | .keyboardAdsr => [panel.profile "adsrProfile"]
  | _ => []

/-- The keys that play a node, each with the place of the gain that it opens. -/
def Panel.voices (panel : Panel α) : List (Key × Nat) :=
  match panel.kind with
  | .keyboardNote => (Key.pitches (α := α)).zipIdx.map fun ((key, _), i) => (key, 2 * i + 2)
  | .keyboardAdsr => (Key.ofCode? (panel.choice "keyCode")).toList.map (·, 0)
  | _ => []

/-- The voices of a node that begins at a place, with the place of its profile. -/
def Panel.bindings (panel : Panel α) (first : PrimitiveId) (profile : Nat) : List (Key × Voice) :=
  panel.voices.map fun (key, i) => (key, ⟨⟨first + i, .gain⟩, profile⟩)

/-! ## Building -/

namespace Step

/-- What a step does to the states of the primitives. -/
def shape (states : List (Primitive.State α)) : Step α → List (Primitive.State α)
  | .create setup => states ++ [setup.state]
  | .setValue dial v => states.modify dial.primitive (·.set dial.param v)
  | _ => states

omit [Scalar α] in
/-- What a step does to the voices. -/
def sing (voicing : Voicing α) : Step α → Voicing α
  | .register profile => voicing.register profile
  | .bind key voice => voicing.bind key voice
  | _ => voicing

theorem shape_connects (states : List (Primitive.State α)) (sources : List PrimitiveId)
    (inlet : Inlet) :
    (sources.map fun source => (connect source inlet : Step α)).foldl shape states = states := by
  induction sources with
  | nil => rfl
  | cons source sources ih => exact ih

theorem shape_patch (states : List (Primitive.State α)) (sources : List PrimitiveId)
    (into : PrimitiveId) : (patch sources into : List (Step α)).foldl shape states = states :=
  shape_connects states sources _

omit [Scalar α] in
theorem sing_connects (voicing : Voicing α) (sources : List PrimitiveId) (inlet : Inlet) :
    (sources.map fun source => (connect source inlet : Step α)).foldl sing voicing = voicing := by
  induction sources with
  | nil => rfl
  | cons source sources ih => exact ih

omit [Scalar α] in
theorem sing_patch (voicing : Voicing α) (sources : List PrimitiveId) (into : PrimitiveId) :
    (patch sources into : List (Step α)).foldl sing voicing = voicing :=
  sing_connects voicing sources _

end Step

/-- A socket with an inline value sets its parameter: to the value, or to zero when something is
patched in. -/
theorem Socket.shape_drive {s : Socket} (hs : s.combine.replaces = true) (hinline : s.inline.isSome)
    (states : List (Primitive.State α)) (dial : Dial) (v : α) (sources : List PrimitiveId) :
    (s.drive dial v sources).foldl Step.shape states =
      states.modify dial.primitive (·.set dial.param (if sources.isEmpty then v else 0.0)) := by
  unfold drive
  by_cases hempty : sources.isEmpty
  · simp [hempty, hinline, Step.shape]
  · have hcombine : s.combine = .override ∨ s.combine = .additive := by
      revert hs
      cases s.combine <;> simp [Combine.replaces]
    rcases hcombine with hcombine | hcombine <;>
      simp [hempty, hcombine, Step.shape, Step.shape_connects]

/-- A socket that adds onto a value leaves the value. -/
theorem Socket.shape_drive_modulate {s : Socket} (hs : s.combine = .modulate)
    (hinline : s.inline = none) (states : List (Primitive.State α)) (dial : Dial) (v : α)
    (sources : List PrimitiveId) : (s.drive dial v sources).foldl Step.shape states = states := by
  unfold drive
  by_cases hempty : sources.isEmpty
  · simp [hempty, hinline]
  · simp [hempty, hs, Step.shape_connects]

theorem Socket.sing_drive (s : Socket) (voicing : Voicing α) (dial : Dial) (v : α)
    (sources : List PrimitiveId) : (s.drive dial v sources).foldl Step.sing voicing = voicing := by
  unfold drive
  by_cases hempty : sources.isEmpty
  · cases s.inline <;> simp [hempty, Step.sing]
  · cases s.combine <;> simp [hempty, Step.sing, Step.sing_connects, Step.sing_patch]

/-! ## Blueprints -/

theorem Setup.state_oscillator_set (waveform : Waveform) (x v : α) :
    (Setup.oscillator waveform x).state.set .frequency v = (Setup.oscillator waveform v).state :=
  rfl

theorem Setup.state_gain_set (x v : α) :
    (Setup.gain x).state.set .gain v = (Setup.gain v).state := rfl

namespace Kind

/-- Where sources are patched into a socket its parameter is at zero, elsewhere at the inline
value. -/
def levelAt (panel : Panel α) (inputs : String → List PrimitiveId) (socket : String) : α :=
  if (inputs socket).isEmpty then panel.inlineLevel socket else 0.0

variable {panel : Panel α} {site : Site α} {plan : Blueprint α}

/-- A driven parameter of the newest primitive is set to its level. -/
theorem shape_driven {s : Socket} (hs : panel.kind.input? s.name = some s)
    (hreplaces : s.combine.replaces = true) (hinline : s.inline.isSome)
    {states : List (Primitive.State α)} (hnext : site.next = states.length)
    (state : Primitive.State α) (param : Param) (range : Range α) :
    (driven panel site s ⟨site.next, param⟩ range).1.foldl Step.shape (states ++ [state]) =
      states ++ [state.set param (levelAt panel site.inputs s.name)] := by
  have hlevel : panel.inlineLevel s.name = panel.number (s.inline.getD "") := by
    rw [Panel.inlineLevel, hs, Option.bind_some]
  unfold driven levelAt
  rw [Socket.shape_drive hreplaces hinline, hnext, modify_concat, hlevel]

section

variable (waveform : Waveform) (sources : List PrimitiveId) (profile : Nat)
  (out first : PrimitiveId)

theorem shape_keySteps (frequency : α) (osc : PrimitiveId) (key : Key)
    (states : List (Primitive.State α)) :
    (keySteps waveform frequency sources profile out osc key).foldl Step.shape states =
      states ++ [(Setup.oscillator waveform frequency).state, (Setup.gain 0.0).state] := by
  simp [keySteps, Step.shape, Socket.shape_drive_modulate, keysFrequency, Socket.additional]

/-- Each key adds an oscillator and its gate. -/
theorem shape_keys (ratio : α) (keys : List (Key × α)) (n : Nat)
    (states : List (Primitive.State α)) :
    ((keys.zipIdx n).flatMap fun ((key, base), i) =>
        keySteps waveform (base * ratio) sources profile out (first + 1 + 2 * i) key).foldl
      Step.shape states = states ++ keys.flatMap fun (_, base) =>
        [(Setup.oscillator waveform (base * ratio)).state, (Setup.gain 0.0).state] := by
  induction keys generalizing n states with
  | nil => simp
  | cons pitch keys ih =>
    rw [List.zipIdx_cons, List.flatMap_cons, List.foldl_append, shape_keySteps, ih,
      List.flatMap_cons, List.append_assoc]

theorem sing_keySteps (frequency : α) (osc : PrimitiveId) (key : Key) (voicing : Voicing α) :
    (keySteps waveform frequency sources profile out osc key).foldl Step.sing voicing =
      voicing.bind key ⟨⟨osc + 1, .gain⟩, profile⟩ := by
  unfold keySteps
  simp only [List.foldl_append, Socket.sing_drive]
  rfl

/-- Each key binds its gate. -/
theorem sing_keys (ratio : α) (keys : List (Key × α)) (n : Nat) (voicing : Voicing α) :
    ((keys.zipIdx n).flatMap fun ((key, base), i) =>
        keySteps waveform (base * ratio) sources profile out (first + 1 + 2 * i) key).foldl
      Step.sing voicing = { voicing with
        bindings := voicing.bindings ++ (keys.zipIdx n).map fun ((key, _), i) =>
          (key, ⟨⟨first + (2 * i + 2), .gain⟩, profile⟩) } := by
  induction keys generalizing n voicing with
  | nil => simp
  | cons pitch keys ih =>
    have hgate : ∀ m : Nat, m + 1 + 2 * n + 1 = m + (2 * n + 2) := by omega
    rw [List.zipIdx_cons, List.flatMap_cons, List.foldl_append, sing_keySteps, ih, hgate first]
    simp [Voicing.bind]

end

theorem states_of_blueprint (h : blueprint panel site = .ok plan)
    (hamp : panel.kind = .clip →
      Scalar.greatest (panel.number "amp") leastClip = panel.number "amp")
    {states : List (Primitive.State α)} (hnext : site.next = states.length) :
    plan.steps.foldl Step.shape states = states ++ panel.states (levelAt panel site.inputs) := by
  obtain ⟨kind, values⟩ := panel
  cases kind
  -- the first four kinds have sockets that drive parameters
  case oscillator =>
    cases h
    rw [List.foldl_append, List.foldl_append]
    show List.foldl _ (List.foldl _ (states ++ [_]) _) _ = _
    rw [shape_driven rfl rfl rfl hnext, Setup.state_oscillator_set,
      Socket.shape_drive_modulate rfl rfl]
    rfl
  case gain =>
    cases h
    rw [List.foldl_append, List.foldl_append, Step.shape_patch]
    show List.foldl _ (states ++ [_]) _ = _
    rw [shape_driven rfl rfl rfl hnext, Setup.state_gain_set]
    rfl
  case biquadFilter =>
    cases h
    simp only [List.foldl_append, Step.shape_patch, List.map_cons, List.map_nil, List.flatMap_cons,
      List.flatMap_nil, List.foldl_nil]
    show List.foldl _ (List.foldl _ (List.foldl _ (states ++ [_]) _) _) _ = _
    rw [shape_driven rfl rfl rfl hnext, shape_driven rfl rfl rfl hnext,
      shape_driven rfl rfl rfl hnext]
    rfl
  case delay =>
    cases h
    rw [List.foldl_append, List.foldl_append, Step.shape_patch]
    show List.foldl _ (states ++ [_]) _ = _
    rw [shape_driven rfl rfl rfl hnext]
    rfl
  case clip =>
    cases h
    -- building brings the amplitude into range first
    simp [Step.shape, Step.shape_patch, Panel.states, hamp]
  case dynamicsCompressor =>
    cases h
    simp [Step.shape, Step.shape_patch, Panel.states, compressorDials, hnext, modify_concat]
  case keyboardNote =>
    cases h
    rw [List.foldl_append, shape_keys]
    show (states ++ [_]) ++ _ = _
    rw [List.append_assoc]
    rfl
  case keyboardAdsr =>
    obtain ⟨key, rfl⟩ := steps_keyboardAdsr h
    simp [Step.shape, Step.shape_patch, Panel.states]
  all_goals
    cases h
    simp [Step.shape, Step.shape_patch, Panel.states] <;> rfl

theorem voicing_of_blueprint (h : blueprint panel site = .ok plan) (voicing : Voicing α) :
    plan.steps.foldl Step.sing voicing = ⟨voicing.profiles ++ panel.profiles,
      voicing.bindings ++ panel.bindings site.next site.profiles⟩ := by
  obtain ⟨kind, values⟩ := panel
  cases kind
  case keyboardNote =>
    cases h
    rw [List.foldl_append, sing_keys]
    simp [Step.sing, Voicing.register, Panel.profiles, Panel.bindings, Panel.voices]
  case keyboardAdsr =>
    simp only [blueprint] at h
    split at h
    next => cases h
    next key hkey =>
      cases h
      simp [Step.sing, Step.sing_patch, Voicing.register, Voicing.bind, Panel.profiles,
        Panel.bindings, Panel.voices, hkey]
  all_goals
    cases h
    simp [Step.sing, Step.sing_patch, Panel.profiles, Panel.bindings, Panel.voices, driven,
      Socket.sing_drive, compressorDials]

end Kind

end Patchbay
