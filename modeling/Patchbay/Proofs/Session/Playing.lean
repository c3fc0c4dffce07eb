import Patchbay.Proofs.Rack
import Patchbay.Proofs.Session.Calls
/-!
# What is played on a rack

Keys, live changes and fades automate, start and stop primitives; they neither add any nor release
any, and each touches only what it is for: keys the gains of the voices, live changes the parameter
behind a knob, fades the master gain and the sources. So every call of a session plays on its rack
at most (`Session.plays_call`), as long as nothing else is done to the rack.

A history is undisturbed when nothing else is done to the rack but that its clock is moved and that
families are refused or accepted again. What holds of a session throughout such a history is shown
for a new session, for calls, and for what a rebuild does (`Observed.run_induction`).
-/

namespace Patchbay

variable {α : Type} [Scalar α] {touched : PrimitiveId → Prop}

/-! ## Keys -/

theorem Envelope.played_schedule (cues : α → α → List (Cue α)) (rack : Rack α) {dial : Dial}
    (h : touched dial.primitive) : rack.Played touched (schedule cues rack dial) :=
  .foldl (fun cue _ rack => .schedule rack h cue) rack

namespace Keyboard

/-- Only what may be touched is bound to a key. -/
def Within (touched : PrimitiveId → Prop) (kb : Keyboard α) : Prop :=
  ∀ b ∈ kb.voicing.bindings, touched b.2.gain.primitive

variable {kb : Keyboard α}

theorem played_onVoices (h : kb.Within touched) (cues : Profile α → α → α → List (Cue α))
    (key : Key) (rack : Rack α) : rack.Played touched (kb.onVoices cues key rack) := by
  refine .foldl (fun voice hvoice rack => Envelope.played_schedule _ rack ?_) rack
  obtain ⟨b, hb, rfl⟩ := List.mem_map.mp hvoice
  exact h b (List.mem_filter.mp hb).1

/-- Letting keys go plays on the voices, and the keyboard keeps them. -/
theorem played_letGoAll (h : kb.Within touched) (rack : Rack α) (keys : List Key) :
    rack.Played touched (kb.letGoAll rack keys).2 ∧
      (kb.letGoAll rack keys).1.voicing = kb.voicing := by
  induction keys generalizing kb rack with
  | nil => exact ⟨.refl _ rack, rfl⟩
  | cons key keys ih =>
    have hlet : (kb.setState key .idle).Within touched := h
    obtain ⟨hplayed, hvoicing⟩ := ih hlet (kb.onVoices Envelope.release key rack)
    exact ⟨(played_onVoices h _ key rack).trans hplayed, hvoicing⟩

theorem played_down (h : kb.Within touched) (rack : Rack α) (code : String) (shift : Bool) :
    rack.Played touched (kb.down rack code shift).2.2 ∧
      (kb.down rack code shift).2.1.voicing = kb.voicing := by
  unfold down
  split
  next => exact ⟨played_onVoices h _ _ rack, rfl⟩
  next => exact ⟨.refl _ rack, rfl⟩

theorem played_up (h : kb.Within touched) (rack : Rack α) (code : String) (shift : Bool) :
    rack.Played touched (kb.up rack code shift).2 ∧
      (kb.up rack code shift).1.voicing = kb.voicing := by
  unfold up
  split
  next =>
    split
    next => exact ⟨.refl _ rack, rfl⟩
    next => exact ⟨played_onVoices h _ _ rack, rfl⟩
  next =>
    split
    next => exact ⟨.refl _ rack, rfl⟩
    next =>
      have hpedal : Keyboard.Within touched { kb with sustaining := false } := h
      exact played_letGoAll hpedal rack _

end Keyboard

/-! ## Fades -/

namespace Mixer

variable {m : Mixer α}

theorem played_fadeOut (hmaster : touched m.master) (hsources : ∀ s ∈ m.sources, touched s.id)
    (ramp : α) : m.rack.Played touched (m.fadeOut ramp).2.rack := by
  unfold fadeOut
  split
  next => exact .refl _ _
  next =>
    have hdial : touched m.masterGain.primitive := hmaster
    refine (Rack.Played.rampTo m.rack hdial _ _).trans (.foldl (fun source hsource rack => ?_) _)
    exact .stop rack (hsources source (List.mem_filter.mp hsource).1) _

theorem played_fadeIn (hmaster : touched m.master) (hsources : ∀ s ∈ m.sources, touched s.id)
    (ramp : α) : m.rack.Played touched (m.fadeIn ramp).rack := by
  have hdial : touched m.masterGain.primitive := hmaster
  refine Rack.Played.trans (.foldl (fun source hsource rack => ?_) m.rack) (.rampTo _ hdial _ _)
  exact .start rack (hsources source (List.mem_filter.mp hsource).1) _

end Mixer

/-! ## Calls -/

namespace Session

variable {s s' : Session α}

/-- Only what may be touched is bound to a key or behind a knob of what sounds. -/
structure Within (touched : PrimitiveId → Prop) (s : Session α) : Prop where
  keys : s.keyboard.Within touched
  knobs : ∀ patch, s.live = some patch → ∀ entry ∈ patch.parts, ∀ knob ∈ entry.2.knobs,
    touched knob.dial.primitive

/-- A session has at most played on its rack. -/
structure Plays (touched : PrimitiveId → Prop) (s s' : Session α) : Prop where
  mixer : s'.mixer = { s.mixer with rack := s'.mixer.rack }
  rack : s.mixer.rack.Played touched s'.mixer.rack
  voicing : s'.keyboard.voicing = s.keyboard.voicing

namespace Plays

omit [Scalar α] in
theorem of_eq (hmixer : s'.mixer = s.mixer) (hkeyboard : s'.keyboard = s.keyboard) :
    Plays touched s s' :=
  ⟨by rw [hmixer], by rw [hmixer]; exact .refl _ _, by rw [hkeyboard]⟩

omit [Scalar α] in
theorem refl (s : Session α) : Plays touched s s := of_eq rfl rfl

omit [Scalar α] in
theorem of_outcome {ε : Type} {called : Except ε (Session α)}
    (h : ∀ s', called = .ok s' → Plays touched s s') : Plays touched s (s.outcome called) := by
  cases called with
  | error e => exact .refl s
  | ok s' => exact h s' rfl

end Plays

/-- The call does nothing to the primitives of a rack from outside: it may move the rack's clock and
change which families are refused. -/
def Call.Spares : Call α → Prop
  | .changeRack f => ∀ rack, (f rack).primitives = rack.primitives
  | _ => True

theorem Call.spares_advanceBy (seconds : α) : (Call.changeRack (·.advanceBy seconds)).Spares :=
  fun _ => rfl

omit [Scalar α] in
theorem Call.spares_refuse (family : Family) :
    (Call.changeRack fun rack : Rack α => rack.refuse family).Spares := by
  intro rack
  show (rack.refuse family).primitives = rack.primitives
  unfold Rack.refuse
  split <;> rfl

omit [Scalar α] in
theorem Call.spares_accept (family : Family) :
    (Call.changeRack fun rack : Rack α => rack.accept family).Spares :=
  fun _ => rfl

/-- A call at most plays on the rack, and only on what is bound to keys or behind knobs. -/
theorem plays_call (hs : s.Within touched) {c : Call α} (hc : c.Spares) :
    Plays touched s (s.call c) := by
  cases hedit : c.edit? with
  | some e =>
    obtain ⟨scheduler, hcall⟩ := s.call_of_edit hedit
    rw [hcall]
    exact .of_eq rfl rfl
  | none =>
    cases c with
    | addNode | removeNode | connect | disconnect | setControl | importDocument
    | addComment | removeComment | setCommentText => cases hedit
    | setPlaying on => exact ⟨rfl, .of_primitives rfl, rfl⟩
    | requestRebuild => exact .of_eq rfl rfl
    | updateLive id key value =>
      refine .of_outcome fun s' h => ?_
      obtain ⟨⟨update, _⟩, hcalled, rfl⟩ := map_eq_ok.mp h
      rcases updateLive_cases hcalled with ⟨hsame, -⟩ | ⟨node, knob, v, -, hknob, -, rfl⟩
      · exact .of_eq (congrArg _ hsame) (congrArg _ hsame)
      · obtain ⟨patch, part, hlive, hpart, hmem⟩ := exists_part_of_knob? hknob
        exact ⟨rfl, .rampTo _ (hs.knobs patch hlive _ hpart knob hmem) _ _, rfl⟩
    | keyDown code shift =>
      obtain ⟨hplayed, hvoicing⟩ := Keyboard.played_down hs.keys s.mixer.rack code shift
      exact ⟨rfl, hplayed, hvoicing⟩
    | keyUp code shift =>
      obtain ⟨hplayed, hvoicing⟩ := Keyboard.played_up hs.keys s.mixer.rack code shift
      exact ⟨rfl, hplayed, hvoicing⟩
    | changeRack f => exact ⟨rfl, .of_primitives (hc s.mixer.rack), rfl⟩
    | setTime time => exact .of_eq rfl rfl

/-! ## What a checkpoint does -/

theorem begin_cases (s : Session α) :
    (∃ fault, (s.mixer.build s.graph .empty).1 = .error fault ∧
      s.begin = { s with mixer := (s.mixer.build s.graph .empty).2.1 }.conclude s.scheduler.passes
        (.error fault)) ∨
    ∃ patch, (s.mixer.build s.graph .empty).1 = .ok patch ∧
      s.begin = { s with
        keyboard := .new
        mixer := ((s.mixer.build s.graph .empty).2.1.fadeOut (seconds s.settings.fade)).2
        pass := some ⟨s.scheduler.passes,
          .discard ⟨patch, (s.mixer.build s.graph .empty).2.2⟩, s.time + s.settings.fade⟩ } := by
  unfold begin
  cases hbuilt : (s.mixer.build s.graph .empty).1 with
  | error fault => exact Or.inl ⟨fault, rfl, by simp only [hbuilt, Keyboard.restore_snapshot]⟩
  | ok patch => exact Or.inr ⟨patch, rfl, by simp only [hbuilt, Keyboard.reset_eq]⟩

/-- What is due is nothing, or that the running rebuild goes on, or that one begins. -/
theorem upcoming?_cases (s : Session α) :
    s.upcoming? = none ∨
    (∃ pass, s.pass = some pass ∧
      s.upcoming? = some (pass.due, { s with time := pass.due }.proceed pass)) ∨
    (s.pass = none ∧ s.scheduler.isBusy = true ∧ s.upcoming? = some (s.time, s.begin)) := by
  unfold upcoming?
  cases hpass : s.pass with
  | some pass => exact Or.inr (Or.inl ⟨pass, rfl, rfl⟩)
  | none =>
    cases hbusy : s.scheduler.isBusy with
    | false => exact Or.inl rfl
    | true => exact Or.inr (Or.inr ⟨rfl, rfl, rfl⟩)

/-- A checkpoint does what is due, or nothing. -/
theorem Observed.checkpoint_cases (o : Observed α) :
    (o.step .checkpoint).session = o.session ∨
    (∃ pass, o.session.pass = some pass ∧ (o.step .checkpoint).session =
      { o.session with time := pass.due }.proceed pass) ∨
    (o.session.pass = none ∧ o.session.scheduler.isBusy = true ∧
      (o.step .checkpoint).session = o.session.begin) := by
  unfold step
  rcases o.session.upcoming?_cases with hdue | ⟨pass, hpass, hdue⟩ | ⟨hpass, hbusy, hdue⟩
  · rw [hdue]
    exact Or.inl rfl
  · rw [hdue]
    exact Or.inr (Or.inl ⟨pass, hpass, rfl⟩)
  · rw [hdue]
    exact Or.inr (Or.inr ⟨hpass, hbusy, rfl⟩)

/-! ## Undisturbed histories -/

def Event.Spares : Event α → Prop
  | .call c => c.Spares
  | .checkpoint => True

omit [Scalar α] in
theorem Event.spares_checkpoints (n : Nat) :
    ∀ e ∈ List.replicate n (.checkpoint : Event α), e.Spares := by
  intro e he
  rw [List.eq_of_mem_replicate he]
  trivial

/-- What holds of a session and is kept by the calls that are made and by what rebuilds do holds
throughout. -/
theorem Observed.run_induction_of {P : Session α → Prop} {Q : Call α → Prop}
    (call : ∀ s c, Q c → P s → P (s.call c))
    (begin : ∀ s, s.pass = none → P s → P s.begin)
    (proceed : ∀ s pass, s.pass = some pass → P s → P ({ s with time := pass.due }.proceed pass))
    {o : Observed α} (h : P o.session) {events : List (Event α)}
    (hcalls : ∀ c, .call c ∈ events → Q c) : P (o.run events).session := by
  induction events generalizing o with
  | nil => exact h
  | cons e events ih =>
    refine ih ?_ fun c hc => hcalls c (List.mem_cons_of_mem _ hc)
    cases e with
    | call c => exact call o.session c (hcalls c List.mem_cons_self) h
    | checkpoint =>
      rcases o.checkpoint_cases with hsame | ⟨pass, hpass, hnext⟩ | ⟨hpass, -, hnext⟩
      · rw [hsame]
        exact h
      · rw [hnext]
        exact proceed o.session pass hpass h
      · rw [hnext]
        exact begin o.session hpass h

theorem Observed.run_induction {P : Session α → Prop}
    (call : ∀ s c, Call.Spares c → P s → P (s.call c))
    (begin : ∀ s, s.pass = none → P s → P s.begin)
    (proceed : ∀ s pass, s.pass = some pass → P s → P ({ s with time := pass.due }.proceed pass))
    {o : Observed α} (h : P o.session) {events : List (Event α)}
    (hspares : ∀ e ∈ events, Event.Spares e) : P (o.run events).session :=
  run_induction_of call begin proceed h fun _ hc => hspares _ hc

/-- The session began on an empty rack, and nobody else has done anything to the primitives. -/
def Observed.Undisturbed (o : Observed α) : Prop :=
  ∃ rack settings s events, rack.primitives = #[] ∧ Session.new rack settings = .ok s ∧
    (∀ e ∈ events, Event.Spares e) ∧ run ⟨s, none, false⟩ events = o

namespace Observed.Undisturbed

variable {o : Observed α}

theorem reachable (h : o.Undisturbed) : o.Reachable := by
  obtain ⟨rack, settings, s, events, -, hnew, -, hrun⟩ := h
  exact ⟨rack, settings, s, events, hnew, hrun⟩

/-- What holds of a new session and is kept by calls and by what rebuilds do holds throughout. -/
theorem induction {P : Session α → Prop}
    (new : ∀ rack settings s, rack.primitives = #[] → Session.new rack settings = .ok s → P s)
    (call : ∀ s c, Call.Spares c → P s → P (s.call c))
    (begin : ∀ s, s.pass = none → P s → P s.begin)
    (proceed : ∀ s pass, s.pass = some pass → P s → P ({ s with time := pass.due }.proceed pass))
    (h : o.Undisturbed) : P o.session := by
  obtain ⟨rack, settings, s, events, hrack, hnew, hspares, rfl⟩ := h
  exact run_induction call begin proceed (new rack settings s hrack hnew) hspares

end Observed.Undisturbed

end Session

end Patchbay
