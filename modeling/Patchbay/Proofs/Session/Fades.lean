import Patchbay.Proofs.Patch.Frame
import Patchbay.Proofs.Ramp
import Patchbay.Proofs.Session.Current
import Patchbay.Proofs.Session.Playing
/-!
# The master gain when sources are started

A rebuild fades out what sounds before it stops the sources, and fades in what it starts. The fade
out is left out when nothing is started, while the fade in always happens. So whether sources are
started behind a closed master gain depends on what the rebuild replaces: after a patch with
sources, or when nothing sounded before, the gain is closed, but after a patch without sources it
is still open (`Replacing.master_of_start`, `Replacing.started_open`).

This holds of histories in which every fade is over before the master gain is moved again or sources
are started (`Replacing.Timely`). The invariant (`Replacing.Poised`) says stage by stage which
sources the mixer has and where its gain comes to rest.
-/

namespace Patchbay

variable {α : Type} [Scalar α]

/-! ## Fades -/

namespace Mixer

variable {m : Mixer α}

/-- The master gain is closed in a new mixer. -/
theorem restsAt_new {rack : Rack α} {level : α} {noise : Noise.Source α}
    (h : Mixer.new rack level noise = .ok m) : m.rack.RestsAt m.masterGain 0.0 := by
  obtain ⟨⟨master, rack₁⟩, hmaster, h⟩ := bind_eq_ok.mp h
  obtain ⟨⟨compressor, rack₂⟩, hcompressor, h⟩ := bind_eq_ok.mp h
  cases h
  obtain ⟨-, rfl, rfl⟩ := Rack.create_eq_ok.mp hmaster
  obtain ⟨-, rfl, rfl⟩ := Rack.create_eq_ok.mp hcompressor
  refine ⟨.starting 0.0, ?_, rfl⟩
  dsimp only
  rw [Rack.timeline?_connect, Rack.timeline?_connect]
  have hsize : (rack.add (.gain 0.0)).primitives.size = rack.primitives.size + 1 :=
    Array.size_push _
  have hne : rack.primitives.size ≠ (rack.add (.gain 0.0)).primitives.size := by
    rw [hsize]
    exact Nat.ne_of_lt (Nat.lt_succ_self _)
  have hadded : ((rack.add (.gain 0.0)).add .dynamicsCompressor).primitive? rack.primitives.size =
      some (.new (.gain 0.0)) := by
    rw [Rack.primitive?_add, if_neg hne, Rack.primitive?_add, if_pos rfl]
  show (Rack.primitive? _ rack.primitives.size).bind _ = _
  rw [hadded]
  rfl

theorem level_fadeOut (m : Mixer α) (ramp : α) : (m.fadeOut ramp).2.level = m.level := by
  unfold fadeOut
  split <;> rfl

variable [Scalar.Ordered α]

/-- After sources were started the master gain is opened. -/
theorem restsAt_fadeIn {v : α} (h : m.rack.RestsAt m.masterGain v)
    (hstill : m.rack.Still m.masterGain) {ramp : α} (hramp : m.rack.clock ≤ m.rack.clock + ramp)
    (hsources : ∀ s ∈ m.sources, s.id ≠ m.master) :
    (m.fadeIn ramp).rack.RestsAt m.masterGain m.level := by
  -- starting the sources takes no time and leaves the master gain alone
  have hstarts : m.rack.Played (· ≠ m.master) ((m.sources.filter (!·.started)).foldl
      (fun rack s => rack.start s.id rack.clock) m.rack) := by
    refine .foldl (fun s hs rack => .start rack ?_ _) m.rack
    exact hsources s (List.mem_filter.mp hs).1
  have hsame := hstarts.kept m.master fun h => h rfl
  have hclock : ((m.sources.filter (!·.started)).foldl
      (fun rack s => rack.start s.id rack.clock) m.rack).clock = m.rack.clock :=
    List.foldlRecOn (motive := fun rack : Rack α => rack.clock = m.rack.clock) _ _ rfl
      fun _ h _ _ => h
  refine (h.congr hsame).rampTo (hstill.congr hsame hclock) ?_ m.level
  rw [hclock]
  exact hramp

/-- The master gain is closed when something was started, and otherwise stays as it is. -/
theorem restsAt_fadeOut {v : α} (h : m.rack.RestsAt m.masterGain v)
    (hstill : m.rack.Still m.masterGain) {ramp : α} (hramp : m.rack.clock ≤ m.rack.clock + ramp)
    (hsources : ∀ s ∈ m.sources, s.id ≠ m.master) :
    (m.fadeOut ramp).2.rack.RestsAt m.masterGain
      (if m.startedSources.isEmpty then v else 0.0) := by
  unfold fadeOut
  split
  next => exact h
  next =>
    -- stopping the sources leaves the master gain alone
    have hstops (rack : Rack α) (ended : α) : rack.Played (· ≠ m.master)
        (m.startedSources.foldl (fun rack s => rack.stop s.id ended) rack) := by
      refine .foldl (fun s hs rack => .stop rack ?_ _) rack
      exact hsources s (List.mem_filter.mp hs).1
    exact (h.rampTo hstill hramp 0.0).congr ((hstops _ _).kept m.master fun h => h rfl)

end Mixer

/-! ## Keeping away from the master gain -/

/-- A patch does not own a primitive, and no knob of it is on the primitive. -/
structure Patch.Avoids (p : Patch α) (id : PrimitiveId) : Prop where
  ids : id ∉ p.ids
  knobs : ∀ entry ∈ p.parts, ∀ knob ∈ entry.2.knobs, knob.dial.primitive ≠ id

omit [Scalar α] in
theorem Patch.mem_ids_of_mem_sources {p : Patch α} {id : PrimitiveId} (h : id ∈ p.sources) :
    id ∈ p.ids := by
  obtain ⟨entry, hentry, rfl⟩ := List.mem_map.mp h
  exact List.mem_map_of_mem (List.mem_filter.mp hentry).1

/-- A patch that was built avoids what was there before. -/
theorem Graph.avoids_of_build {g : Graph α} {master : PrimitiveId} {noise : Noise.Source α}
    {rack : Rack α} {voicing : Voicing α} {patch : Patch α}
    (h : (g.build master noise rack voicing).outcome = .ok patch) {id : PrimitiveId}
    (hid : id < rack.primitives.size) : patch.Avoids id := by
  obtain ⟨hids, -, hparts, -⟩ := Graph.patch_of_build h
  refine ⟨fun hmem => ?_, fun entry hentry knob hknob => ?_⟩
  · rw [hids, List.mem_range'_1] at hmem
    exact Nat.not_lt_of_le hmem.1 hid
  · obtain ⟨n, -, -, hbuilt⟩ := hparts entry hentry
    exact Nat.ne_of_gt (Nat.lt_of_lt_of_le hid (hbuilt.dial_of_mem_knobs hknob).1)

namespace Session

/-- A patch with its voices keeps away from a primitive. -/
structure Staged.Avoids (staged : Staged α) (id : PrimitiveId) : Prop where
  patch : staged.patch.Avoids id
  voices : (Keyboard.withVoicing staged.voicing).Within (· ≠ id)

/-- What is yet to be installed keeps away from a primitive. -/
def Stage.Avoids (id : PrimitiveId) : Stage α → Prop
  | .discard staged | .install staged => staged.Avoids id
  | .start _ | .finish _ => True

/-- Neither keys nor live changes reach the master gain, and no patch owns it. -/
structure Clear (s : Session α) : Prop where
  keys : s.keyboard.Within (· ≠ s.mixer.master)
  live : ∀ patch, s.live = some patch → patch.Avoids s.mixer.master
  staged : ∀ pass, s.pass = some pass → pass.stage.Avoids s.mixer.master

omit [Scalar α] in
theorem Clear.within {s : Session α} (h : Clear s) : s.Within (· ≠ s.mixer.master) :=
  ⟨h.keys, fun patch hlive => (h.live patch hlive).knobs⟩

/-! ## Stages -/

/-- Where the master gain comes to rest when what sounded is faded out, if it has sources. -/
def fadedLevel (level : α) : Option (Patch α) → α
  | some patch => if patch.sources.isEmpty then level else 0.0
  | none => 0.0

theorem fadedLevel_eq_zero {level : α} {replaced : Option (Patch α)}
    (h : ∀ patch, replaced = some patch → patch.sources ≠ []) :
    fadedLevel level replaced = 0.0 := by
  cases replaced with
  | none => rfl
  | some patch =>
    unfold fadedLevel
    dsimp only
    rw [if_neg]
    rw [List.isEmpty_iff]
    exact h patch rfl

theorem fadedLevel_of_silent {level : α} {patch : Patch α} (h : patch.sources = []) :
    fadedLevel level (some patch) = level := by
  unfold fadedLevel
  dsimp only
  rw [h]
  rfl

/-- The sources of a patch, all of them started or none. -/
def sourcesOf (patch : Patch α) (started : Bool) : List Mixer.Source :=
  patch.sources.map fun id => ⟨id, started⟩

omit [Scalar α] in
theorem ne_of_mem_sourcesOf {patch : Patch α} {id : PrimitiveId} (h : patch.Avoids id)
    (started : Bool) : ∀ source ∈ sourcesOf patch started, source.id ≠ id := by
  intro source hsource heq
  obtain ⟨owned, howned, rfl⟩ := List.mem_map.mp hsource
  exact h.ids (heq ▸ Patch.mem_ids_of_mem_sources howned)

/-- Fading in starts all sources that wait. -/
theorem sources_fadeIn {m : Mixer α} {patch : Patch α} (h : m.sources = sourcesOf patch false)
    (ramp : α) : (m.fadeIn ramp).sources = sourcesOf patch true := by
  show m.sources.map _ = _
  rw [h]
  exact List.map_map

/-- What sounds has been started and faded in. -/
def Sounding (s : Session α) : Prop :=
  match s.live with
  | some patch => s.mixer.sources = sourcesOf patch true ∧
      s.mixer.rack.RestsAt s.mixer.masterGain s.mixer.level
  | none => s.mixer.sources = [] ∧ s.mixer.rack.RestsAt s.mixer.masterGain 0.0

/-- Where the master gain is, and what waits to be started, at each stage of a rebuild that replaces
what sounded. -/
def Stage.Poised (s : Session α) (replaced : Option (Patch α)) : Stage α → Prop
  | .discard _ => s.live = replaced ∧
      s.mixer.rack.RestsAt s.mixer.masterGain (fadedLevel s.mixer.level replaced)
  | .install _ => s.mixer.rack.RestsAt s.mixer.masterGain (fadedLevel s.mixer.level replaced)
  | .start _ => (∃ patch, s.live = some patch ∧ s.mixer.sources = sourcesOf patch false) ∧
      s.mixer.rack.RestsAt s.mixer.masterGain (fadedLevel s.mixer.level replaced)
  | .finish _ => s.Sounding

/-- The sources of what sounds are not the master gain. -/
theorem Sounding.ne_master {s : Session α} (h : s.Sounding) (hclear : Clear s) :
    ∀ source ∈ s.mixer.sources, source.id ≠ s.mixer.master := by
  unfold Sounding at h
  cases hlive : s.live with
  | none =>
    rw [hlive] at h
    rw [h.1]
    exact fun _ hsource => absurd hsource List.not_mem_nil
  | some patch =>
    rw [hlive] at h
    rw [h.1]
    exact ne_of_mem_sourcesOf (hclear.live patch hlive) true

/-- Fading out closes the master gain unless what sounds has no sources. -/
theorem Sounding.exists_rest {s : Session α} (h : s.Sounding) :
    ∃ v, s.mixer.rack.RestsAt s.mixer.masterGain v ∧
      (if s.mixer.startedSources.isEmpty then v else 0.0) = fadedLevel s.mixer.level s.live := by
  unfold Sounding at h
  cases hlive : s.live with
  | none =>
    rw [hlive] at h
    refine ⟨0.0, h.2, ?_⟩
    unfold Mixer.startedSources
    rw [h.1]
    rfl
  | some patch =>
    rw [hlive] at h
    refine ⟨s.mixer.level, h.2, ?_⟩
    have hstarted : s.mixer.startedSources = sourcesOf patch true := by
      unfold Mixer.startedSources
      rw [h.1]
      refine List.filter_eq_self.mpr fun source hsource => ?_
      obtain ⟨id, -, rfl⟩ := List.mem_map.mp hsource
      rfl
    rw [hstarted, sourcesOf, List.isEmpty_map]
    rfl

/-- The mixer has the same master chain, and nothing was done to the master gain. -/
structure SameMaster (s s' : Session α) : Prop where
  master : s'.mixer.master = s.mixer.master
  level : s'.mixer.level = s.mixer.level
  kept : s'.mixer.rack.primitive? s.mixer.master = s.mixer.rack.primitive? s.mixer.master

namespace SameMaster

variable {s s' : Session α}

omit [Scalar α] in
theorem restsAt (h : SameMaster s s') {v : α}
    (hrest : s.mixer.rack.RestsAt s.mixer.masterGain v) :
    s'.mixer.rack.RestsAt s'.mixer.masterGain v := by
  have hgain : s'.mixer.masterGain = s.mixer.masterGain := by
    unfold Mixer.masterGain
    rw [h.master]
  rw [hgain]
  exact hrest.congr h.kept

theorem sounding (h : SameMaster s s') (hlive : s'.live = s.live)
    (hsources : s'.mixer.sources = s.mixer.sources) (hs : s.Sounding) : s'.Sounding := by
  unfold Sounding at hs ⊢
  rw [hlive, hsources, h.level]
  cases hpatch : s.live with
  | some patch =>
    rw [hpatch] at hs
    exact ⟨hs.1, h.restsAt hs.2⟩
  | none =>
    rw [hpatch] at hs
    exact ⟨hs.1, h.restsAt hs.2⟩

theorem poised (h : SameMaster s s') (hlive : s'.live = s.live)
    (hsources : s'.mixer.sources = s.mixer.sources) {replaced : Option (Patch α)} {stage : Stage α}
    (hs : stage.Poised s replaced) : stage.Poised s' replaced := by
  cases stage with
  | discard staged =>
    refine ⟨hlive.trans hs.1, ?_⟩
    rw [h.level]
    exact h.restsAt hs.2
  | install staged =>
    show s'.mixer.rack.RestsAt _ (fadedLevel s'.mixer.level replaced)
    rw [h.level]
    exact h.restsAt hs
  | start summary =>
    obtain ⟨⟨patch, hpatch, hwaiting⟩, hrest⟩ := hs
    refine ⟨⟨patch, hlive.trans hpatch, hsources.trans hwaiting⟩, ?_⟩
    rw [h.level]
    exact h.restsAt hrest
  | finish summary => exact h.sounding hlive hsources hs

end SameMaster

/-! ## Histories -/

/-- The value that the master gain has. -/
def masterLevel (s : Session α) : α := s.mixer.rack.valueNow s.mixer.masterGain

/-- A session with what sounded when its last rebuild was begun. -/
structure Replacing (α : Type) where
  session : Session α
  replaced : Option (Patch α)

/-- The next checkpoint starts the sources of what was installed and opens the master gain. -/
def startsNext (s : Session α) : Bool :=
  match s.pass with
  | some pass =>
    match pass.stage with
    | .start _ => true
    | _ => false
  | none => false

/-- The next checkpoint moves the master gain, or may do so. -/
def fadesNext (s : Session α) : Bool := s.pass.isNone || s.startsNext

omit [Scalar α] in
theorem exists_stage_of_startsNext {s : Session α} (h : s.startsNext = true) :
    ∃ pass summary, s.pass = some pass ∧ pass.stage = .start summary := by
  unfold startsNext at h
  split at h
  next pass hpass =>
    split at h
    next summary hstage => exact ⟨pass, summary, hpass, hstage⟩
    next => cases h
  next => cases h

/-- The last fade is over, and another would end no earlier than it begins. -/
def Steady (s : Session α) : Prop :=
  s.mixer.rack.Still s.mixer.masterGain ∧
    s.mixer.rack.clock ≤ s.mixer.rack.clock + seconds s.settings.fade

instance (s : Session α) : Decidable s.Steady := inferInstanceAs (Decidable (_ ∧ _))

namespace Replacing

def step (r : Replacing α) : Event α → Replacing α
  | .call c => { r with session := r.session.call c }
  | .checkpoint =>
    match r.session.upcoming? with
    | none => r
    | some (_, session) =>
      ⟨session, if r.session.pass.isNone then r.session.live else r.replaced⟩

def run (r : Replacing α) (events : List (Event α)) : Replacing α := events.foldl step r

/-- Whenever a checkpoint may move the master gain, the last fade is over. -/
def Timely (r : Replacing α) : List (Event α) → Prop
  | [] => True
  | .call c :: events => Timely (r.step (.call c)) events
  | .checkpoint :: events =>
    (r.session.fadesNext = true → r.session.Steady) ∧ Timely (r.step .checkpoint) events

instance decidableTimely : (r : Replacing α) → (events : List (Event α)) →
    Decidable (r.Timely events)
  | _, [] => .isTrue trivial
  | r, .call c :: events => decidableTimely (r.step (.call c)) events
  | r, .checkpoint :: events =>
    have := decidableTimely (r.step .checkpoint) events
    inferInstanceAs (Decidable (_ ∧ _))

/-- The invariant: the sources that the mixer has and the place where its gain comes to rest are
those of the stage that is next. -/
structure Poised (r : Replacing α) : Prop where
  clear : Clear r.session
  sounding : r.session.pass = none → Sounding r.session
  stage : ∀ pass, r.session.pass = some pass → pass.stage.Poised r.session r.replaced

namespace Poised

variable {r : Replacing α}

theorem of_pass {s : Session α} {replaced : Option (Patch α)} {pass : Pass α}
    (hpass : s.pass = some pass) (hkeys : s.keyboard.Within (· ≠ s.mixer.master))
    (hlive : ∀ patch, s.live = some patch → patch.Avoids s.mixer.master)
    (hstaged : pass.stage.Avoids s.mixer.master) (hstage : pass.stage.Poised s replaced) :
    Poised ⟨s, replaced⟩ := by
  refine ⟨⟨hkeys, hlive, fun pass' hpass' => ?_⟩, fun hnone => ?_, fun pass' hpass' => ?_⟩
  · obtain rfl : pass = pass' := Option.some.inj (hpass.symm.trans hpass')
    exact hstaged
  · cases hpass.symm.trans hnone
  · obtain rfl : pass = pass' := Option.some.inj (hpass.symm.trans hpass')
    exact hstage

theorem of_no_pass {s : Session α} {replaced : Option (Patch α)} (hpass : s.pass = none)
    (hkeys : s.keyboard.Within (· ≠ s.mixer.master))
    (hlive : ∀ patch, s.live = some patch → patch.Avoids s.mixer.master) (hsounding : s.Sounding) :
    Poised ⟨s, replaced⟩ := by
  refine ⟨⟨hkeys, hlive, fun pass hpass' => ?_⟩, fun _ => hsounding, fun pass hpass' => ?_⟩
  · cases hpass.symm.trans hpass'
  · cases hpass.symm.trans hpass'

theorem new {rack : Rack α} {settings : Settings} {s : Session α}
    (h : Session.new rack settings = .ok s) : Poised ⟨s, none⟩ := by
  obtain ⟨mixer, hmixer, h⟩ := bind_eq_ok.mp h
  cases h
  refine of_no_pass rfl (fun b hb => absurd hb List.not_mem_nil) (fun patch hpatch => ?_)
    ⟨?_, Mixer.restsAt_new hmixer⟩
  · cases hpatch
  · show mixer.sources = []
    obtain ⟨_, -, hmixer⟩ := bind_eq_ok.mp hmixer
    obtain ⟨_, -, hmixer⟩ := bind_eq_ok.mp hmixer
    cases hmixer
    rfl

theorem call (h : Poised r) {c : Call α} (hc : c.Spares) : Poised (r.step (.call c)) := by
  have hplays := plays_call h.clear.within hc
  have hcourse := sameCourse_call r.session c
  have hmaster : SameMaster r.session (r.session.call c) := by
    refine ⟨by rw [hplays.mixer], by rw [hplays.mixer], ?_⟩
    exact hplays.rack.kept _ fun h => h rfl
  have hsources : (r.session.call c).mixer.sources = r.session.mixer.sources := by
    rw [hplays.mixer]
  refine ⟨⟨?_, ?_, ?_⟩, fun hpass => ?_, fun pass hpass => ?_⟩
  · show (r.session.call c).keyboard.Within (· ≠ (r.session.call c).mixer.master)
    unfold Keyboard.Within
    rw [hplays.voicing, hmaster.master]
    exact h.clear.keys
  · intro patch hlive
    show patch.Avoids (r.session.call c).mixer.master
    rw [hmaster.master]
    exact h.clear.live patch (hcourse.live ▸ hlive)
  · intro pass hpass
    show pass.stage.Avoids (r.session.call c).mixer.master
    rw [hmaster.master]
    exact h.clear.staged pass (hcourse.pass ▸ hpass)
  · exact hmaster.sounding hcourse.live hsources (h.sounding (hcourse.pass ▸ hpass))
  · exact hmaster.poised hcourse.live hsources (h.stage pass (hcourse.pass ▸ hpass))

/-- A rebuild begins: it may fail, or it fades out what sounds. -/
theorem begin [Scalar.Ordered α] (h : Poised r) (hpass : r.session.pass = none)
    (hsteady : r.session.Steady) : Poised ⟨r.session.begin, r.session.live⟩ := by
  obtain ⟨session, replaced⟩ := r
  have hclear : Clear session := h.clear
  have hsounding : session.Sounding := h.sounding hpass
  obtain ⟨v, hrest, hfaded⟩ := hsounding.exists_rest
  have hsources := hsounding.ne_master hclear
  have hextends : session.mixer.rack.Extends (session.mixer.build session.graph .empty).2.1.rack :=
    Graph.extends_build
  have hkept := hextends.kept session.mixer.master hrest.lt_size
  rcases session.begin_cases with ⟨fault, -, hbegin⟩ | ⟨patch, hpatch, hbegin⟩
  · -- what a failed rebuild leaves differs from before in primitives that it added
    rw [hbegin]
    have hmaster : SameMaster session
        { session with mixer := (session.mixer.build session.graph .empty).2.1 } :=
      ⟨rfl, rfl, hkept⟩
    exact of_no_pass rfl hclear.keys hclear.live (hmaster.sounding rfl rfl hsounding)
  · rw [hbegin]
    have hbuilt : (session.graph.build session.mixer.master session.mixer.noise session.mixer.rack
        .empty).outcome = .ok patch := hpatch
    -- what is faded out has the sources and the master gain that the session had
    have hclock : (session.mixer.build session.graph .empty).2.1.rack.clock =
        session.mixer.rack.clock := by rw [hextends.rest]
    have hclosed := Mixer.restsAt_fadeOut (m := (session.mixer.build session.graph .empty).2.1)
      (hrest.congr hkept) (hsteady.1.congr hkept hclock) (hclock ▸ hsteady.2) hsources
    have hmaster := Mixer.master_fadeOut (session.mixer.build session.graph .empty).2.1
      (seconds session.settings.fade)
    have hlevel := Mixer.level_fadeOut (session.mixer.build session.graph .empty).2.1
      (seconds session.settings.fade)
    refine of_pass rfl (fun b hb => absurd hb List.not_mem_nil) (fun old hlive => ?_) ?_ ⟨rfl, ?_⟩
    · show old.Avoids (Mixer.fadeOut _ _).2.master
      rw [hmaster]
      exact hclear.live old hlive
    · show Staged.Avoids _ (Mixer.fadeOut _ _).2.master
      rw [hmaster]
      refine ⟨Graph.avoids_of_build hbuilt hrest.lt_size, fun b hb => ?_⟩
      rcases Graph.voices_of_build hb with hold | hnew
      · cases hold
      · exact Nat.ne_of_gt (Nat.lt_of_lt_of_le hrest.lt_size hnew)
    · show Rack.RestsAt _ ⟨(Mixer.fadeOut _ _).2.master, .gain⟩
        (fadedLevel (Mixer.fadeOut _ _).2.level session.live)
      rw [hmaster, hlevel]
      show Rack.RestsAt _ _ (fadedLevel session.mixer.level session.live)
      rw [← hfaded]
      exact hclosed

/-- A rebuild goes on. -/
theorem proceed [Scalar.Ordered α] (h : Poised r) {pass : Pass α}
    (hpass : r.session.pass = some pass)
    (hsteady : r.session.fadesNext = true → r.session.Steady) :
    Poised ⟨{ r.session with time := pass.due }.proceed pass, r.replaced⟩ := by
  obtain ⟨session, replaced⟩ := r
  obtain ⟨number, stage, due⟩ := pass
  have hclear : Clear session := h.clear
  have hstaged : stage.Avoids session.mixer.master := hclear.staged _ hpass
  have hstage : stage.Poised session replaced := h.stage _ hpass
  cases stage with
  | discard staged =>
    obtain ⟨-, hrest⟩ := hstage
    unfold Session.proceed discardLive
    dsimp only
    cases hlive : session.live with
    | none => exact of_pass rfl hclear.keys (fun patch hsome => by cases hsome) hstaged hrest
    | some old =>
      -- the patch that is discarded does not own the master gain
      have hkept : (session.mixer.rack.releaseAll old.ids).primitive? session.mixer.master =
          session.mixer.rack.primitive? session.mixer.master := by
        rw [Rack.primitive?_releaseAll, if_neg (hclear.live old hlive).ids]
      exact of_pass rfl hclear.keys (fun patch hsome => by cases hsome) hstaged
        (hrest.congr hkept)
  | install staged =>
    -- only the sources of the mixer change, and none of them is started
    refine of_pass rfl hstaged.voices (fun patch hlive => ?_) trivial
      ⟨⟨staged.patch, rfl, rfl⟩, hstage⟩
    cases hlive
    exact hstaged.patch
  | start summary =>
    obtain ⟨⟨patch, hlive, hwaiting⟩, hrest⟩ := hstage
    have hstarts : session.startsNext = true := by
      unfold startsNext
      rw [hpass]
    have hfades : session.fadesNext = true := by
      unfold fadesNext
      rw [hstarts, Bool.or_true]
    -- the fade out is over, so the fade in begins where it led to
    obtain ⟨hstill, hfade⟩ := hsteady hfades
    have hsources : ∀ source ∈ session.mixer.sources, source.id ≠ session.mixer.master := by
      rw [hwaiting]
      exact ne_of_mem_sourcesOf (hclear.live patch hlive) false
    refine of_pass rfl hclear.keys hclear.live trivial ?_
    have hopened := Mixer.restsAt_fadeIn hrest hstill hfade hsources
    show Sounding _
    unfold Sounding
    dsimp only [Session.next]
    rw [hlive]
    exact ⟨sources_fadeIn hwaiting _, hopened⟩
  | finish summary => exact of_no_pass rfl hclear.keys hclear.live hstage

theorem step [Scalar.Ordered α] (h : Poised r) {e : Event α} {events : List (Event α)}
    (he : e.Spares) (htimely : r.Timely (e :: events)) :
    Poised (r.step e) ∧ (r.step e).Timely events := by
  cases e with
  | call c => exact ⟨h.call he, htimely⟩
  | checkpoint =>
    obtain ⟨hsteady, hrest⟩ := htimely
    refine ⟨?_, hrest⟩
    unfold Replacing.step
    rcases r.session.upcoming?_cases with hdue | ⟨pass, hpass, hdue⟩ | ⟨hpass, -, hdue⟩
    · rw [hdue]
      exact h
    · have hrunning : r.session.pass.isNone = false := by rw [hpass]; rfl
      rw [hdue]
      dsimp only
      rw [hrunning]
      exact h.proceed hpass hsteady
    · have hwaiting : r.session.pass.isNone = true := by rw [hpass]; rfl
      rw [hdue]
      dsimp only
      rw [hwaiting]
      refine h.begin hpass (hsteady ?_)
      unfold fadesNext
      rw [hwaiting, Bool.true_or]

theorem run [Scalar.Ordered α] (h : Poised r) {events : List (Event α)}
    (hspares : ∀ e ∈ events, Event.Spares e) (htimely : r.Timely events) :
    Poised (r.run events) := by
  induction events generalizing r with
  | nil => exact h
  | cons e events ih =>
    obtain ⟨hnext, hrest⟩ := h.step (hspares e List.mem_cons_self) htimely
    exact ih hnext (fun e he => hspares e (List.mem_cons_of_mem _ he)) hrest

end Poised

/-- When the fades of a history are over in time, a rebuild that is about to start sources finds the
master gain closed if it replaces nothing or a patch with sources, and open if it replaces a patch
without sources. -/
theorem master_of_start [Scalar.Ordered α] {rack : Rack α} {settings : Settings} {s : Session α}
    {events : List (Event α)} (hnew : Session.new rack settings = .ok s)
    (hspares : ∀ e ∈ events, Event.Spares e) (htimely : Timely ⟨s, none⟩ events)
    (hstarts : (run ⟨s, none⟩ events).session.startsNext = true)
    (hsteady : (run ⟨s, none⟩ events).session.Steady) :
    ((∀ patch, (run ⟨s, none⟩ events).replaced = some patch → patch.sources ≠ []) →
      (run ⟨s, none⟩ events).session.masterLevel = 0.0) ∧
    ∀ patch, (run ⟨s, none⟩ events).replaced = some patch → patch.sources = [] →
      (run ⟨s, none⟩ events).session.masterLevel = (run ⟨s, none⟩ events).session.mixer.level := by
  have hpoised : Poised (run ⟨s, none⟩ events) := (Poised.new hnew).run hspares htimely
  obtain ⟨pass, summary, hpass, hstage⟩ := exists_stage_of_startsNext hstarts
  have hrest := hpoised.stage pass hpass
  rw [hstage] at hrest
  have hvalue : (run ⟨s, none⟩ events).session.masterLevel = fadedLevel _ _ :=
    hrest.2.valueNow hsteady.1
  rw [hvalue]
  refine ⟨fadedLevel_eq_zero, fun patch hreplaced hsilent => ?_⟩
  rw [hreplaced]
  exact fadedLevel_of_silent hsilent

/-- An output is played, and when it has been faded in a tone is connected to it. -/
def silenceThenTone : List (Event Float) :=
  [.call (.addNode .audioOutput)] ++ List.replicate 5 .checkpoint ++
    [.call (.changeRack (·.advanceBy 1.0)), .call (.addNode .oscillator),
      .call (.connect ⟨"n2", "signal", "n1", "signal"⟩)] ++ List.replicate 3 .checkpoint

/-- When the tone has been faded in as well it is built anew. -/
def toneThenTone : List (Event Float) :=
  silenceThenTone ++ List.replicate 2 .checkpoint ++
    [.call (.changeRack (·.advanceBy 1.0)), .checkpoint, .call (.changeRack (·.advanceBy 1.0))] ++
    List.replicate 2 .checkpoint

theorem spares_silenceThenTone : ∀ e ∈ silenceThenTone, Event.Spares e := by
  simp only [silenceThenTone, List.forall_mem_append, List.forall_mem_cons]
  refine ⟨⟨⟨⟨trivial, List.forall_mem_nil _⟩, Event.spares_checkpoints 5⟩, ?_⟩,
    Event.spares_checkpoints 3⟩
  exact ⟨Call.spares_advanceBy 1.0, trivial, trivial, List.forall_mem_nil _⟩

theorem spares_toneThenTone : ∀ e ∈ toneThenTone, Event.Spares e := by
  simp only [toneThenTone, List.forall_mem_append, List.forall_mem_cons]
  refine ⟨⟨⟨spares_silenceThenTone, Event.spares_checkpoints 2⟩, ?_⟩, Event.spares_checkpoints 2⟩
  exact ⟨Call.spares_advanceBy 1.0, trivial, Call.spares_advanceBy 1.0, List.forall_mem_nil _⟩

/-- The tone that is built anew is started behind a closed master gain. -/
theorem closed_toneThenTone : ∃ s, Session.new (Rack.new 48000.0) {} = .ok s ∧
    Timely ⟨s, none⟩ toneThenTone ∧ (run ⟨s, none⟩ toneThenTone).session.startsNext = true ∧
    (run ⟨s, none⟩ toneThenTone).session.mixer.sources = [⟨3, false⟩] ∧
    (run ⟨s, none⟩ toneThenTone).session.masterLevel = 0.0 := by
  obtain ⟨s, hs⟩ : ∃ s, Session.new (Rack.new 48000.0) {} = .ok s := ⟨_, rfl⟩
  have htimely : Timely ⟨s, none⟩ toneThenTone := by cases hs; decide +kernel
  have hstarts : (run ⟨s, none⟩ toneThenTone).session.startsNext = true := by
    cases hs; decide +kernel
  have hsteady : (run ⟨s, none⟩ toneThenTone).session.Steady := by cases hs; decide +kernel
  have hsources : (run ⟨s, none⟩ toneThenTone).session.mixer.sources = [⟨3, false⟩] := by
    cases hs; decide +kernel
  have hreplaced : (run ⟨s, none⟩ toneThenTone).replaced.all fun patch => patch.sources ≠ [] := by
    cases hs; decide +kernel
  refine ⟨s, hs, htimely, hstarts, hsources, ?_⟩
  refine (master_of_start hs spares_toneThenTone htimely hstarts hsteady).1 fun patch hpatch => ?_
  rw [hpatch] at hreplaced
  exact of_decide_eq_true hreplaced

/-- The tone that is connected to an output that was silent is started while the master gain is
open, so it is not faded in. -/
theorem started_open : ∃ s, Session.new (Rack.new 48000.0) {} = .ok s ∧
    (∀ e ∈ silenceThenTone, Event.Spares e) ∧ Timely ⟨s, none⟩ silenceThenTone ∧
    (run ⟨s, none⟩ silenceThenTone).session.startsNext = true ∧
    (run ⟨s, none⟩ silenceThenTone).session.Steady ∧
    (run ⟨s, none⟩ silenceThenTone).session.mixer.sources = [⟨2, false⟩] ∧
    (run ⟨s, none⟩ silenceThenTone).session.masterLevel = 1.0 := by
  obtain ⟨s, hs⟩ : ∃ s, Session.new (Rack.new 48000.0) {} = .ok s := ⟨_, rfl⟩
  refine ⟨s, hs, spares_silenceThenTone, ?_, ?_, ?_, ?_, ?_⟩
  · cases hs; decide +kernel
  · cases hs; decide +kernel
  · cases hs; decide +kernel
  · cases hs; decide +kernel
  · cases hs; decide +kernel

end Replacing

end Session

end Patchbay
