import Patchbay.Proofs.Keyboard.Console
import Patchbay.Proofs.Patch.Knobs
import Patchbay.Proofs.Session.Accounts
import Patchbay.Proofs.Session.Lives
import Patchbay.Proofs.Session.Origin
/-!
# Live changes when all is done

When no rebuild is running or asked for and the last one succeeded, what sounds is what the current
graph is built into, and so the graph tells what comes of a live change: it is bypassed when the
control is the inline value of a connected socket, it meets nothing when the node reaches no sink,
and otherwise it moves the one parameter that the control is for, to a value that both the control
and the primitive take (`Observed.updateLive_of_settled`).

What a primitive takes may depend on the rate of the rack, which is fixed
(`Observed.sampleRate_run`).
-/

namespace Patchbay

variable {α : Type} [Scalar α]

/-! ## The rate of the rack -/

omit [Scalar α] in
theorem Rack.sampleRate_foldl {τ : Type} {f : Rack α → τ → Rack α}
    (hf : ∀ rack x, (f rack x).sampleRate = rack.sampleRate) (l : List τ) (rack : Rack α) :
    (l.foldl f rack).sampleRate = rack.sampleRate := by
  induction l generalizing rack with
  | nil => rfl
  | cons x l ih => exact (ih (f rack x)).trans (hf rack x)

theorem Voicing.Played.sampleRate {v : Voicing α} {cues : Profile α → α → α → List (Cue α)}
    {voices : List Voice} {rack rack' : Rack α} (h : v.Played cues voices rack rack') :
    rack'.sampleRate = rack.sampleRate := by
  rw [h.rest]

namespace Keyboard

variable (kb : Keyboard α) (rack : Rack α) (code : String) (shift : Bool)

theorem sampleRate_down : (kb.down rack code shift).2.2.sampleRate = rack.sampleRate := by
  obtain ⟨hopened, hsame⟩ := kb.presses_down rack code shift
  cases hpressed : (kb.down rack code shift).1 with
  | true =>
    obtain ⟨key, -, -, hplayed⟩ := hopened hpressed
    exact hplayed.sampleRate
  | false => rw [hsame hpressed]

theorem sampleRate_up : (kb.up rack code shift).2.sampleRate = rack.sampleRate := by
  rw [← upIn_deferredKeys]
  obtain ⟨keys, -, -, hplayed⟩ := releases_upIn (List.Perm.refl kb.deferredKeys) rack code shift
  exact hplayed.sampleRate

end Keyboard

namespace Mixer

variable (m : Mixer α)

theorem sampleRate_fadeOut (ramp : α) : (m.fadeOut ramp).2.rack.sampleRate = m.rack.sampleRate := by
  unfold fadeOut
  split
  next => rfl
  next =>
    exact Rack.sampleRate_foldl (f := fun rack (s : Source) => rack.stop s.id _)
      (fun _ _ => rfl) _ _

theorem sampleRate_fadeIn (ramp : α) : (m.fadeIn ramp).rack.sampleRate = m.rack.sampleRate :=
  Rack.sampleRate_foldl (f := fun rack (s : Source) => rack.start s.id rack.clock)
    (fun _ _ => rfl) _ _

omit [Scalar α] in
theorem sampleRate_release (patch : Patch α) :
    (m.release patch).rack.sampleRate = m.rack.sampleRate :=
  Rack.sampleRate_foldl (f := Rack.release) (fun _ _ => rfl) _ _

theorem sampleRate_build (g : Graph α) (voicing : Voicing α) :
    (m.build g voicing).2.1.rack.sampleRate = m.rack.sampleRate := by
  have hextends : m.rack.Extends (m.build g voicing).2.1.rack := Graph.extends_build
  rw [hextends.rest]

theorem sampleRate_new {rack : Rack α} {level : α} {noise : Noise.Source α} {m : Mixer α}
    (h : Mixer.new rack level noise = .ok m) : m.rack.sampleRate = rack.sampleRate := by
  obtain ⟨⟨master, rack'⟩, hmaster, h⟩ := bind_eq_ok.mp h
  obtain ⟨⟨compressor, rack''⟩, hcompressor, h⟩ := bind_eq_ok.mp h
  cases h
  obtain ⟨-, -, rfl⟩ := Rack.create_eq_ok.mp hmaster
  obtain ⟨-, -, rfl⟩ := Rack.create_eq_ok.mp hcompressor
  rfl

end Mixer

namespace Session

/-- The call leaves the rate of the rack as it is. -/
def Call.KeepsRate : Call α → Prop
  | .changeRack f => ∀ rack, (f rack).sampleRate = rack.sampleRate
  | _ => True

def Event.KeepsRate : Event α → Prop
  | .call c => c.KeepsRate
  | .checkpoint => True

theorem sampleRate_call (s : Session α) {c : Call α} (hc : c.KeepsRate) :
    (s.call c).mixer.rack.sampleRate = s.mixer.rack.sampleRate := by
  cases hedit : c.edit? with
  | some e =>
    obtain ⟨scheduler, hcall⟩ := s.call_of_edit hedit
    rw [hcall]
  | none =>
    cases c with
    | addNode | removeNode | connect | disconnect | setControl | importDocument
    | addComment | removeComment | setCommentText => cases hedit
    | setPlaying | requestRebuild | setTime => rfl
    | updateLive id key value =>
      show (s.outcome _).mixer.rack.sampleRate = _
      cases hcalled : s.updateLive id key value with
      | error fault => rfl
      | ok updated =>
        rcases updateLive_cases hcalled with ⟨hsame, -⟩ | ⟨_, knob, v, -, -, -, hmoved⟩
        · show updated.2.mixer.rack.sampleRate = _
          rw [hsame]
        · show updated.2.mixer.rack.sampleRate = _
          rw [hmoved]
          rfl
    | keyDown code shift => exact s.keyboard.sampleRate_down s.mixer.rack code shift
    | keyUp code shift => exact s.keyboard.sampleRate_up s.mixer.rack code shift
    | changeRack f => exact hc s.mixer.rack

theorem sampleRate_begin (s : Session α) :
    s.begin.mixer.rack.sampleRate = s.mixer.rack.sampleRate := by
  have hbuilt := s.mixer.sampleRate_build s.graph .empty
  rcases s.begin_cases with ⟨fault, -, hbegin⟩ | ⟨patch, -, hbegin⟩
  · rw [hbegin]
    exact hbuilt
  · rw [hbegin]
    exact (Mixer.sampleRate_fadeOut _ _).trans hbuilt

theorem sampleRate_proceed (s : Session α) (pass : Pass α) :
    (s.proceed pass).mixer.rack.sampleRate = s.mixer.rack.sampleRate := by
  obtain ⟨number, stage, due⟩ := pass
  cases stage with
  | discard staged =>
    rcases s.discardLive_cases with ⟨-, hsame⟩ | ⟨old, -, hreleased⟩
    · exact congrArg (·.mixer.rack.sampleRate) hsame
    · exact (congrArg (·.mixer.rack.sampleRate) hreleased).trans (s.mixer.sampleRate_release old)
  | install staged => rfl
  | start summary => exact s.mixer.sampleRate_fadeIn _
  | finish summary => rfl

/-- The rate of the rack is that of the rack on which the session began. -/
theorem Observed.sampleRate_run {o : Observed α} {events : List (Event α)}
    (h : ∀ e ∈ events, e.KeepsRate) :
    (o.run events).session.mixer.rack.sampleRate = o.session.mixer.rack.sampleRate := by
  refine run_induction_of
    (P := fun s => s.mixer.rack.sampleRate = o.session.mixer.rack.sampleRate)
    (Q := Call.KeepsRate) (fun s c hc hs => ?_) (fun s _ hs => ?_) (fun s pass _ hs => ?_) rfl
    fun c hc => h _ hc
  · exact (s.sampleRate_call hc).trans hs
  · exact s.sampleRate_begin.trans hs
  · exact (sampleRate_proceed _ pass).trans hs

/-! ## What sounds when all is done -/

namespace Observed

/-- As long as no rebuild was asked for, none is due, none is running and none has ended. -/
def Unasked (o : Observed α) : Prop :=
  o.requested = false → o.session.scheduler.state = .idle ∧ o.session.pass = none ∧
    o.session.reports = []

theorem Unasked.step {o : Observed α} (h : o.Unasked) (e : Event α) : (o.step e).Unasked := by
  cases e with
  | call c =>
    intro hnot
    obtain ⟨hbefore, hsame⟩ := Bool.or_eq_false_iff.mp hnot
    have hscheduler : o.session.scheduler = (o.session.call c).scheduler := by simpa using hsame
    obtain ⟨hidle, hpass, hreports⟩ := h hbefore
    have hcourse := sameCourse_call o.session c
    exact ⟨(congrArg (·.state) hscheduler).symm.trans hidle, hcourse.pass.trans hpass,
      hcourse.reports.trans hreports⟩
  | checkpoint =>
    cases hrequested : o.requested with
    | false =>
      -- nothing is due, so nothing happens
      obtain ⟨hidle, hpass, -⟩ := h hrequested
      have hnone : o.session.upcoming? = none := by
        simp [upcoming?, hpass, Scheduler.isBusy, hidle]
      have hsame : o.step .checkpoint = o := by
        unfold Observed.step
        rw [hnone]
      rw [hsame]
      exact h
    | true =>
      intro hnot
      have hrequested' : (o.step .checkpoint).requested = o.requested := by
        unfold Observed.step
        dsimp only
        split <;> rfl
      rw [hrequested', hrequested] at hnot
      cases hnot

theorem Unasked.run {o : Observed α} (h : o.Unasked) (events : List (Event α)) :
    (o.run events).Unasked := by
  induction events generalizing o with
  | nil => exact h
  | cons e events ih => exact ih (h.step e)

/-- A rebuild that has ended was asked for. -/
theorem Reachable.requested_of_report {o : Observed α} (h : o.Reachable) {report : Report}
    (hreport : o.session.lastReport? = some report) : o.requested = true := by
  obtain ⟨rack, settings, s, events, hnew, rfl⟩ := h
  have hunasked : Unasked ⟨s, none, false⟩ := by
    obtain ⟨mixer, -, hmade⟩ := bind_eq_ok.mp hnew
    cases hmade
    exact fun _ => ⟨rfl, rfl, rfl⟩
  rw [← Bool.not_eq_false]
  intro hnot
  obtain ⟨-, -, hreports⟩ := hunasked.run events hnot
  rw [lastReport?, hreports] at hreport
  cases hreport

end Observed

end Session

/-! ## Knobs at the rate of the rack -/

namespace Graph

variable {g g' : Graph α} {master : PrimitiveId} {noise : Noise.Source α} {rack rack' : Rack α}
  {patch : Patch α}

/-- The knobs on frequencies end at half the rate of the rack that the patch was built on. -/
theorem WellFormed.range_of_build (hg : g.WellFormed)
    (hpatch : (g.build master noise rack .empty).outcome = .ok patch) {id : NodeId} {part : Part α}
    (hpart : patch.part? id = some part) {knob : Knob α} (hknob : knob ∈ part.knobs)
    (hfrequency : knob.dial.param = .frequency) :
    knob.range = Param.frequency.range rack.sampleRate := by
  obtain ⟨-, -, hparts, -⟩ := patch_of_build hpatch
  obtain ⟨entry, hentry, rfl⟩ := Option.map_eq_some_iff.mp hpart
  obtain ⟨n, hn, hid, -⟩ := hparts entry (List.mem_of_find?_eq_some hentry)
  have hentryid : entry.1 = id := by simpa using List.find?_some hentry
  obtain ⟨first, hknobs⟩ := hg.knobs_of_build hpatch
  have hfound : patch.part? n.id = some entry.2 := (hid.trans hentryid).symm ▸ hpart
  have hup : g.Upstream n.id := hg.upstream_of_part hpatch hn (hfound ▸ rfl)
  obtain ⟨part', hpart', heq⟩ := (hknobs n hn).2 hup
  obtain rfl : entry.2 = part' := Option.some.inj (hfound.symm.trans hpart')
  rw [heq] at hknob
  obtain ⟨⟨key, param⟩, htuned, rfl⟩ := List.mem_map.mp (List.mem_filter.mp hknob).1
  obtain rfl : param = .frequency := hfrequency
  exact Panel.reach_frequency htuned _

/-- A patch that two graphs are built into has the knobs that the one tells at the rate of the
other's rack. -/
theorem WellFormed.knobs_of_builds (hg : g.WellFormed) (hg' : g'.WellFormed)
    (hpatch : (g.build master noise rack .empty).outcome = .ok patch)
    {master' : PrimitiveId} {noise' : Noise.Source α}
    (hpatch' : (g'.build master' noise' rack' .empty).outcome = .ok patch) :
    ∃ first : NodeId → PrimitiveId, ∀ n ∈ g.nodes,
      (¬g.Upstream n.id → patch.part? n.id = none) ∧
      (g.Upstream n.id → ∃ part, patch.part? n.id = some part ∧
        part.knobs = g.knobsOf n (first n.id) rack'.sampleRate) := by
  obtain ⟨first, hknobs⟩ := hg.knobs_of_build hpatch
  refine ⟨first, fun n hn => ⟨(hknobs n hn).1, fun hup => ?_⟩⟩
  obtain ⟨part, hpart, heq⟩ := (hknobs n hn).2 hup
  refine ⟨part, hpart, heq.trans ?_⟩
  have hrange := fun {knob : Knob α} (hknob : knob ∈ g.knobsOf n (first n.id) rack.sampleRate) =>
    hg'.range_of_build hpatch' hpart (heq ▸ hknob)
  unfold knobsOf Panel.knobs at hrange ⊢
  rw [List.filter_map, List.filter_map]
  refine List.map_congr_left fun ⟨key, param⟩ hentry => ?_
  obtain ⟨htuned, hkept⟩ := List.mem_filter.mp hentry
  have hreach : n.panel.reach rack.sampleRate param = n.panel.reach rack'.sampleRate param := by
    by_cases hparam : param = .frequency
    · subst hparam
      refine Eq.trans ?_ (Panel.reach_frequency htuned _).symm
      exact hrange (List.mem_filter.mpr ⟨List.mem_map_of_mem htuned, hkept⟩) rfl
    · exact n.panel.reach_congr hparam _ _
  exact congrArg (Knob.mk key ⟨first n.id, param⟩) hreach

end Graph

namespace Session

omit [Scalar α] in
theorem isBypassed_eq (s : Session α) (n : Node α) (key : String) :
    s.isBypassed n key = s.graph.bypasses n key := by
  unfold isBypassed Graph.bypasses
  cases n.kind.socketOf? key <;> rfl

/-- What comes of a live change of a live control. -/
theorem updateLive_eq {s : Session α} {n : Node α} (hn : s.graph.node? n.id = some n)
    {c : Control α} (hc : c ∈ n.kind.controls) (hlive : c.live = true) {v : α}
    (hv : Scalar.isFinite v = true) :
    s.updateLive n.id c.key v = .ok (
      if s.graph.bypasses n c.key then (.bypassed, s)
      else match s.knob? n.id c.key with
        | none => (.notBuilt, s)
        | some knob =>
          let w := knob.range.clamp (c.domain.clamp v)
          (.applied w,
            s.mapRack (·.rampTo knob.dial w (Scalar.ofMilliseconds s.settings.ramp)))) := by
  have hcontrol : liveControl n c.key v = .ok c := by
    unfold liveControl
    rw [Kind.control?_of_mem hc]
    simp [hlive, hv]
  unfold updateLive
  rw [hn]
  dsimp only
  rw [hcontrol, isBypassed_eq]
  show (if _ then _ else _ : Except LiveFault (LiveUpdate α × Session α)) = _
  split
  next => rfl
  next =>
    cases s.knob? n.id c.key <;> rfl

theorem liveControl_eq_ok {n : Node α} {key : String} {v : α} {c : Control α} :
    liveControl n key v = .ok c ↔
      n.kind.control? key = some c ∧ c.live = true ∧ Scalar.isFinite v = true := by
  unfold liveControl
  cases n.kind.control? (α := α) key with
  | none => simp
  | some control =>
    cases hlive : control.live <;> cases hv : Scalar.isFinite v <;> simp [hlive] <;> grind

/-- A live change is refused unless it gives a finite number to a live control of a node. -/
theorem updateLive_eq_error_iff {s : Session α} (hg : s.graph.WellFormed) {id : NodeId}
    {key : String} {v : α} : (∃ fault, s.updateLive id key v = .error fault) ↔
      ¬∃ n ∈ s.graph.nodes, n.id = id ∧ ∃ c ∈ n.kind.controls (α := α), c.key = key ∧
        c.live = true ∧ Scalar.isFinite v = true := by
  constructor
  · rintro ⟨fault, hfault⟩ ⟨n, hn, rfl, c, hc, rfl, hlive, hv⟩
    rw [updateLive_eq (hg.node?_eq_some_iff.mpr ⟨hn, rfl⟩) hc hlive hv] at hfault
    cases hfault
  · intro hnone
    cases hupdated : s.updateLive id key v with
    | error fault => exact ⟨fault, rfl⟩
    | ok updated =>
      refine absurd ?_ hnone
      unfold updateLive at hupdated
      split at hupdated
      next => cases hupdated
      next n hn =>
        obtain ⟨hmem, hid⟩ := hg.node?_eq_some_iff.mp hn
        obtain ⟨c, hcontrol, -⟩ := bind_eq_ok.mp hupdated
        obtain ⟨hfound, hlive, hv⟩ := liveControl_eq_ok.mp hcontrol
        exact ⟨n, hmem, hid, c, List.mem_of_find?_eq_some hfound,
          by simpa using List.find?_some hfound, hlive, hv⟩

/-- Whatever comes of a live change, only the primitives of the rack can differ. -/
theorem rest_updateLive (s : Session α) (id : NodeId) (key : String) (v : α) :
    ∃ primitives, s.call (.updateLive id key v) =
      { s with mixer := { s.mixer with rack := { s.mixer.rack with primitives } } } := by
  show ∃ primitives, s.outcome _ = _
  cases hupdated : s.updateLive id key v with
  | error fault => exact ⟨s.mixer.rack.primitives, rfl⟩
  | ok updated =>
    rcases updateLive_cases hupdated with ⟨hsame, -⟩ | ⟨_, knob, w, -, -, -, hmoved⟩
    · exact ⟨s.mixer.rack.primitives, hsame⟩
    · exact ⟨_, hmoved⟩

/-- A live change of a control moves one parameter of what sounds to a value: the parameter is the
one that the control is for, and the value is what was asked for, taken into the bounds of the
control and then into those of the primitive. No other parameter has another course, and nothing
else about the primitives changes. -/
structure Moves (s : Session α) (n : Node α) (c : Control α) (v w : α) (dial : Dial)
    (after : Session α) : Prop where
  knob : s.knob? n.id c.key =
    some ⟨c.key, dial, n.panel.reach s.mixer.rack.sampleRate dial.param⟩
  tuned : (c.key, dial.param) ∈ n.kind.tuned
  value : ∃ range, c.domain.range? = some range ∧
    w = (n.panel.reach s.mixer.rack.sampleRate dial.param).clamp (range.clamp v) ∧
    range.Holds w ∧ (n.panel.reach s.mixer.rack.sampleRate dial.param).Holds w
  ramp : after = s.mapRack (·.rampTo dial w (Scalar.ofMilliseconds s.settings.ramp))
  others : ∀ d, d ≠ dial → after.mixer.rack.timeline? d = s.mixer.rack.timeline? d
  automated : s.mixer.rack.Automated after.mixer.rack

namespace Observed

/-- When all is done and the last rebuild succeeded, the graph tells whether a control has a knob in
what sounds, and which. -/
theorem knob?_of_settled [StandardsAccepted α] {rack : Rack α} {settings : Settings}
    {s : Session α} (hnew : Session.new rack settings = .ok s) {events : List (Event α)}
    (hevents : ∀ e ∈ events, e.KeepsRate) {now : Session α}
    (hnow : (run ⟨s, none, false⟩ events).session = now)
    (hidle : now.scheduler.state = .idle) {report : Report}
    (hreport : now.lastReport? = some report) {summary : Summary}
    (hok : report.outcome = .ok summary) :
    now.mixer.rack.sampleRate = rack.sampleRate ∧
    ∃ first : NodeId → PrimitiveId, ∀ n ∈ now.graph.nodes, ∀ key param,
      (key, param) ∈ n.kind.tuned → now.graph.bypasses n key = false →
      (¬now.graph.Upstream n.id → now.knob? n.id key = none) ∧
      (now.graph.Upstream n.id → now.knob? n.id key =
        some ⟨key, ⟨first n.id, param⟩, n.panel.reach rack.sampleRate param⟩) := by
  have hempty : s.live = none ∧ s.pass = none := by
    obtain ⟨mixer, -, hmade⟩ := bind_eq_ok.mp hnew
    cases hmade
    exact ⟨rfl, rfl⟩
  have hrate : s.mixer.rack.sampleRate = rack.sampleRate := by
    obtain ⟨mixer, hmixer, hmade⟩ := bind_eq_ok.mp hnew
    cases hmade
    exact Mixer.sampleRate_new hmixer
  have hwell : now.graph.WellFormed := hnow ▸ (sound_of_new hnew events).wellFormed
  have hreachable : Reachable (run ⟨s, none, false⟩ events) :=
    ⟨rack, settings, s, events, hnew, rfl⟩
  have hrequested := hreachable.requested_of_report (hnow.symm ▸ hreport)
  -- the current graph is built into what sounds, though on which rack is not known
  obtain ⟨report', hreport', -, hsounds⟩ :=
    (evaluated_current hreachable).2.2 (hnow.symm ▸ hidle) hrequested
  rw [hnow] at hreport' hsounds
  obtain rfl : report = report' := Option.some.inj (hreport.symm.trans hreport')
  obtain ⟨patch, hlive, rack₁, hpatch₁⟩ := hsounds summary hok
  -- and some graph was built into it on the rack of the session
  obtain ⟨before, after, hsplit, -, -, hpatch₂⟩ :=
    (carries_run (o := ⟨s, none, false⟩) hempty.1 hempty.2 events).live patch (hnow.symm ▸ hlive)
  have hrate₂ : (run ⟨s, none, false⟩ before).session.mixer.rack.sampleRate = rack.sampleRate :=
    (sampleRate_run fun e he => hevents e (hsplit ▸ List.mem_append_left _ he)).trans hrate
  obtain ⟨first, hparts⟩ :=
    hwell.knobs_of_builds (sound_of_new hnew before).wellFormed hpatch₁ hpatch₂
  refine ⟨hnow ▸ (sampleRate_run hevents).trans hrate, first,
    fun n hn key param htuned hbypassed => ⟨fun hup => ?_, fun hup => ?_⟩⟩
  · simp only [knob?, hlive, (hparts n hn).1 hup, Option.bind_eq_bind, Option.bind_some,
      Option.bind_none]
  · obtain ⟨part, hpart, hknobs⟩ := (hparts n hn).2 hup
    simp only [knob?, hlive, hpart, Option.bind_eq_bind, Option.bind_some]
    rw [Part.knob?, hknobs, Graph.knobsOf, Panel.find?_knobs htuned _ _ (!now.graph.bypasses n ·),
      hbypassed, hrate₂]
    rfl

/-- What comes of live changes, in a session on a rack whose rate is positive and stays as it is.
When no rebuild is running or asked for and the last one succeeded, a live change of a live control
to a finite number is bypassed when the control is the inline value of a connected socket; otherwise
it meets nothing when the node neither is a sink nor reaches one, and when the node does, it moves
the parameter that the control is for, to a value within the bounds of both. At any time a live
change is refused exactly when it is not one of a live control to a finite number, and whatever
comes of it, all but the primitives of the rack is as it was: the graph with its values, the
scheduler, what sounds and the keyboard. -/
theorem updateLive_of_settled {rack : Rack Float} (hrate : 0.0 < rack.sampleRate)
    {settings : Settings} {s : Session Float} (hnew : Session.new rack settings = .ok s)
    {events : List (Event Float)} (hevents : ∀ e ∈ events, e.KeepsRate) :
    let now := (run ⟨s, none, false⟩ events).session
    (now.scheduler.state = .idle →
      (∃ report, now.lastReport? = some report ∧ ∃ summary, report.outcome = .ok summary) →
      ∀ n ∈ now.graph.nodes, ∀ c ∈ n.kind.controls, c.live = true → ∀ v : Float,
        v.isFinite = true →
        (now.graph.bypasses n c.key = true → now.updateLive n.id c.key v = .ok (.bypassed, now)) ∧
        (now.graph.bypasses n c.key = false → ¬now.graph.Upstream n.id →
          now.updateLive n.id c.key v = .ok (.notBuilt, now)) ∧
        (now.graph.bypasses n c.key = false → now.graph.Upstream n.id →
          ∃ w dial after, now.updateLive n.id c.key v = .ok (.applied w, after) ∧
            now.Moves n c v w dial after)) ∧
    ∀ id key v,
      ((∃ fault, now.updateLive id key v = .error fault) ↔
        ¬∃ n ∈ now.graph.nodes, n.id = id ∧ ∃ c ∈ n.kind.controls (α := Float), c.key = key ∧
          c.live = true ∧ v.isFinite = true) ∧
      ∃ primitives, now.call (.updateLive id key v) =
        { now with mixer := { now.mixer with rack := { now.mixer.rack with primitives } } } := by
  intro now
  have hwell : now.graph.WellFormed := (sound_of_new hnew events).wellFormed
  refine ⟨fun hidle ⟨report, hreport, summary, hok⟩ n hn c hc hlive v hv => ?_, fun id key v =>
    ⟨updateLive_eq_error_iff hwell, now.rest_updateLive id key v⟩⟩
  obtain ⟨hsame, first, hknobs⟩ :=
    knob?_of_settled hnew hevents (rfl : _ = now) hidle hreport hok
  obtain ⟨param, htuned⟩ := Kind.exists_tuned hc hlive
  have hknob := hknobs n hn c.key param htuned
  rw [updateLive_eq (hwell.node?_eq_some_iff.mpr ⟨hn, rfl⟩) hc hlive hv]
  refine ⟨fun hbypassed => ?_, fun hbypassed hup => ?_, fun hbypassed hup => ?_⟩
  · rw [if_pos hbypassed]
  · rw [hbypassed, (hknob hbypassed).1 hup]
    rfl
  · have hmoved := (hknob hbypassed).2 hup
    obtain ⟨range, hrange, hproper, hlow⟩ := Kind.exists_range hc hlive htuned
    have hboth := Range.holds_clamp_clamp hproper (Panel.proper_reach hrate n.panel param)
      (hlow n.panel rfl _) (Binary64.beq_self_of_isFinite hv)
    rw [hbypassed, hmoved, Control.Domain.clamp_eq hrange]
    rw [← hsame] at hmoved hboth ⊢
    refine ⟨_, ⟨first n.id, param⟩, _, rfl, hmoved, htuned,
      ⟨range, hrange, rfl, hboth.1, hboth.2⟩, rfl, fun d hd => ?_, .rampTo _ _ _ _⟩
    show (Rack.rampTo _ _ _ _).timeline? d = _
    unfold Rack.rampTo
    rw [Rack.timeline?_schedule_of_ne _ hd, Rack.timeline?_schedule_of_ne _ hd]

/-- A tone heard through a gain which a constant drives, and a gain that is not connected. -/
def drivenDocument : Document :=
  ⟨[⟨"tone", "Oscillator", .null⟩, ⟨"level", "Constant", .null⟩, ⟨"driven", "Gain", .null⟩,
      ⟨"loose", "Gain", .null⟩, ⟨"out", "Audio Output", .null⟩],
    [⟨"tone", "signal", "driven", "signal"⟩, ⟨"level", "value", "driven", "gain"⟩,
      ⟨"driven", "signal", "out", "signal"⟩], []⟩

/-- The document is imported and installed. -/
def drivenInstalled : List (Event Float) :=
  .call (.importDocument drivenDocument) :: List.replicate 5 .checkpoint

theorem keepsRate_drivenInstalled : ∀ e ∈ drivenInstalled, Event.KeepsRate e := by
  refine List.forall_mem_cons.mpr ⟨trivial, fun e he => ?_⟩
  rw [List.eq_of_mem_replicate he]
  trivial

def drivenGraph : Graph Float := drivenDocument.toGraph.1

theorem upstream_tone : drivenGraph.Upstream "tone" := by
  obtain ⟨sink, hsink, hid⟩ : ∃ n ∈ drivenGraph.sinks, n.id = "out" := by decide +kernel
  refine ⟨sink, hsink, .head (b := "driven") ?_ (.single (hid ▸ ?_))⟩ <;>
  · unfold Graph.Feeds
    decide +kernel

theorem not_upstream_loose : ¬drivenGraph.Upstream "loose" := by
  have hsinks : ∀ n ∈ drivenGraph.sinks, n.id ≠ "loose" := by decide +kernel
  have hsources : ∀ c ∈ drivenGraph.connections, c.source ≠ "loose" := by decide +kernel
  rintro ⟨sink, hsink, hpath⟩
  rcases hpath.cases_head with heq | ⟨_, ⟨c, hc, hsource, -⟩, -⟩
  · exact hsinks sink hsink heq.symm
  · exact hsources c hc hsource

/-- The gain that is driven is bypassed, the loose one is not built, and the tone, asked for a
frequency above half the rate, moves. -/
theorem updateLive_of_drivenInstalled : ∃ s, Session.new (Rack.new 48000.0) {} = .ok s ∧
    let now := (run ⟨s, none, false⟩ drivenInstalled).session
    now.updateLive "driven" "gain" 0.5 = .ok (.bypassed, now) ∧
    now.updateLive "loose" "gain" 0.5 = .ok (.notBuilt, now) ∧
    ∃ n c w dial after, now.updateLive "tone" "baseFreq" 30000.0 = .ok (.applied w, after) ∧
      now.Moves n c 30000.0 w dial after := by
  obtain ⟨s, hs⟩ : ∃ s, Session.new (Rack.new 48000.0) {} = .ok s := ⟨_, rfl⟩
  have hsettled : (run ⟨s, none, false⟩ drivenInstalled).session.graph = drivenGraph ∧
      (run ⟨s, none, false⟩ drivenInstalled).session.scheduler.state = .idle ∧
      ∃ report, (run ⟨s, none, false⟩ drivenInstalled).session.lastReport? = some report ∧
        ∃ summary, report.outcome = .ok summary := by
    cases hs
    exact ⟨rfl, rfl, _, rfl, _, rfl⟩
  obtain ⟨hgraph, hidle, hreport⟩ := hsettled
  have hlive := (updateLive_of_settled (by decide +kernel) hs keepsRate_drivenInstalled).1
    hidle hreport
  rw [hgraph] at hlive
  have hgain : (Control.number "gain" "Gain" (1.0 : Float)).alive ∈ Kind.gain.controls :=
    List.mem_singleton_self _
  have hfrequency : (Control.number "baseFreq" "Base Frequency" (440.0 : Float)).alive ∈
      Kind.oscillator.controls := List.mem_cons_self
  obtain ⟨⟨_, panel⟩, hdriven, rfl, hkind⟩ :
      ∃ n ∈ drivenGraph.nodes, n.id = "driven" ∧ n.kind = .gain := by decide +kernel
  obtain ⟨⟨_, panel'⟩, hloose, rfl, hkind'⟩ :
      ∃ n ∈ drivenGraph.nodes, n.id = "loose" ∧ n.kind = .gain := by decide +kernel
  obtain ⟨⟨_, panel''⟩, htone, rfl, hkind''⟩ :
      ∃ n ∈ drivenGraph.nodes, n.id = "tone" ∧ n.kind = .oscillator := by decide +kernel
  refine ⟨s, hs, ?_, ?_, ?_⟩
  · refine (hlive _ hdriven _ (hkind ▸ hgain) rfl 0.5 (by decide +kernel)).1 ?_
    exact (Graph.bypasses_mk hkind _).trans (by decide +kernel)
  · refine (hlive _ hloose _ (hkind' ▸ hgain) rfl 0.5 (by decide +kernel)).2.1 ?_ not_upstream_loose
    exact (Graph.bypasses_mk hkind' _).trans (by decide +kernel)
  · obtain ⟨w, dial, after, hmoved⟩ :=
      (hlive _ htone _ (hkind'' ▸ hfrequency) rfl 30000.0 (by decide +kernel)).2.2
        ((Graph.bypasses_mk hkind'' _).trans (by decide +kernel)) upstream_tone
    exact ⟨_, _, w, dial, after, hmoved⟩

end Observed

end Session

end Patchbay
