import Patchbay.Proofs.Graph.Reachable
import Patchbay.Proofs.Session.Ownership
/-!
# What a live change reaches

A live change looks its control up in the graph that is edited and its knob in what sounds, by the
name of the node in both. What sounds was built at some checkpoint of the history, from the graph of
that time, so the parameter that moves is that of the node which had the name then
(`Observed.applied_origin`). That node is of the kind of the node which has the name now, as long
as no edit since then removed the node or replaced the graph; after such an edit a live change
reaches the old node under the name of the new one (`Observed.applied_to_replaced`).
-/

namespace Patchbay

variable {α : Type} [Scalar α]

/-! ## Edits and names -/

namespace Graph

/-- The edit takes a name from the node that has it, or may give it to another. -/
def Edit.Replaces (id : NodeId) : Edit α → Prop
  | .removeNode removed => removed = id
  | .importDocument _ | .clear => True
  | _ => False

variable {g g' : Graph α} {id : NodeId} {k : Kind}

omit [Scalar α] in
theorem Has.of_nodes (h : g.Has id k) (hnodes : g'.nodes = g.nodes) : g'.Has id k := by
  unfold Has
  rw [hnodes]
  exact h

omit [Scalar α] in
theorem Has.insert (h : g.Has id k) {n : Node α} (hg : g.insert n = .ok g') : g'.Has id k := by
  unfold Graph.insert at hg
  split at hg
  next => cases hg
  next =>
    cases hg
    exact WellFormed.has_push.mpr (Or.inl h)

/-- A node keeps its name and its kind through every edit that does not replace it. -/
theorem Has.edit (h : g.Has id k) (hg : g.WellFormed) {e : Edit α} (he : ¬e.Replaces id) :
    (g.edit e).Has id k := by
  have hedited {ε : Type} {edited : Except ε (Graph α)}
      (hok : ∀ g', edited = .ok g' → g'.Has id k) : (g.outcome edited).Has id k :=
    outcome_induction (P := fun g => g.Has id k) h hok
  cases e with
  | addNode kind => exact WellFormed.has_push.mpr (Or.inl h)
  | addNodeNamed name kind => exact hedited fun g' hg' => h.insert hg'
  | insert node made => exact hedited fun g' hg' => h.insert hg'
  | removeNode removed =>
    refine hedited fun g' hg' => ?_
    obtain ⟨⟨n, _⟩, hremoved, rfl⟩ := map_eq_ok.mp hg'
    unfold Graph.removeNode at hremoved
    split at hremoved
    next => cases hremoved
    next place node hlocated =>
      cases hremoved
      -- names are given once, so the node that is taken out is of another name
      obtain ⟨hplace, rfl⟩ := hg.located?_eq_some_iff.mp hlocated
      exact WellFormed.mem_signatures_eraseIdx hplace (fun heq => he heq.symm) h
  | setControl name key value =>
    refine hedited fun g' hg' => ?_
    unfold Graph.setControl at hg'
    split at hg'
    next => cases hg'
    next place node hlocated =>
      split at hg'
      next => cases hg'
      next panel hpanel =>
        cases hg'
        obtain ⟨hplace, -⟩ := hg.located?_eq_some_iff.mp hlocated
        show (id, k) ∈ (g.nodes.set place _).map signature
        rw [WellFormed.signatures_set hplace hpanel]
        exact h
  | connect c => exact hedited fun g' hg' => h.of_nodes (nodes_connect hg')
  | disconnect c => exact hedited fun g' hg' => h.of_nodes (nodes_disconnect hg')
  | addComment text style links => exact h
  | insertComment c => exact h
  | removeComment name =>
    refine hedited fun g' hg' => ?_
    obtain ⟨⟨_, _⟩, hremoved, rfl⟩ := map_eq_ok.mp hg'
    exact h.of_nodes (nodes_removeComment hremoved)
  | setCommentText name text => exact hedited fun g' hg' => h.of_nodes (nodes_setCommentText hg')
  | clearComments => exact h
  | importDocument d => exact absurd trivial he
  | clear => exact absurd trivial he

end Graph

namespace Session

variable {s : Session α}

/-! ## The graph of a session -/

theorem graph_proceed (s : Session α) (pass : Pass α) : (s.proceed pass).graph = s.graph := by
  unfold Session.proceed discardLive
  split
  next =>
    split <;> rfl
  next => rfl
  next => rfl
  next => rfl

theorem graph_begin (s : Session α) : s.begin.graph = s.graph := by
  rcases s.begin_cases with ⟨fault, -, hbegin⟩ | ⟨patch, -, hbegin⟩
  · rw [hbegin]
    rfl
  · rw [hbegin]

/-- The call may change which node has a name. -/
def Event.Replaces (id : NodeId) : Event α → Prop
  | .call c => ∃ e ∈ c.edit?, e.Replaces id
  | .checkpoint => False

/-- Rebuilds leave the graph alone. -/
theorem graph_checkpoint (o : Observed α) :
    (o.step .checkpoint).session.graph = o.session.graph := by
  rcases o.checkpoint_cases with hsame | ⟨pass, -, hnext⟩ | ⟨-, -, hnext⟩
  · rw [hsame]
  · rw [hnext]
    exact graph_proceed _ pass
  · rw [hnext]
    exact graph_begin _

theorem sound_step [StandardsAccepted α] {o : Observed α} (h : o.session.graph.Sound)
    (e : Event α) : (o.step e).session.graph.Sound := by
  cases e with
  | call c =>
    show (o.session.call c).graph.Sound
    rw [graph_call]
    exact h.run _
  | checkpoint =>
    rw [graph_checkpoint]
    exact h

theorem has_step {o : Observed α} (hsound : o.session.graph.Sound) {id : NodeId} {k : Kind}
    (h : o.session.graph.Has id k) {e : Event α} (he : ¬e.Replaces id) :
    (o.step e).session.graph.Has id k := by
  cases e with
  | call c =>
    show (o.session.call c).graph.Has id k
    rw [graph_call]
    cases hedit : c.edit? with
    | none => exact h
    | some e => exact h.edit hsound.wellFormed fun hreplaces => he ⟨e, hedit, hreplaces⟩
  | checkpoint =>
    rw [graph_checkpoint]
    exact h

namespace Observed

theorem sound_run [StandardsAccepted α] {o : Observed α} (h : o.session.graph.Sound)
    (events : List (Event α)) : (o.run events).session.graph.Sound := by
  induction events generalizing o with
  | nil => exact h
  | cons e events ih => exact ih (sound_step h e)

/-- The graph of a session is always sound. -/
theorem sound_of_new [StandardsAccepted α] {rack : Rack α} {settings : Settings} {s : Session α}
    (hnew : Session.new rack settings = .ok s) (events : List (Event α)) :
    (run ⟨s, none, false⟩ events).session.graph.Sound := by
  obtain ⟨mixer, -, hmade⟩ := bind_eq_ok.mp hnew
  cases hmade
  exact sound_run (o := ⟨_, none, false⟩) .empty events

theorem has_run [StandardsAccepted α] {o : Observed α} (hsound : o.session.graph.Sound)
    {id : NodeId} {k : Kind} (h : o.session.graph.Has id k) {events : List (Event α)}
    (hevents : ∀ e ∈ events, ¬e.Replaces id) : (o.run events).session.graph.Has id k := by
  induction events generalizing o with
  | nil => exact h
  | cons e events ih =>
    refine ih (sound_step hsound e) ?_ fun e he => hevents e (List.mem_cons_of_mem _ he)
    exact has_step hsound h (hevents e List.mem_cons_self)

end Observed

/-! ## Where what sounds comes from -/

/-- The value that a live change moves a parameter to, if it moves any. -/
def moved? (s : Session α) (id : NodeId) (key : String) (value : α) : Option α :=
  match s.updateLive id key value with
  | .ok (.applied v, _) => some v
  | _ => none

theorem exists_of_moved? {id : NodeId} {key : String} {value v : α}
    (h : s.moved? id key value = some v) :
    ∃ s', s.updateLive id key value = .ok (.applied v, s') := by
  unfold moved? at h
  split at h
  next v' s' hmoved =>
    cases h
    exact ⟨s', hmoved⟩
  next => cases h

/-- A rebuild is due, and its graph can be built into the patch. -/
def Begins (s : Session α) (patch : Patch α) : Prop :=
  s.pass = none ∧ s.scheduler.isBusy = true ∧ (s.mixer.build s.graph .empty).1 = .ok patch

/-- What a rebuild has built and not yet installed. -/
def Stage.staged? : Stage α → Option (Staged α)
  | .discard staged | .install staged => some staged
  | .start _ | .finish _ => none

/-- What sounds has a property, and so has what waits to be installed. -/
structure Carries (P : Patch α → Prop) (s : Session α) : Prop where
  live : ∀ patch, s.live = some patch → P patch
  staged : ∀ pass staged, s.pass = some pass → pass.stage.staged? = some staged → P staged.patch

namespace Carries

variable {P Q : Patch α → Prop}

omit [Scalar α] in
theorem imp (h : Carries P s) (hPQ : ∀ patch, P patch → Q patch) : Carries Q s :=
  ⟨fun patch hlive => hPQ patch (h.live patch hlive),
    fun pass staged hpass hstaged => hPQ staged.patch (h.staged pass staged hpass hstaged)⟩

omit [Scalar α] in
theorem of_sameCourse {s' : Session α} (h : Carries P s) (hs : SameCourse s s') : Carries P s' :=
  ⟨fun patch hlive => h.live patch (hs.live ▸ hlive),
    fun pass staged hpass => h.staged pass staged (hs.pass ▸ hpass)⟩

theorem call (h : Carries P s) (c : Call α) : Carries P (s.call c) :=
  h.of_sameCourse (sameCourse_call s c)

theorem begin (h : Carries P s)
    (hP : ∀ patch, (s.mixer.build s.graph .empty).1 = .ok patch → P patch) :
    Carries P s.begin := by
  rcases s.begin_cases with ⟨fault, -, hbegin⟩ | ⟨patch, hpatch, hbegin⟩
  · rw [hbegin]
    exact ⟨h.live, fun pass staged hpass => by cases hpass⟩
  · rw [hbegin]
    refine ⟨h.live, fun pass staged hpass hstaged => ?_⟩
    cases hpass
    cases hstaged
    exact hP patch hpatch

/-- A patch is installed as it was built. -/
theorem proceed (h : Carries P s) {pass : Pass α} (hpass : s.pass = some pass) :
    Carries P (s.proceed pass) := by
  unfold Session.proceed
  split
  next staged hstage =>
    have hwaits : P staged.patch := h.staged pass staged hpass (by rw [hstage]; rfl)
    refine ⟨fun patch hlive => ?_, fun pass' staged' hnext hstaged => ?_⟩
    · unfold discardLive at hlive
      split at hlive
      next => cases hlive
      next => exact h.live patch hlive
    · cases hnext
      cases hstaged
      exact hwaits
  next staged hstage =>
    have hwaits : P staged.patch := h.staged pass staged hpass (by rw [hstage]; rfl)
    refine ⟨fun patch hlive => ?_, fun pass' staged' hnext hstaged => ?_⟩
    · cases hlive
      exact hwaits
    · cases hnext
      cases hstaged
  next =>
    refine ⟨h.live, fun pass' staged' hnext hstaged => ?_⟩
    cases hnext
    cases hstaged
  next => exact ⟨h.live, fun pass' staged' hnext => by cases hnext⟩

end Carries

namespace Observed

/-- At a checkpoint of the history a rebuild began and built the patch. -/
def Builds (o : Observed α) (events : List (Event α)) (patch : Patch α) : Prop :=
  ∃ before after, events = before ++ .checkpoint :: after ∧ (o.run before).session.Begins patch

theorem Builds.concat {o : Observed α} {events : List (Event α)} {patch : Patch α}
    (h : o.Builds events patch) (e : Event α) : o.Builds (events ++ [e]) patch := by
  obtain ⟨before, after, rfl, hbegins⟩ := h
  exact ⟨before, after ++ [e], List.append_assoc _ _ _, hbegins⟩

theorem run_concat (o : Observed α) (events : List (Event α)) (e : Event α) :
    o.run (events ++ [e]) = (o.run events).step e :=
  List.foldl_concat _ _ _ _

/-- What sounds and what waits were built in the course of the history. -/
theorem carries_run {o : Observed α} (hlive : o.session.live = none) (hpass : o.session.pass = none)
    (events : List (Event α)) : Carries (o.Builds events) (o.run events).session := by
  -- the origin of a patch is a prefix of the history, so the history grows at its end
  induction events using List.reverseRecOn with
  | nil =>
    refine ⟨fun patch hsome => ?_, fun pass staged hsome => ?_⟩
    · cases hlive.symm.trans hsome
    · cases hpass.symm.trans hsome
  | append_singleton events e ih =>
    have hmore := ih.imp fun patch hbuilds => hbuilds.concat e
    rw [run_concat]
    cases e with
    | call c => exact hmore.call c
    | checkpoint =>
      rcases (o.run events).checkpoint_cases with hsame | ⟨pass, hrunning, hnext⟩ |
        ⟨hnone, hbusy, hnext⟩
      · rw [hsame]
        exact hmore
      · have htime : Carries (o.Builds (events ++ [.checkpoint]))
            { (o.run events).session with time := pass.due } :=
          hmore.of_sameCourse ⟨rfl, rfl, rfl, rfl, rfl⟩
        rw [hnext]
        exact htime.proceed hrunning
      · rw [hnext]
        exact hmore.begin fun patch hpatch => ⟨events, [], rfl, hnone, hbusy, hpatch⟩

theorem run_append (o : Observed α) (events more : List (Event α)) :
    o.run (events ++ more) = (o.run events).run more :=
  List.foldl_append

/-- A live change that is applied moves a knob of what sounds. What sounds was built at a checkpoint
of the history, and the knob is on the part of the node which had the name then; its primitive is
not released. Unless the node was removed since then, or the graph replaced, the node that has the
name now is of the same kind. -/
theorem applied_origin [StandardsAccepted α] {rack : Rack α} {settings : Settings} {s : Session α}
    {events : List (Event α)} (hrack : rack.primitives = #[])
    (hnew : Session.new rack settings = .ok s) (hspares : ∀ e ∈ events, Event.Spares e)
    {id : NodeId} {key : String} {value v : α} {s' : Session α}
    (h : (run ⟨s, none, false⟩ events).session.updateLive id key value = .ok (.applied v, s')) :
    ∃ before after, events = before ++ .checkpoint :: after ∧
    ∃ patch, (run ⟨s, none, false⟩ before).session.Begins patch ∧
      (run ⟨s, none, false⟩ events).session.live = some patch ∧
    ∃ n part knob, (run ⟨s, none, false⟩ before).session.graph.node? id = some n ∧
      (id, part) ∈ patch.parts ∧ knob ∈ part.knobs ∧
      part.BuiltFor (run ⟨s, none, false⟩ before).session.mixer.rack.primitives.size
        patch.primitives n ∧
      knob.dial.primitive ∈ (run ⟨s, none, false⟩ events).session.mixer.rack.unreleased ∧
      s' = (run ⟨s, none, false⟩ events).session.mapRack (·.rampTo knob.dial v
        (Scalar.ofMilliseconds (run ⟨s, none, false⟩ events).session.settings.ramp)) ∧
      ((∀ e ∈ after, ¬e.Replaces id) →
        ∃ m, (run ⟨s, none, false⟩ events).session.graph.node? id = some m ∧ m.kind = n.kind) := by
  rcases updateLive_cases h with ⟨-, hnot⟩ | ⟨-, knob, w, -, hknob, happlied, hmoved⟩
  · exact absurd rfl (hnot v)
  cases happlied
  obtain ⟨patch, part, hlive, hpart, hmem⟩ := exists_part_of_knob? hknob
  have hempty : s.live = none ∧ s.pass = none := by
    obtain ⟨mixer, -, hmade⟩ := bind_eq_ok.mp hnew
    cases hmade
    exact ⟨rfl, rfl⟩
  -- what sounds was built of the graph that there was at some checkpoint
  obtain ⟨before, after, hevents, hbegins⟩ :=
    (carries_run (o := ⟨s, none, false⟩) hempty.1 hempty.2 events).live patch hlive
  obtain ⟨-, -, hparts, -⟩ := Graph.patch_of_build hbegins.2.2
  obtain ⟨n, hn, hid, hbuilt⟩ := hparts _ hpart
  obtain rfl : n.id = id := hid
  have hnode := (sound_of_new hnew before).wellFormed.node?_eq_some_iff.mpr ⟨hn, rfl⟩
  refine ⟨before, after, hevents, patch, hbegins, hlive, n, part, knob, hnode, hpart, hmem, hbuilt,
    ?_, hmoved, fun hkept => ?_⟩
  · have howned : Owned (run ⟨s, none, false⟩ events).session :=
      Undisturbed.owned ⟨rack, settings, s, events, hrack, hnew, hspares, rfl⟩
    rw [howned.unreleased, ownedIds, liveIds_eq_of_some hlive]
    exact List.mem_append_left _ (List.mem_append_right _ (hbuilt.dial_of_mem_knobs hmem).2)
  · have hlater : (run ⟨s, none, false⟩ events).session.graph.Has n.id n.kind := by
      rw [hevents, run_append]
      refine has_run (sound_of_new hnew before) (Graph.has_of_mem hn)
        (List.forall_mem_cons.mpr ⟨?_, hkept⟩)
      exact not_false
    obtain ⟨m, hm, hid, hkind⟩ := Graph.has_iff.mp hlater
    exact ⟨m, (sound_of_new hnew events).wellFormed.node?_eq_some_iff.mpr ⟨hm, hid⟩, hkind⟩

/-- A gain that is heard, named "a". -/
def gainDocument : Document :=
  ⟨[⟨"a", "Gain", .null⟩, ⟨"out", "Audio Output", .null⟩], [⟨"a", "signal", "out", "signal"⟩], []⟩

/-- An output, named "a". -/
def outputDocument : Document := ⟨[⟨"a", "Universal Output", .null⟩], [], []⟩

/-- The gain is imported and installed. -/
def gainInstalled : List (Event Float) :=
  .call (.importDocument gainDocument) :: List.replicate 5 .checkpoint

/-- The gain is imported and installed, and then the output is imported in its place. -/
def gainThenOutput : List (Event Float) := gainInstalled ++ [.call (.importDocument outputDocument)]

theorem spares_gainInstalled : ∀ e ∈ gainInstalled, Event.Spares e :=
  List.forall_mem_cons.mpr ⟨trivial, Event.spares_checkpoints 5⟩

/-- While nothing is edited a live change moves the gain that is heard. -/
theorem applied_gainInstalled : ∃ s s', Session.new (Rack.new 48000.0) {} = .ok s ∧
    (run ⟨s, none, false⟩ gainInstalled).session.updateLive "a" "gain" 0.5 =
      .ok (.applied 0.5, s') ∧
    ∃ knob : Knob Float,
      knob.dial.primitive ∈ (run ⟨s, none, false⟩ gainInstalled).session.mixer.rack.unreleased ∧
      s' = (run ⟨s, none, false⟩ gainInstalled).session.mapRack
        (·.rampTo knob.dial 0.5 (Scalar.ofMilliseconds
          (run ⟨s, none, false⟩ gainInstalled).session.settings.ramp)) := by
  obtain ⟨s, hs⟩ : ∃ s, Session.new (Rack.new 48000.0) {} = .ok s := ⟨_, rfl⟩
  have hmoved : (run ⟨s, none, false⟩ gainInstalled).session.moved? "a" "gain" 0.5 = some 0.5 := by
    cases hs
    decide +kernel
  obtain ⟨s', hs'⟩ := exists_of_moved? hmoved
  obtain ⟨-, -, -, -, -, -, -, -, knob, -, -, -, -, halive, hramp, -⟩ :=
    applied_origin rfl hs spares_gainInstalled hs'
  exact ⟨s, s', hs, hs', knob, halive, hramp⟩

/-- At every checkpoint of this history the node named "a" was the gain, and at the end it is the
output: a live change of the output moves the gain. -/
theorem applied_to_replaced : ∃ s s', Session.new (Rack.new 48000.0) {} = .ok s ∧
    (∀ e ∈ gainThenOutput, Event.Spares e) ∧
    (run ⟨s, none, false⟩ gainThenOutput).session.updateLive "a" "gain" 0.5 =
      .ok (.applied 0.5, s') ∧
    ((run ⟨s, none, false⟩ gainThenOutput).session.graph.node? "a").map (·.kind) =
      some .universalOutput ∧
    ∀ before after, gainThenOutput = before ++ .checkpoint :: after →
      ((run ⟨s, none, false⟩ before).session.graph.node? "a").map (·.kind) = some .gain := by
  obtain ⟨s, hs⟩ : ∃ s, Session.new (Rack.new 48000.0) {} = .ok s := ⟨_, rfl⟩
  have hmoved : (run ⟨s, none, false⟩ gainThenOutput).session.moved? "a" "gain" 0.5 = some 0.5 := by
    cases hs
    decide +kernel
  have hnow : ((run ⟨s, none, false⟩ gainThenOutput).session.graph.node? "a").map (·.kind) =
      some .universalOutput := by
    cases hs
    decide +kernel
  have hthen : ∀ i < 6, i ≠ 0 →
      ((run ⟨s, none, false⟩ (gainThenOutput.take i)).session.graph.node? "a").map (·.kind) =
        some .gain := by
    cases hs
    decide +kernel
  obtain ⟨s', hs'⟩ := exists_of_moved? hmoved
  refine ⟨s, s', hs, ?_, hs', hnow, fun before after heq => ?_⟩
  · refine List.forall_mem_append.mpr ⟨spares_gainInstalled, ?_⟩
    exact List.forall_mem_singleton.mpr trivial
  · -- a checkpoint is neither the first event nor the last
    have hlength : before.length + (after.length + 1) = 7 := by
      have hlengths := congrArg List.length heq
      rw [List.length_append, List.length_cons] at hlengths
      exact hlengths.symm
    have hfirst : before.length ≠ 0 := by
      intro hzero
      rw [List.length_eq_zero_iff.mp hzero] at heq
      cases heq
    have hlast : after.length ≠ 0 := by
      intro hzero
      rw [List.length_eq_zero_iff.mp hzero] at heq
      cases List.append_inj_right' heq rfl
    have htake : gainThenOutput.take before.length = before := by rw [heq, List.take_left]
    rw [← htake]
    exact hthen before.length (by omega) hfirst

end Observed

end Session

end Patchbay
