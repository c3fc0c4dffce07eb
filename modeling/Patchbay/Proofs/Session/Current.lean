import Patchbay.Proofs.Session.History
/-!
# No edit is lost

A rebuild takes its time, and the graph may be edited at any point of it. Still, whenever no rebuild
is running or asked for, the last one was begun with the nodes and connections that the graph has
now; and so it is while one is running, as long as no other must follow it
(`Observed.evaluated_current`). The reason is that every edit that can be heard asks for a rebuild,
and that a request while one is running is remembered until it ends.

The invariant (`Current`) also follows what is built: from the graph that a rebuild was begun with
to the patch that waits, and on to what sounds. What is built depends on the nodes and connections
only (`SameSound.build_eq`), so that after a rebuild that succeeded the current graph is what
sounds.
-/

namespace Patchbay

variable {α : Type} [Scalar α]

theorem Mixer.master_fadeOut (m : Mixer α) (ramp : α) : (m.fadeOut ramp).2.master = m.master := by
  unfold fadeOut
  split <;> rfl

theorem Mixer.noise_fadeOut (m : Mixer α) (ramp : α) : (m.fadeOut ramp).2.noise = m.noise := by
  unfold fadeOut
  split <;> rfl

namespace Session

/-! ## What a patch is built from -/

theorem SameSound.resolve_eq {g g' : Graph α} (h : SameSound g g') (master : PrimitiveId)
    (noise : Noise.Source α) (depth : Nat) :
    Assembly.resolve g master noise depth = Assembly.resolve g' master noise depth := by
  -- the two graphs differ only in fields that are never looked at
  obtain ⟨nodes, places, connections, _, _, _⟩ := g
  obtain ⟨_, _, _, _, _, _⟩ := g'
  obtain ⟨rfl, rfl, rfl⟩ := h
  induction depth with
  | zero => rfl
  | succ depth ih =>
    funext path node a
    unfold Assembly.resolve
    rw [ih]
    rfl

/-- What is built depends on the nodes and connections only. -/
theorem SameSound.build_eq {g g' : Graph α} (h : SameSound g g') (master : PrimitiveId)
    (noise : Noise.Source α) (rack : Rack α) (voicing : Voicing α) :
    g.build master noise rack voicing = g'.build master noise rack voicing := by
  have hsinks (depth : Nat) (a : Assembly α) :
      Assembly.resolveSinks g master noise depth a =
        Assembly.resolveSinks g' master noise depth a := by
    unfold Assembly.resolveSinks Graph.sinks
    rw [h.nodes, h.resolve_eq]
  have hfinish (a : Assembly α) : a.finish g = a.finish g' := by
    unfold Assembly.finish
    rw [h.nodes]
  unfold Graph.build Graph.buildWithin
  simp only [hsinks, hfinish, h.nodes]

/-- The patch is what a graph is built into for the session's master chain. -/
def BuiltFrom (s : Session α) (g : Graph α) (patch : Patch α) : Prop :=
  ∃ rack, (g.build s.mixer.master s.mixer.noise rack .empty).outcome = .ok patch

/-- What sounds is what a graph is built into. -/
def Sounds (s : Session α) (g : Graph α) : Prop :=
  ∃ patch, s.live = some patch ∧ s.BuiltFrom g patch

/-- As far as a rebuild has come, it goes on with what its graph is built into. -/
def Stage.Follows (s : Session α) (g : Graph α) : Stage α → Prop
  | .discard staged | .install staged => s.BuiltFrom g staged.patch
  | .start _ | .finish _ => s.Sounds g

theorem SameSound.builtFrom {s : Session α} {g g' : Graph α} {patch : Patch α}
    (h : SameSound g g') (hbuilt : s.BuiltFrom g patch) : s.BuiltFrom g' patch := by
  obtain ⟨rack, hrack⟩ := hbuilt
  exact ⟨rack, h.build_eq _ _ _ _ ▸ hrack⟩

theorem SameSound.sounds {s : Session α} {g g' : Graph α} (h : SameSound g g')
    (hs : s.Sounds g) : s.Sounds g' := by
  obtain ⟨patch, hlive, hbuilt⟩ := hs
  exact ⟨patch, hlive, h.builtFrom hbuilt⟩

namespace SameCourse

variable {s s' : Session α} {g : Graph α}

theorem builtFrom {patch : Patch α} (h : SameCourse s s') (hbuilt : s.BuiltFrom g patch) :
    s'.BuiltFrom g patch := by
  obtain ⟨rack, hrack⟩ := hbuilt
  exact ⟨rack, by rw [h.master, h.noise]; exact hrack⟩

theorem sounds (h : SameCourse s s') (hs : s.Sounds g) : s'.Sounds g := by
  obtain ⟨patch, hlive, hbuilt⟩ := hs
  exact ⟨patch, h.live.trans hlive, h.builtFrom hbuilt⟩

theorem follows {stage : Stage α} (h : SameCourse s s') (hs : stage.Follows s g) :
    stage.Follows s' g := by
  cases stage with
  | discard staged => exact h.builtFrom hs
  | install staged => exact h.builtFrom hs
  | start summary => exact h.sounds hs
  | finish summary => exact h.sounds hs

end SameCourse

/-! ## The invariant -/

/-- The last rebuild was begun with a graph that sounds the same as the current one. -/
def Observed.UpToDate (o : Observed α) (g : Graph α) : Prop :=
  o.evaluated = some g ∧ SameSound g o.session.graph

/-- What holds of a session at any time. -/
structure Current (o : Observed α) : Prop where
  /-- No rebuild runs without the scheduler knowing. -/
  idle : o.session.scheduler.state = .idle → o.session.pass = none
  /-- When all is done, the current graph was evaluated, and sounds if it could be built. -/
  settled : o.session.scheduler.state = .idle → o.requested = true →
    ∃ g, o.UpToDate g ∧ ∃ report, o.session.lastReport? = some report ∧
      report.pass = o.session.scheduler.passes ∧
      ∀ summary, report.outcome = .ok summary → o.session.Sounds g
  /-- A rebuild that no other must follow evaluated the current graph. -/
  running : o.session.scheduler.state = .rebuilding → o.session.pass.isSome →
    ∃ g, o.UpToDate g
  /-- A running rebuild goes on with what it evaluated. -/
  follows : ∀ pass, o.session.pass = some pass → pass.number = o.session.scheduler.passes ∧
    ∃ g, o.evaluated = some g ∧ pass.stage.Follows o.session g

namespace Current

variable {o : Observed α}

theorem new {s : Session α} {rack : Rack α} {settings : Settings}
    (h : Session.new rack settings = .ok s) : Current ⟨s, none, false⟩ := by
  obtain ⟨mixer, -, h⟩ := bind_eq_ok.mp h
  cases h
  refine ⟨fun _ => rfl, fun _ hrequested => ?_, fun hrebuilding => ?_, fun pass hpass => ?_⟩
  · cases hrequested
  · cases hrebuilding
  · cases hpass

/-- A quiet call leaves the scheduler, the rebuild and what sounds as they are. -/
theorem quiet (h : Current o) {s : Session α} (hs : Quiet o.session s) :
    Current { o with session := s } := by
  refine ⟨fun hidle => ?_, fun hidle hrequested => ?_, fun hstate hpass => ?_, fun pass hpass => ?_⟩
  · exact hs.course.pass.trans (h.idle (hs.scheduler ▸ hidle))
  · obtain ⟨g, ⟨hg, hsame⟩, report, hreport, hnumber, hok⟩ :=
      h.settled (hs.scheduler ▸ hidle) hrequested
    refine ⟨g, ⟨hg, hsame.trans hs.sound⟩, report, ?_, hnumber.trans (by rw [hs.scheduler]),
      fun summary hsummary => hs.course.sounds (hok summary hsummary)⟩
    unfold lastReport? at hreport ⊢
    rw [hs.course.reports]
    exact hreport
  · obtain ⟨g, hg, hsame⟩ := h.running (hs.scheduler ▸ hstate) (hs.course.pass ▸ hpass)
    exact ⟨g, hg, hsame.trans hs.sound⟩
  · obtain ⟨hnumber, g, hg, hfollows⟩ := h.follows pass (hs.course.pass ▸ hpass)
    exact ⟨hnumber.trans (by rw [hs.scheduler]), g, hg, hs.course.follows hfollows⟩

/-- After a request a rebuild is due: the first, or one that must follow the one that is running. -/
theorem asks (h : Current o) {s : Session α} (hs : Asks o.session s) (requested : Bool) :
    Current ⟨s, o.evaluated, requested⟩ := by
  have hpass := hs.course.pass
  have hscheduler := hs.scheduler
  unfold Scheduler.request at hscheduler
  cases hstate : o.session.scheduler.state with
  | idle =>
    -- a rebuild is due that has not begun, so there is nothing it has evaluated
    rw [hstate] at hscheduler
    rw [h.idle hstate] at hpass
    refine ⟨fun _ => hpass, fun hidle => ?_, fun _ hsome => ?_, fun pass hsome => ?_⟩
    · rw [hscheduler] at hidle
      cases hidle
    · rw [hpass] at hsome
      cases hsome
    · rw [hpass] at hsome
      cases hsome
  | rebuilding | pending =>
    -- one rebuild goes on, and the request is kept for another that follows it
    rw [hstate] at hscheduler
    refine ⟨fun hidle => ?_, fun hidle => ?_, fun hrebuilding => ?_, fun pass hsome => ?_⟩
    · rw [hscheduler] at hidle
      cases hidle
    · rw [hscheduler] at hidle
      cases hidle
    · rw [hscheduler] at hrebuilding
      cases hrebuilding
    · obtain ⟨hnumber, g, hg, hfollows⟩ := h.follows pass (hpass ▸ hsome)
      exact ⟨hnumber.trans (by rw [hscheduler]), g, hg, hs.course.follows hfollows⟩

/-- When a rebuild ends, either all is done or another rebuild follows that has not begun. -/
theorem conclude {s : Session α} {g : Graph α} {outcome : Except Patch.Fault Summary}
    (hbusy : s.scheduler.state ≠ .idle)
    (hsame : s.scheduler.state = .rebuilding → SameSound g s.graph)
    (hsounds : ∀ summary, outcome = .ok summary → s.Sounds g) (requested : Bool) :
    Current ⟨s.conclude s.scheduler.passes outcome, some g, requested⟩ := by
  have hcomplete : (s.conclude s.scheduler.passes outcome).scheduler = s.scheduler.complete.2 := rfl
  unfold Scheduler.complete at hcomplete
  cases hstate : s.scheduler.state with
  | idle => exact absurd hstate hbusy
  | rebuilding =>
    rw [hstate] at hcomplete
    refine ⟨fun _ => rfl, fun _ _ => ?_, fun _ hsome => ?_, fun pass hsome => ?_⟩
    · refine ⟨g, ⟨rfl, hsame hstate⟩, ⟨s.scheduler.passes, outcome⟩, List.getLast?_concat, ?_,
        hsounds⟩
      show s.scheduler.passes = (s.conclude s.scheduler.passes outcome).scheduler.passes
      rw [hcomplete]
    · cases hsome
    · cases hsome
  | pending =>
    -- the scheduler is busy again, and no rebuild has begun
    rw [hstate] at hcomplete
    refine ⟨fun _ => rfl, fun hidle => ?_, fun _ hsome => ?_, fun pass hsome => ?_⟩
    · rw [hcomplete] at hidle
      cases hidle
    · cases hsome
    · cases hsome

/-- When a rebuild goes on to its next stage, nothing else changes for the invariant. -/
theorem next (h : Current o) {pass : Pass α} (hpass : o.session.pass = some pass) {s : Session α}
    (hgraph : s.graph = o.session.graph) (hscheduler : s.scheduler = o.session.scheduler)
    {stage : Stage α} {delay : Nat}
    (hfollows : ∀ g, pass.stage.Follows o.session g → stage.Follows s g) :
    Current { o with session := s.next pass stage delay } := by
  have hbusy : s.scheduler.state ≠ .idle := by
    intro hidle
    rw [h.idle (hscheduler ▸ hidle)] at hpass
    cases hpass
  refine ⟨fun hidle => absurd hidle hbusy, fun hidle => absurd hidle hbusy, fun hrebuilding _ => ?_,
    fun pass' hsome => ?_⟩
  · obtain ⟨g, hg, hsame⟩ := h.running (hscheduler ▸ hrebuilding) (by rw [hpass]; rfl)
    refine ⟨g, hg, ?_⟩
    show SameSound g s.graph
    exact hgraph ▸ hsame
  · cases hsome
    obtain ⟨hnumber, g, hg, hbefore⟩ := h.follows pass hpass
    refine ⟨hnumber.trans ?_, g, hg, ?_⟩
    · show _ = s.scheduler.passes
      rw [hscheduler]
    · exact hfollows g hbefore

/-- A rebuild begins with the current graph. -/
theorem begin {s : Session α} (hbusy : s.scheduler.state ≠ .idle) (requested : Bool) :
    Current ⟨s.begin, some s.graph, requested⟩ := by
  unfold Session.begin Mixer.build
  dsimp only
  cases houtcome : (s.graph.build s.mixer.master s.mixer.noise s.mixer.rack .empty).outcome with
  | error fault =>
    have hnot : ∀ {s' : Session α} summary,
        (.error fault : Except Patch.Fault Summary) = .ok summary → s'.Sounds s.graph :=
      fun _ hok => by cases hok
    exact Current.conclude (s := { s with
      mixer := { s.mixer with
        rack := (s.graph.build s.mixer.master s.mixer.noise s.mixer.rack .empty).rack } })
      hbusy (fun _ => .refl _) hnot requested
  | ok patch =>
    refine ⟨fun hidle => absurd hidle hbusy, fun hidle => absurd hidle hbusy,
      fun _ _ => ⟨s.graph, rfl, .refl _⟩, fun pass hpass => ?_⟩
    cases hpass
    refine ⟨rfl, s.graph, rfl, s.mixer.rack, ?_⟩
    show (s.graph.build (Mixer.fadeOut _ _).2.master (Mixer.fadeOut _ _).2.noise _ _).outcome = _
    rw [Mixer.master_fadeOut, Mixer.noise_fadeOut]
    exact houtcome

/-- A running rebuild goes on: the patch is kept until it is installed, and then sounds. -/
theorem proceed (h : Current o) {pass : Pass α} (hpass : o.session.pass = some pass) :
    Current { o with session := o.session.proceed pass } := by
  have hbusy : o.session.scheduler.state ≠ .idle := by
    intro hidle
    rw [h.idle hidle] at hpass
    cases hpass
  obtain ⟨hnumber, g, hg, hfollows⟩ := h.follows pass hpass
  obtain ⟨number, stage, due⟩ := pass
  cases stage with
  | discard staged =>
    refine h.next hpass ?_ ?_ fun g hbuilt => ?_
    · unfold discardLive
      split <;> rfl
    · unfold discardLive
      split <;> rfl
    · obtain ⟨rack, hrack⟩ := hbuilt
      refine ⟨rack, ?_⟩
      unfold discardLive
      split <;> exact hrack
  | install staged =>
    have hinstalled : ∀ g, o.session.BuiltFrom g staged.patch →
        (o.session.install staged).Sounds g := fun g hbuilt => ⟨staged.patch, rfl, hbuilt⟩
    exact h.next (s := o.session.install staged) hpass rfl rfl hinstalled
  | start summary =>
    exact h.next (s := { o.session with
      mixer := o.session.mixer.fadeIn (seconds o.session.settings.fade) }) hpass rfl rfl
      fun _ hsounds => hsounds
  | finish summary =>
    obtain rfl : number = o.session.scheduler.passes := hnumber
    have hsame : o.session.scheduler.state = .rebuilding → SameSound g o.session.graph := by
      intro hrebuilding
      obtain ⟨g', hg', hsame⟩ := h.running hrebuilding (by rw [hpass]; rfl)
      rw [hg] at hg'
      cases hg'
      exact hsame
    rw [hg]
    exact Current.conclude hbusy hsame (fun _ _ => hfollows) o.requested

/-- Every event keeps the invariant. -/
theorem step (h : Current o) (e : Event α) : Current (o.step e) := by
  cases e with
  | call c =>
    rcases quiet_or_asks o.session c with hquiet | hasks
    · have hsame : (o.session.scheduler != (o.session.call c).scheduler) = false := by
        rw [hquiet.scheduler]
        exact bne_self_eq_false _
      simp only [Observed.step, hsame, Bool.or_false]
      exact h.quiet hquiet
    · exact h.asks hasks _
  | checkpoint =>
    cases hpass : o.session.pass with
    | some pass =>
      have htime : Current { o with session := { o.session with time := pass.due } } :=
        h.quiet ⟨.refl _, rfl, ⟨rfl, rfl, rfl, rfl, rfl⟩⟩
      have hstep := htime.proceed hpass
      simpa [Observed.step, upcoming?, hpass] using hstep
    | none =>
      cases hbusy : o.session.scheduler.isBusy with
      | false => simpa [Observed.step, upcoming?, hpass, hbusy] using h
      | true =>
        have hstate : o.session.scheduler.state ≠ .idle := by simpa [Scheduler.isBusy] using hbusy
        simpa [Observed.step, upcoming?, hpass, hbusy] using begin hstate o.requested

theorem run (h : Current o) (events : List (Event α)) : Current (o.run events) := by
  induction events generalizing o with
  | nil => exact h
  | cons e events ih => exact ih (h.step e)

end Current

theorem Observed.Reachable.current {o : Observed α} (h : o.Reachable) : Current o := by
  obtain ⟨rack, settings, s, events, hnew, rfl⟩ := h
  exact (Current.new hnew).run events

/-- At any time in any history: when no rebuild is running or asked for and one ever was, the last
was begun with the nodes and connections of the current graph; a rebuild that is running and that no
other must follow was begun with them too; and when all is done and the last rebuild, which is the
last that was reported, succeeded, what sounds is what the current graph is built into. -/
theorem Observed.evaluated_current {o : Observed α} (h : o.Reachable) :
    (o.session.scheduler.state = .idle → o.requested = true →
      ∃ g, o.evaluated = some g ∧ g.nodes = o.session.graph.nodes ∧
        g.connections = o.session.graph.connections) ∧
    (o.session.scheduler.state = .rebuilding → o.session.pass.isSome →
      ∃ g, o.evaluated = some g ∧ g.nodes = o.session.graph.nodes ∧
        g.connections = o.session.graph.connections) ∧
    (o.session.scheduler.state = .idle → o.requested = true →
      ∃ report, o.session.lastReport? = some report ∧
        report.pass = o.session.scheduler.passes ∧
        ∀ summary, report.outcome = .ok summary →
          ∃ patch, o.session.live = some patch ∧
            ∃ rack, (o.session.graph.build o.session.mixer.master o.session.mixer.noise rack
              .empty).outcome = .ok patch) := by
  have hcurrent := h.current
  refine ⟨fun hidle hrequested => ?_, fun hrebuilding hpass => ?_, fun hidle hrequested => ?_⟩
  · obtain ⟨g, ⟨hg, hsame⟩, -⟩ := hcurrent.settled hidle hrequested
    exact ⟨g, hg, hsame.nodes, hsame.connections⟩
  · obtain ⟨g, hg, hsame⟩ := hcurrent.running hrebuilding hpass
    exact ⟨g, hg, hsame.nodes, hsame.connections⟩
  · obtain ⟨g, ⟨-, hsame⟩, report, hreport, hnumber, hok⟩ := hcurrent.settled hidle hrequested
    exact ⟨report, hreport, hnumber, fun summary hsummary => hsame.sounds (hok summary hsummary)⟩

/-- An output is added, and while the rebuild for it is running a tone that it plays; then both
rebuilds come to their end. -/
def editedTwice (s : Session Float) : Observed Float :=
  Observed.run ⟨s, none, false⟩ <|
    [.call (.addNode .universalOutput), .checkpoint, .checkpoint, .call (.addNode .oscillator),
      .call (.connect ⟨"n2", "signal", "n1", "signal"⟩)] ++ List.replicate 8 .checkpoint

theorem current_editedTwice : ∃ s, Session.new (Rack.new 48000.0) {} = .ok s ∧
    (editedTwice s).session.scheduler.state = .idle ∧
    ∃ g, (editedTwice s).evaluated = some g ∧ g.nodes = (editedTwice s).session.graph.nodes ∧
      g.connections = (editedTwice s).session.graph.connections := by
  refine ⟨_, rfl, ?_, (Observed.evaluated_current ⟨Rack.new 48000.0, {}, _, _, rfl, rfl⟩).1 ?_ ?_⟩
  · decide +kernel
  · decide +kernel
  · decide +kernel

end Session

end Patchbay
