import Patchbay.Session.Rebuild
import Patchbay.Proofs.Except
/-!
# Histories of sessions

A session sees calls from outside and the checkpoints of its rebuilds, in any order whatever. What
is not in the session itself is recorded beside it: the graph that the last rebuild was begun with,
and whether a rebuild was ever asked for.

Every call either is quiet and changes nothing that rebuilds look at, or asks for a rebuild
(`quiet_or_asks`). Letting time pass comes to checkpoints and a change of the time
(`exists_events_advance`, `exists_events_settle`), so that nothing a session does is left out.
-/

namespace Patchbay.Session

variable {α : Type}

/-! ## What rebuilds look at -/

/-- The graphs have the same nodes, in the same places, and the same connections. -/
structure SameSound (g g' : Graph α) : Prop where
  nodes : g.nodes = g'.nodes
  places : g.places = g'.places
  connections : g.connections = g'.connections

theorem SameSound.refl (g : Graph α) : SameSound g g := ⟨rfl, rfl, rfl⟩

theorem SameSound.trans {g g' g'' : Graph α} (h : SameSound g g') (h' : SameSound g' g'') :
    SameSound g g'' :=
  ⟨h.nodes.trans h'.nodes, h.places.trans h'.places, h.connections.trans h'.connections⟩

/-- The course of rebuilds is as it was, and what is built into as well. -/
structure SameCourse (s s' : Session α) : Prop where
  pass : s'.pass = s.pass
  live : s'.live = s.live
  reports : s'.reports = s.reports
  master : s'.mixer.master = s.mixer.master
  noise : s'.mixer.noise = s.mixer.noise

/-- Nothing changed that rebuilds look at. -/
structure Quiet (s s' : Session α) : Prop where
  sound : SameSound s.graph s'.graph
  scheduler : s'.scheduler = s.scheduler
  course : SameCourse s s'

/-- A rebuild was asked for. -/
structure Asks (s s' : Session α) : Prop where
  scheduler : s'.scheduler = s.scheduler.request.2
  course : SameCourse s s'

theorem SameCourse.refl (s : Session α) : SameCourse s s := ⟨rfl, rfl, rfl, rfl, rfl⟩

theorem Quiet.refl (s : Session α) : Quiet s s := ⟨.refl _, rfl, .refl s⟩

theorem Quiet.of_comments {s : Session α} {g : Graph α} (h : SameSound s.graph g) :
    Quiet s { s with graph := g } :=
  ⟨h, rfl, ⟨rfl, rfl, rfl, rfl, rfl⟩⟩

theorem asks_withGraph (s : Session α) (g : Graph α) : Asks s (s.withGraph g) :=
  ⟨rfl, ⟨rfl, rfl, rfl, rfl, rfl⟩⟩

/-! ## Events -/

/-- A call of a session from outside. -/
inductive Call (α : Type) where
  | addNode (kind : Kind)
  | removeNode (id : NodeId)
  | connect (c : Connection)
  | disconnect (c : Connection)
  | setControl (id : NodeId) (key : String) (value : Control.Value α)
  | importDocument (d : Document)
  | setPlaying (on : Bool)
  | requestRebuild
  | addComment (text : String) (style : Comment.Style) (links : List NodeId)
  | removeComment (id : CommentId)
  | setCommentText (id : CommentId) (text : String)
  | updateLive (id : NodeId) (key : String) (value : α)
  | keyDown (code : String) (shift : Bool)
  | keyUp (code : String) (shift : Bool)
  /-- Anything at all is done to the rack. -/
  | changeRack (f : Rack α → Rack α)
  | setTime (time : Nat)

/-- A call, or the next thing that a rebuild does. -/
inductive Event (α : Type) where
  | call (c : Call α)
  | checkpoint

/-- A session with what happened to it. -/
structure Observed (α : Type) where
  session : Session α
  /-- The graph that the last rebuild was begun with. -/
  evaluated : Option (Graph α)
  /-- A rebuild was asked for. -/
  requested : Bool

variable [Scalar α]

/-- What a call that can be refused leaves. -/
def outcome {ε : Type} (s : Session α) (called : Except ε (Session α)) : Session α :=
  called.toOption.getD s

/-- The session after a call. -/
def call (s : Session α) : Call α → Session α
  | .addNode kind => (s.addNode kind).2
  | .removeNode id => s.outcome ((s.removeNode id).map (·.2))
  | .connect c => s.outcome (s.connect c)
  | .disconnect c => s.outcome (s.disconnect c)
  | .setControl id key value => s.outcome (s.setControl id key value)
  | .importDocument d => (s.importDocument d).2
  | .setPlaying on => s.setPlaying on
  | .requestRebuild => s.requestRebuild
  | .addComment text style links => (s.addComment text style links).2
  | .removeComment id => s.outcome ((s.removeComment id).map (·.2))
  | .setCommentText id text => s.outcome (s.setCommentText id text)
  | .updateLive id key value => s.outcome ((s.updateLive id key value).map (·.2))
  | .keyDown code shift => (s.keyDown code shift).2
  | .keyUp code shift => s.keyUp code shift
  | .changeRack f => s.mapRack f
  | .setTime time => { s with time }

namespace Observed

/-- What happens at an event. A call asks for a rebuild when the scheduler is not as before; the
checkpoint at which no rebuild is running begins one. -/
def step (o : Observed α) : Event α → Observed α
  | .call c =>
    { o with
      session := o.session.call c
      requested := o.requested || o.session.scheduler != (o.session.call c).scheduler }
  | .checkpoint =>
    match o.session.upcoming? with
    | none => o
    | some (_, session) =>
      { o with
        session
        evaluated := if o.session.pass.isNone then some o.session.graph else o.evaluated }

def run (o : Observed α) (events : List (Event α)) : Observed α := events.foldl step o

/-- Some events lead from a new session to this one. -/
def Reachable (o : Observed α) : Prop :=
  ∃ rack settings s events, Session.new rack settings = .ok s ∧ run ⟨s, none, false⟩ events = o

end Observed

/-! ## Two sorts of calls -/

omit [Scalar α] in
/-- A refused call is quiet. -/
theorem outcome_cases {ε : Type} {s : Session α} {called : Except ε (Session α)}
    (h : ∀ s', called = .ok s' → Quiet s s' ∨ Asks s s') :
    Quiet s (s.outcome called) ∨ Asks s (s.outcome called) := by
  cases called with
  | error e => exact Or.inl (.refl s)
  | ok s' => exact h s' rfl

/-- A live change touches the rack only. -/
theorem quiet_updateLive {s s' : Session α} {id : NodeId} {key : String} {value : α}
    {update : LiveUpdate α} (h : s.updateLive id key value = .ok (update, s')) : Quiet s s' := by
  unfold updateLive at h
  split at h
  next => cases h
  next =>
    obtain ⟨control, -, h⟩ := bind_eq_ok.mp h
    split at h
    next => cases h; exact .refl s
    next =>
      split at h
      next => cases h; exact .refl s
      next => cases h; exact ⟨.refl _, rfl, ⟨rfl, rfl, rfl, rfl, rfl⟩⟩

/-- A call changes nothing that rebuilds look at, or it asks for a rebuild. -/
theorem quiet_or_asks (s : Session α) (c : Call α) : Quiet s (s.call c) ∨ Asks s (s.call c) := by
  cases c with
  | addNode kind => exact Or.inr (asks_withGraph s _)
  | removeNode id =>
    refine outcome_cases fun s' h => ?_
    obtain ⟨⟨_, _⟩, hcalled, rfl⟩ := map_eq_ok.mp h
    obtain ⟨_, -, hcalled⟩ := bind_eq_ok.mp hcalled
    cases hcalled
    exact Or.inr (asks_withGraph s _)
  | connect c =>
    refine outcome_cases fun s' h => ?_
    obtain ⟨_, -, h⟩ := bind_eq_ok.mp h
    cases h
    exact Or.inr (asks_withGraph s _)
  | disconnect c =>
    refine outcome_cases fun s' h => ?_
    obtain ⟨_, -, h⟩ := bind_eq_ok.mp h
    cases h
    exact Or.inr (asks_withGraph s _)
  | setControl id key value =>
    refine outcome_cases fun s' h => ?_
    obtain ⟨_, -, h⟩ := bind_eq_ok.mp h
    cases h
    exact Or.inr (asks_withGraph s _)
  | importDocument d => exact Or.inr (asks_withGraph s _)
  | setPlaying on => exact Or.inr ⟨rfl, ⟨rfl, rfl, rfl, rfl, rfl⟩⟩
  | requestRebuild => exact Or.inr ⟨rfl, ⟨rfl, rfl, rfl, rfl, rfl⟩⟩
  | addComment text style links => exact Or.inl (.of_comments ⟨rfl, rfl, rfl⟩)
  | removeComment id =>
    refine outcome_cases fun s' h => ?_
    obtain ⟨⟨_, _⟩, hcalled, rfl⟩ := map_eq_ok.mp h
    obtain ⟨⟨_, g⟩, hg, hcalled⟩ := bind_eq_ok.mp hcalled
    cases hcalled
    refine Or.inl (.of_comments ?_)
    unfold Graph.removeComment at hg
    split at hg
    next => cases hg
    next => cases hg; exact ⟨rfl, rfl, rfl⟩
  | setCommentText id text =>
    refine outcome_cases fun s' h => ?_
    obtain ⟨g, hg, h⟩ := bind_eq_ok.mp h
    cases h
    refine Or.inl (.of_comments ?_)
    unfold Graph.setCommentText at hg
    split at hg
    next => cases hg; exact ⟨rfl, rfl, rfl⟩
    next => cases hg
  | updateLive id key value =>
    refine outcome_cases fun s' h => ?_
    obtain ⟨⟨_, _⟩, hcalled, rfl⟩ := map_eq_ok.mp h
    exact Or.inl (quiet_updateLive hcalled)
  | keyDown code shift => exact Or.inl ⟨.refl _, rfl, ⟨rfl, rfl, rfl, rfl, rfl⟩⟩
  | keyUp code shift => exact Or.inl ⟨.refl _, rfl, ⟨rfl, rfl, rfl, rfl, rfl⟩⟩
  | changeRack f => exact Or.inl ⟨.refl _, rfl, ⟨rfl, rfl, rfl, rfl, rfl⟩⟩
  | setTime time => exact Or.inl ⟨.refl _, rfl, ⟨rfl, rfl, rfl, rfl, rfl⟩⟩

/-- A call leaves the course of rebuilds as it is. -/
theorem sameCourse_call (s : Session α) (c : Call α) : SameCourse s (s.call c) := by
  rcases quiet_or_asks s c with hquiet | hasks
  · exact hquiet.course
  · exact hasks.course

/-! ## Letting time pass -/

theorem exists_events_runWithin (deadline : Option Nat) (steps : Nat) (o : Observed α) :
    ∃ events, (o.run events).session = o.session.runWithin deadline steps := by
  induction steps generalizing o with
  | zero => exact ⟨[], rfl⟩
  | succ steps ih =>
    unfold runWithin
    cases hupcoming : o.session.upcoming? with
    | none => exact ⟨[], rfl⟩
    | some next =>
      obtain ⟨due, s'⟩ := next
      dsimp only
      -- either the checkpoint is due after the deadline, or it comes first
      split
      next => exact ⟨[], rfl⟩
      next =>
        obtain ⟨events, hevents⟩ := ih (o.step .checkpoint)
        refine ⟨.checkpoint :: events, hevents.trans ?_⟩
        simp only [Observed.step, hupcoming]

/-- Letting time pass is a row of checkpoints and a new time. -/
theorem exists_events_advance (o : Observed α) (ms : Nat) :
    ∃ events, (o.run events).session = o.session.advance ms := by
  obtain ⟨events, hevents⟩ :=
    exists_events_runWithin (some (o.session.time + ms)) o.session.stepsLeft o
  refine ⟨events ++ [.call (.setTime (o.session.time + ms))], ?_⟩
  unfold Observed.run at hevents ⊢
  rw [List.foldl_append]
  show Session.call _ (.setTime _) = _
  rw [hevents]
  rfl

/-- Waiting until no rebuild is left is a row of checkpoints. -/
theorem exists_events_settle (o : Observed α) :
    ∃ events, (o.run events).session = o.session.settle :=
  exists_events_runWithin none o.session.stepsLeft o

end Patchbay.Session
