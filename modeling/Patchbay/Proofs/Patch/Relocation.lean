import Patchbay.Proofs.Patch.Atomic
import Patchbay.Proofs.Patch.Moved
import Patchbay.Proofs.Patch.Upstream
/-!
# Building on another rack

A rack gives each new primitive the next place, and building asks nothing of a rack but its time,
its sampling rate, what it refuses and how many primitives it holds. So the same graph, built on
another rack where these agree but for the number, comes to the same, with all places shifted
(`Graph.build_move`): the same fault, or the same patch, primitives and voices. With what building
looks at in a graph (`Graph.SameUpstream`) this says all that a building depends on
(`Graph.build_elsewhere`).

The two buildings are compared as functions: `Assembly.move` takes an assembly on the one rack to
one on the other, and building on commutes with it (`Assembly.Moves`), step by step, node by node
and sink by sink.
-/

namespace Patchbay

variable {α : Type} [Scalar α] {f : PrimitiveId → PrimitiveId}

/-! ## Racks -/

namespace Rack

/-- A rack with a row of further primitives at its end. -/
def followedBy (rack : Rack α) (added : List (Primitive α)) : Rack α :=
  { rack with primitives := rack.primitives ++ added.toArray }

/-- What a rack has beyond the primitives of another. -/
def beyond (rack base : Rack α) : List (Primitive α) :=
  rack.primitives.toList.drop base.primitives.size

variable (rack : Rack α) (added : List (Primitive α))

omit [Scalar α] in
@[simp]
theorem beyond_followedBy : (rack.followedBy added).beyond rack = added := by
  simp [beyond, followedBy]

omit [Scalar α] in
theorem size_followedBy :
    (rack.followedBy added).primitives.size = rack.primitives.size + added.length := by
  simp [followedBy]

omit [Scalar α] in
theorem update_followedBy (i : Nat) (h : Primitive α → Primitive α) :
    (rack.followedBy added).update (rack.primitives.size + i) h =
      rack.followedBy (added.modify i h) := by
  unfold followedBy update
  refine congrArg (Rack.mk rack.clock rack.sampleRate rack.running · rack.refused) ?_
  rw [← Array.toList_inj]
  simpa using modify_append_add rack.primitives.toList added i h

theorem add_followedBy (setup : Setup α) :
    (rack.followedBy added).add setup = rack.followedBy (added ++ [.new setup]) := by
  simp [followedBy, add]

omit [Scalar α] in
/-- Changing what was moved is moving what was changed. -/
theorem map_move_modify {h h' : Primitive α → Primitive α}
    (hh : ∀ p, (h p).move f = h' (p.move f)) (i : Nat) :
    (added.modify i h).map (·.move f) = (added.map (·.move f)).modify i h' := by
  refine List.ext_getElem? fun k => ?_
  simp only [List.getElem?_map, List.getElem?_modify]
  split
  next => simp [Function.comp_def, hh]
  next => simp

/-- Racks on which the same can be done: they agree in the time, in the sampling rate and in what
they refuse. What is on them may differ. -/
structure SameSetting (rack rack' : Rack α) : Prop where
  clock : rack'.clock = rack.clock
  sampleRate : rack'.sampleRate = rack.sampleRate
  refused : ∀ family, family ∈ rack'.refused ↔ family ∈ rack.refused

/-- What a rack has beyond a first one, moved to the end of a second. -/
def move (rack : Rack α) (f : PrimitiveId → PrimitiveId) (base base' : Rack α) : Rack α :=
  base'.followedBy ((rack.beyond base).map (·.move f))

omit [Scalar α] in
theorem move_self (base base' : Rack α) : base.move f base base' = base' := by
  have hnone : base.beyond base = [] := List.drop_eq_nil_of_le (Nat.le_of_eq rfl)
  unfold move followedBy
  rw [hnone, List.map_nil, Array.append_empty]

namespace Extends

variable {base base' rack : Rack α} (h : base.Extends rack)
  (hnext : ∀ i, f (base.primitives.size + i) = base'.primitives.size + i)

include h

omit [Scalar α] in
/-- What extends a rack is the rack followed by what is beyond it. -/
theorem eq_followedBy : rack = base.followedBy (rack.beyond base) := by
  obtain ⟨added, hadded⟩ := h.exists_added
  have hrack : rack = base.followedBy added := hadded
  rw [hrack, beyond_followedBy]

theorem add_move (setup : Setup α) :
    (rack.move f base base').add setup = (rack.add setup).move f base base' := by
  rw [h.eq_followedBy]
  simp [move, add_followedBy, Primitive.new, Primitive.move]

include hnext

omit [Scalar α] in
theorem size_move : (rack.move f base base').primitives.size = f rack.primitives.size := by
  rw [h.eq_followedBy]
  simp [move, size_followedBy, hnext]

omit [Scalar α] in
/-- A change to something that was added moves along. -/
theorem update_move {id : PrimitiveId} (hid : base.primitives.size ≤ id)
    {change change' : Primitive α → Primitive α}
    (hchange : ∀ p, (change p).move f = change' (p.move f)) :
    (rack.move f base base').update (f id) change' =
      (rack.update id change).move f base base' := by
  obtain ⟨i, rfl⟩ := Nat.exists_eq_add_of_le hid
  rw [h.eq_followedBy, hnext, update_followedBy]
  simp only [move, beyond_followedBy, update_followedBy, map_move_modify _ hchange]

omit [Scalar α] in
theorem releaseAll_move {ids : List PrimitiveId} (hids : ∀ id ∈ ids, base.primitives.size ≤ id) :
    (rack.move f base base').releaseAll (ids.map f) =
      (rack.releaseAll ids).move f base base' := by
  induction ids generalizing rack with
  | nil => rfl
  | cons id ids ih =>
    obtain ⟨hid, hids⟩ := List.forall_mem_cons.mp hids
    have hfirst : (rack.move f base base').release (f id) = (rack.release id).move f base base' :=
      h.update_move hnext hid fun _ => rfl
    show ((rack.move f base base').release (f id)).releaseAll (ids.map f) = _
    rw [hfirst]
    exact ih (h.change hid _) hids

end Extends

end Rack

/-! ## Assemblies -/

namespace Assembly

/-- An assembly that was begun on one rack, moved to another. -/
def move (a : Assembly α) (f : PrimitiveId → PrimitiveId) (base base' : Rack α) : Assembly α where
  rack := a.rack.move f base base'
  voicing := a.voicing.move f
  made := a.made.map fun (id, family) => (f id, family)
  parts := a.parts.map fun (id, part) => (id, part.move f)

/-- The end of a building, moved to another rack. -/
def moveEnd (f : PrimitiveId → PrimitiveId) (base base' : Rack α) :
    Except (Stopped α) (Assembly α) → Except (Stopped α) (Assembly α)
  | .ok a => .ok (a.move f base base')
  | .error stopped => .error ⟨stopped.fault, stopped.reached.move f base base'⟩

/-- From an assembly with a property the second way of building on ends as the first does, but on
the other rack, and the property is kept. -/
structure Moves (f : PrimitiveId → PrimitiveId) (base base' : Rack α) (P : Assembly α → Prop)
    (build build' : Assembly α → Except (Stopped α) (Assembly α)) : Prop where
  keeps : Keeps P build
  same : ∀ a, P a → build' (a.move f base base') = moveEnd f base base' (build a)

variable {base base' : Rack α} {P : Assembly α → Prop}

namespace Moves

omit [Scalar α]

theorem bind {build build' next next' : Assembly α → Except (Stopped α) (Assembly α)}
    (h : Moves f base base' P build build') (hnext : Moves f base base' P next next') :
    Moves f base base' P (fun a => build a >>= next) (fun a => build' a >>= next') where
  keeps := h.keeps.bind hnext.keeps
  same a ha := by
    have hkept := h.keeps a ha
    rw [h.same a ha]
    cases hb : build a with
    | error stopped => rfl
    | ok b =>
      rw [hb] at hkept
      exact hnext.same b hkept

theorem foldlM {τ : Type} {step step' : Assembly α → τ → Except (Stopped α) (Assembly α)}
    {l : List τ} (h : ∀ x ∈ l, Moves f base base' P (step · x) (step' · x)) :
    Moves f base base' P (l.foldlM step) (l.foldlM step') := by
  induction l with
  | nil => exact ⟨fun a ha => ha, fun a _ => rfl⟩
  | cons x l ih =>
    have hrest := ih fun y hy => h y (List.mem_cons_of_mem _ hy)
    exact (h x List.mem_cons_self).bind hrest

end Moves

variable {a : Assembly α}

omit [Scalar α] in
theorem part?_move (id : NodeId) :
    (a.move f base base').part? id = (a.part? id).map (·.move f) := by
  unfold part? move
  rw [List.find?_map, Option.map_map, Option.map_map]
  rfl

omit [Scalar α] in
theorem handle?_move (c : Connection) :
    (a.move f base base').handle? c = (a.handle? c).map f := by
  unfold handle?
  rw [part?_move]
  cases a.part? c.source with
  | none => rfl
  | some part =>
    simp only [Option.map_some, Option.bind_some, Part.output?, Part.move, List.find?_map,
      Option.map_map]
    rfl

omit [Scalar α] in
theorem feeds_move (g : Graph α) (id : NodeId) (socket : String) :
    (a.move f base base').feeds g id socket = (a.feeds g id socket).map f := by
  unfold feeds
  rw [List.map_filterMap]
  exact List.filterMap_congr fun c _ => handle?_move c

variable (hsetting : base.SameSetting base')
  (hnext : ∀ i, f (base.primitives.size + i) = base'.primitives.size + i)

include hsetting hnext

/-- A step on the other rack does what it does on the one. -/
theorem moves_runStep (voicing : Voicing α) {step : Step α}
    (hstep : step.Beyond base.primitives.size) :
    Moves f base base' (Apart base voicing) (runStep · step) (runStep · (step.move f)) := by
  refine ⟨fun a ha => ha.runStep hstep, fun a ha => ?_⟩
  cases step with
  | create setup =>
    have hrefused : setup.family ∈ (a.rack.move f base base').refused ↔
        setup.family ∈ a.rack.refused := by
      rw [ha.extended.rest]
      exact hsetting.refused _
    dsimp only [runStep, Rack.create, move, Step.move_create]
    by_cases hfamily : setup.family ∈ a.rack.refused
    · simp [hfamily, hrefused, moveEnd, move]
    · simp [hfamily, hrefused, moveEnd, move, ha.extended.add_move, ha.extended.size_move hnext]
  | connect source inlet =>
    have hrack : (a.rack.move f base base').connect (f source) (inlet.move f) =
        (a.rack.connect source inlet).move f base base' :=
      ha.extended.update_move hnext hstep fun p => by simp [Primitive.move]
    dsimp [runStep, moveEnd, move]
    rw [hrack]
  | setValue dial value =>
    have hclock : (a.rack.move f base base').clock = a.rack.clock := by
      rw [ha.extended.rest]
      exact hsetting.clock
    have hrack : (a.rack.move f base base').setValue (dial.move f) value =
        (a.rack.setValue dial value).move f base base' := by
      unfold Rack.setValue Rack.schedule
      rw [hclock]
      exact ha.extended.update_move hnext hstep fun _ => rfl
    dsimp [runStep, moveEnd, move]
    rw [hrack]
  | register profile => rfl
  | bind key voice => simp [runStep, moveEnd, move, Voicing.bind, Voicing.move]

variable {g : Graph α} {master : PrimitiveId} {noise : Noise.Source α} {voicing : Voicing α}

omit [Scalar α] in
/-- The next node is built at a place that corresponds. -/
theorem site_move (ha : Apart base voicing a) (id : NodeId) :
    (a.move f base base').site (f master) noise ((a.move f base base').feeds g id) =
      (a.site master noise (a.feeds g id)).move f := by
  have hrate : (a.rack.move f base base').sampleRate = a.rack.sampleRate := by
    rw [ha.extended.rest]
    exact hsetting.sampleRate
  unfold site
  rw [funext (feeds_move g id)]
  simp only [move, Site.move, ha.extended.size_move hnext, hrate, Voicing.move]

variable (master noise voicing) in
theorem moves_buildNode {n : Node α} (hn : n ∈ g.nodes) :
    Moves f base base' (Assembling g base voicing) (buildNode g master noise n)
      (buildNode g (f master) noise n) := by
  refine ⟨Assembling.keeps_buildNode hn, fun a ha => ?_⟩
  have hrow : ∀ i, f (a.rack.primitives.size + i) = f a.rack.primitives.size + i := by
    intro i
    rw [ha.size, Nat.add_assoc, hnext, hnext, Nat.add_assoc]
  unfold buildNode
  rw [site_move hsetting hnext ha.toApart, Kind.blueprint_move hrow]
  cases hplan : Kind.blueprint n.panel (a.site master noise (a.feeds g n.id)) with
  | error rejection => rfl
  | ok plan =>
    have hbeyond : Step.AllBeyond base.primitives.size plan.steps :=
      Kind.allBeyond_of_blueprint hplan ha.extended.size fun socket i hi => ha.le_of_mem_feeds hi
    have hsteps := Moves.foldlM fun step hstep =>
      moves_runStep hsetting hnext voicing (hbeyond step hstep)
    dsimp only [Except.map, Blueprint.move]
    rw [List.foldlM_map, hsteps.same a ha.toApart]
    cases plan.steps.foldlM runStep a with
    | error stopped => rfl
    | ok b => simp [moveEnd, move, bind, Except.bind, pure, Except.pure]

namespace Moves

omit hsetting hnext [Scalar α] in
/-- Following a connection, when nodes are built alike. -/
theorem follow {build build' : Node α → Assembly α → Except (Stopped α) (Assembly α)}
    (h : ∀ n ∈ g.nodes, Moves f base base' P (build n) (build' n)) (c : Connection) :
    Moves f base base' P (Assembly.follow g build · c) (Assembly.follow g build' · c) := by
  refine ⟨Keeps.follow (fun n hn => (h n hn).keeps) c, fun a ha => ?_⟩
  unfold Assembly.follow
  split
  next => rfl
  next source hsource =>
    rw [(h source (Graph.mem_of_node? hsource)).same a ha]
    cases build source a with
    | error stopped => rfl
    | ok b =>
      show (if ((b.move f base base').handle? c).isSome then _ else _) =
        moveEnd f base base' (if (b.handle? c).isSome then _ else _)
      rw [handle?_move, Option.isSome_map]
      split <;> rfl

/-- Resolving takes the same course on both racks. -/
theorem resolve (depth : Nat) (path : List NodeId) {n : Node α} (hn : n ∈ g.nodes) :
    Moves f base base' (Assembling g base voicing) (Assembly.resolve g master noise depth path n)
      (Assembly.resolve g (f master) noise depth path n) := by
  induction depth generalizing path n with
  | zero => exact ⟨fun a ha => ha, fun a _ => rfl⟩
  | succ depth ih =>
    have hfeeding := foldlM (l := supplies g n) fun c _ =>
      follow (fun m hm => ih (n.id :: path) hm) c
    have hbuild := hfeeding.bind (moves_buildNode hsetting hnext master noise voicing hn)
    refine ⟨Keeps.resolve (fun m hm => Assembling.keeps_buildNode hm) _ _ n hn, fun a ha => ?_⟩
    unfold Assembly.resolve
    rw [part?_move, Option.isSome_map]
    split
    next => rfl
    next =>
      split
      next => rfl
      next => exact hbuild.same a ha

variable (g master noise voicing) in
theorem resolveSinks (depth : Nat) :
    Moves f base base' (Assembling g base voicing) (Assembly.resolveSinks g master noise depth)
      (Assembly.resolveSinks g (f master) noise depth) :=
  foldlM fun _ hsink => resolve hsetting hnext depth [] (Graph.mem_nodes_of_mem_sinks hsink)

end Moves

omit hsetting hnext [Scalar α] in
theorem finish_move : (a.move f base base').finish g = (a.finish g).move f := by
  unfold finish Patch.move
  simp only [part?_move, List.map_filterMap, Option.map_map]
  rfl

end Assembly

/-! ## Building -/

/-- What came of building on one rack, moved to another. -/
def BuildResult.move (result : BuildResult α) (f : PrimitiveId → PrimitiveId)
    (base base' : Rack α) : BuildResult α where
  outcome := result.outcome.map (·.move f)
  rack := result.rack.move f base base'
  voicing := result.voicing.move f

namespace Rack

omit [Scalar α]

variable {rack rack' : Rack α} {master master' : PrimitiveId}

/-- Where a primitive lies when what was added to one rack is added to another: the one master input
stands for the other, and the first that was added comes first there too. -/
def shift (rack rack' : Rack α) (master master' id : PrimitiveId) : PrimitiveId :=
  if id = master then master' else rack'.primitives.size + (id - rack.primitives.size)

theorem shift_master : rack.shift rack' master master' master = master' := if_pos rfl

theorem shift_add (hmaster : master < rack.primitives.size) (i : Nat) :
    rack.shift rack' master master' (rack.primitives.size + i) = rack'.primitives.size + i := by
  have hne : rack.primitives.size + i ≠ master :=
    Nat.ne_of_gt (Nat.lt_of_lt_of_le hmaster (Nat.le_add_right _ _))
  rw [shift, if_neg hne, Nat.add_sub_cancel_left]

end Rack

namespace Graph

/-- Building on another rack, without voices, comes to the same, moved there. -/
theorem build_move {base base' : Rack α} (hsetting : base.SameSetting base')
    (hnext : ∀ i, f (base.primitives.size + i) = base'.primitives.size + i) (g : Graph α)
    (master : PrimitiveId) (noise : Noise.Source α) :
    g.build (f master) noise base' .empty =
      (g.build master noise base .empty).move f base base' := by
  have hmoves := Assembly.Moves.resolveSinks hsetting hnext g master noise .empty
    (g.nodes.length + 1)
  have hkept := hmoves.keeps _ (.begun base .empty)
  have hsame := hmoves.same _ (.begun base .empty)
  have hbegun : Assembly.move ⟨base, .empty, [], []⟩ f base base' = ⟨base', .empty, [], []⟩ := by
    unfold Assembly.move
    rw [Rack.move_self]
    rfl
  rw [hbegun] at hsame
  unfold build buildWithin
  rw [hsame]
  cases hresolve : Assembly.resolveSinks g master noise (g.nodes.length + 1)
      ⟨base, .empty, [], []⟩ with
  | ok a =>
    dsimp only [Assembly.moveEnd]
    rw [Assembly.finish_move]
    rfl
  | error stopped =>
    rw [hresolve] at hkept
    have hkept : Assembly.Assembling g base .empty stopped.reached := hkept
    have hmade : ∀ id ∈ stopped.reached.made.map (·.1), base.primitives.size ≤ id := by
      intro id hid
      rw [hkept.ids, List.mem_range'_1] at hid
      exact hid.1
    have hreleased := hkept.extended.releaseAll_move hnext hmade
    rw [List.map_map] at hreleased
    dsimp only [Assembly.moveEnd, Assembly.move, BuildResult.move, Except.map]
    rw [List.map_map, ← hreleased]
    rfl

/-- Building looks at nothing of a graph but what is upstream of its sinks, and at nothing of a rack
but its time, its sampling rate and what it refuses. When two graphs agree in the one and two racks
in the other, then without earlier voices both are built or both fail with the same fault. The nodes
that were built with their outputs, knobs and analysers, the primitives in the order in which they
were created with their setups, timelines and outputs, and the voices are the same, but that the
numbers of primitives are shifted by the difference in what was on the racks before, and that one
master input stands for the other. -/
theorem build_elsewhere [StandardsAccepted α] {g g' : Graph α} (hg : g.Reachable)
    (hg' : g'.Reachable) (hsame : g.SameUpstream g') {rack rack' : Rack α}
    (hsetting : rack.SameSetting rack') {master : PrimitiveId}
    (hmaster : master < rack.primitives.size) (master' : PrimitiveId) (noise : Noise.Source α) :
    let built := g.build master noise rack .empty
    let built' := g'.build master' noise rack' .empty
    let place := rack.shift rack' master master'
    built'.outcome = built.outcome.map (·.move place) ∧
    built'.voicing = built.voicing.move place ∧
    ∃ added, built.rack = rack.followedBy added ∧
      built'.rack = rack'.followedBy (added.map (·.move place)) := by
  intro built built' place
  have hplace : place master = master' := Rack.shift_master
  have hmove : built' = built.move place rack rack' := by
    unfold built' built
    rw [hsame.build_eq hg.sound hg'.sound, ← hplace]
    exact build_move hsetting (Rack.shift_add hmaster) g master noise
  refine ⟨congrArg (·.outcome) hmove, congrArg (·.voicing) hmove, built.rack.beyond rack, ?_, ?_⟩
  · exact extends_build.eq_followedBy
  · exact congrArg (·.rack) hmove

/-- An oscillator that is heard, and further nodes that are not. -/
def crowdedTone : Graph Float := (tone.addNode .noise).2

/-- A rack with a gain for the master input. -/
def gainOnly : Rack Float := (Rack.new 48000.0).add (.gain 1.0)

theorem rebuilt_tone :
    let first := tone.build 0 ⟨2.0, 1⟩ gainOnly .empty
    let again := crowdedTone.build 0 ⟨2.0, 1⟩ first.rack .empty
    first.outcome.isOk = true ∧ first.rack.primitives.size = 5 ∧
    again.outcome = first.outcome.map (·.move (gainOnly.shift first.rack 0 0)) ∧
    again.rack.primitives.size = 9 := by
  intro first again
  have hreachable : tone.Reachable := ⟨_, rfl⟩
  have hcrowded : crowdedTone.Reachable :=
    ⟨[.addNode .oscillator, .addNode .oscillator, .addNode .universalOutput,
      .connect ⟨"n1", "signal", "n3", "signal"⟩, .addNode .noise], rfl⟩
  have hsame : tone.SameUpstream crowdedTone :=
    hreachable.sound.wellFormed.sameUpstream_addNode rfl
  -- the rack after the first building differs from the one before it in its primitives only
  have hsetting : gainOnly.SameSetting first.rack := by
    have hrest : first.rack = { gainOnly with primitives := first.rack.primitives } :=
      extends_build.rest
    rw [hrest]
    exact ⟨rfl, rfl, fun _ => Iff.rfl⟩
  have hmaster : 0 < gainOnly.primitives.size := by decide +kernel
  have hagain := build_elsewhere hreachable hcrowded hsame hsetting hmaster 0 ⟨2.0, 1⟩
  exact ⟨by decide +kernel, by decide +kernel, hagain.1, by decide +kernel⟩

end Graph

end Patchbay
