import Patchbay.Proofs.Session.Fades
import Patchbay.Proofs.Session.Keys
/-!
# What is done to primitives

A primitive is started, stopped and released by checkpoints of rebuilds alone. The record of a
primitive keeps the last time of each, which does not say how often it was done; so what a
checkpoint does is written down as a list of deeds (`Session.deeds`), and the deeds of a history are
its log (`Observed.log`). The rack after a checkpoint is the rack with its deeds performed, one
after the other, while all else that happens to it is that parameters are automated and primitives
added of which nothing has begun (`Rack.Performed`, `Session.performed_checkpoint`). So the record
of every primitive is what the deeds make of it (`Rack.Performed.lifeOf_eq`).
-/

namespace Patchbay

variable {α : Type}

/-! ## Deeds -/

/-- What a primitive undergoes at most a few times. -/
inductive Act (α : Type) where
  | start (time : α)
  | stop (time : α)
  | release

structure Deed (α : Type) where
  target : PrimitiveId
  act : Act α

/-- What is done to one primitive, in order. -/
def Deed.actsOn (deeds : List (Deed α)) (id : PrimitiveId) : List (Act α) :=
  (deeds.filter (·.target == id)).map (·.act)

namespace Deed

/-- The same is done to some primitives, one after the other. -/
def toAll (act : Act α) (ids : List PrimitiveId) : List (Deed α) := ids.map fun id => ⟨id, act⟩

theorem actsOn_append (deeds more : List (Deed α)) (id : PrimitiveId) :
    actsOn (deeds ++ more) id = actsOn deeds id ++ actsOn more id := by
  unfold actsOn
  rw [List.filter_append, List.map_append]

theorem actsOn_append_toAll_of_notMem {ids : List PrimitiveId} {id : PrimitiveId} (h : id ∉ ids)
    (deeds : List (Deed α)) (act : Act α) :
    actsOn (deeds ++ toAll act ids) id = actsOn deeds id := by
  have hnone : actsOn (toAll act ids) id = [] := by
    refine List.map_eq_nil_iff.mpr (List.filter_eq_nil_iff.mpr fun deed hdeed => ?_)
    obtain ⟨other, hother, rfl⟩ := List.mem_map.mp hdeed
    exact fun heq => h (beq_iff_eq.mp heq ▸ hother)
  rw [actsOn_append, hnone, List.append_nil]

theorem actsOn_append_toAll_of_mem {ids : List PrimitiveId} (hnodup : ids.Nodup) {id : PrimitiveId}
    (h : id ∈ ids) (deeds : List (Deed α)) (act : Act α) :
    actsOn (deeds ++ toAll act ids) id = actsOn deeds id ++ [act] := by
  have hone : actsOn (toAll act ids) id = [act] := by
    unfold actsOn toAll
    rw [List.filter_map, List.map_map]
    show (ids.filter (· == id)).map (fun _ => act) = _
    rw [List.filter_beq, hnodup.count, if_pos h]
    rfl
  rw [actsOn_append, hone]

end Deed

/-! ## Lives -/

/-- What the record of a primitive says of its life. -/
structure Life (α : Type) where
  startedAt : Option α
  stoppedAt : Option α
  released : Bool

namespace Life

/-- Neither started nor stopped nor released. -/
def unbegun : Life α := ⟨none, none, false⟩

def after (life : Life α) : Act α → Life α
  | .start time => { life with startedAt := some time }
  | .stop time => { life with stoppedAt := some time }
  | .release => { life with released := true }

end Life

def Primitive.life (p : Primitive α) : Life α := ⟨p.startedAt, p.stoppedAt, p.released⟩

namespace Rack

/-- The life of a primitive; of one that is not there yet nothing has begun. -/
def lifeOf (rack : Rack α) (id : PrimitiveId) : Life α :=
  ((rack.primitive? id).map (·.life)).getD .unbegun

/-- Does one deed. -/
def perform (rack : Rack α) (deed : Deed α) : Rack α :=
  match deed.act with
  | .start time => rack.start deed.target time
  | .stop time => rack.stop deed.target time
  | .release => rack.release deed.target

variable {rack rack' : Rack α}

theorem lifeOf_update (rack : Rack α) {target : PrimitiveId}
    (htarget : target < rack.primitives.size) {f : Primitive α → Primitive α} {act : Act α}
    (hf : ∀ p, (f p).life = p.life.after act) (id : PrimitiveId) :
    (rack.update target f).lifeOf id =
      if target = id then (rack.lifeOf id).after act else rack.lifeOf id := by
  unfold lifeOf
  rw [primitive?_update]
  split
  next heq =>
    obtain ⟨p, hp⟩ := exists_primitive? (heq ▸ htarget)
    rw [hp]
    exact hf p
  next => rfl

theorem lifeOf_perform {deed : Deed α} (h : deed.target < rack.primitives.size)
    (id : PrimitiveId) : (rack.perform deed).lifeOf id =
      if deed.target = id then (rack.lifeOf id).after deed.act else rack.lifeOf id := by
  obtain ⟨target, act⟩ := deed
  cases act with
  | start time | stop time | release => exact rack.lifeOf_update h (fun _ => rfl) id

theorem size_perform (rack : Rack α) (deed : Deed α) :
    (rack.perform deed).primitives.size = rack.primitives.size := by
  obtain ⟨target, act⟩ := deed
  cases act with
  | start time | stop time | release => exact rack.size_update target _

theorem size_performAll (rack : Rack α) (deeds : List (Deed α)) :
    (deeds.foldl perform rack).primitives.size = rack.primitives.size :=
  List.foldlRecOn (motive := fun rack' : Rack α => rack'.primitives.size = rack.primitives.size)
    deeds _ rfl fun rack' hsame deed _ => (rack'.size_perform deed).trans hsame

/-- Automation is no part of life. -/
theorem Automated.lifeOf_eq (h : rack.Automated rack') (id : PrimitiveId) :
    rack'.lifeOf id = rack.lifeOf id := by
  have hfixed := congrArg (Option.map Primitive.life) (h.fixed_eq id)
  rw [Option.map_map, Option.map_map] at hfixed
  exact congrArg (Option.getD · .unbegun) hfixed

/-- What is new on a rack has not begun. -/
theorem Extends.lifeOf_eq (h : rack.Extends rack')
    (hnew : ∀ id p, rack.primitives.size ≤ id → rack'.primitive? id = some p → p.life = .unbegun)
    (id : PrimitiveId) : rack'.lifeOf id = rack.lifeOf id := by
  unfold lifeOf
  rcases Nat.lt_or_ge id rack.primitives.size with hold | hadded
  · rw [h.kept id hold]
  · have hnone : rack.primitive? id = none := Array.getElem?_eq_none hadded
    rw [hnone]
    cases hp : rack'.primitive? id with
    | none => rfl
    | some p => exact hnew id p hadded hp

/-! ## Deeds performed -/

/-- From one rack to another some deeds are done, one after the other. In between, parameters are
automated and primitives are added of which nothing has begun. -/
inductive Performed (rack : Rack α) : List (Deed α) → Rack α → Prop where
  | nothing : Performed rack [] rack
  | automated {deeds : List (Deed α)} {before after : Rack α} (h : Performed rack deeds before)
    (hafter : before.Automated after) : Performed rack deeds after
  | extended {deeds : List (Deed α)} {before after : Rack α} (h : Performed rack deeds before)
    (hafter : before.Extends after)
    (hnew : ∀ id p, before.primitives.size ≤ id → after.primitive? id = some p →
      p.life = .unbegun) : Performed rack deeds after
  | done {deeds : List (Deed α)} {before : Rack α} {deed : Deed α} (h : Performed rack deeds before)
    (hthere : deed.target < before.primitives.size) :
    Performed rack (deeds ++ [deed]) (before.perform deed)

namespace Performed

variable {rack'' : Rack α} {deeds more : List (Deed α)}

theorem trans (h : rack.Performed deeds rack') (h' : rack'.Performed more rack'') :
    rack.Performed (deeds ++ more) rack'' := by
  induction h' with
  | nothing => rwa [List.append_nil]
  | automated _ hafter ih => exact .automated ih hafter
  | extended _ hafter hnew ih => exact .extended ih hafter hnew
  | done _ hthere ih =>
    rw [← List.append_assoc]
    exact .done ih hthere

/-- Deeds on primitives that are there can be performed. -/
theorem performAll (h : ∀ deed ∈ deeds, deed.target < rack.primitives.size) :
    rack.Performed deeds (deeds.foldl perform rack) := by
  induction deeds generalizing rack with
  | nil => exact .nothing
  | cons deed deeds ih =>
    obtain ⟨hdeed, hdeeds⟩ := List.forall_mem_cons.mp h
    have hfirst : rack.Performed [deed] (rack.perform deed) := .done .nothing hdeed
    exact hfirst.trans (ih ((rack.size_perform deed).symm ▸ hdeeds))

/-- A primitive lives through what is done to it. -/
theorem lifeOf_eq (h : rack.Performed deeds rack') (id : PrimitiveId) :
    rack'.lifeOf id = (Deed.actsOn deeds id).foldl .after (rack.lifeOf id) := by
  induction h with
  | nothing => rfl
  | automated _ hafter ih => exact (hafter.lifeOf_eq id).trans ih
  | extended _ hafter hnew ih => exact (hafter.lifeOf_eq hnew id).trans ih
  | @done _ _ deed _ hthere ih =>
    rw [lifeOf_perform hthere, Deed.actsOn_append, List.foldl_append, ← ih]
    by_cases heq : deed.target = id <;> simp [Deed.actsOn, heq]

end Performed

end Rack

/-! ## Building -/

namespace Assembly

/-- What was added to a rack has neither been started nor stopped nor released. -/
def Unbegun (base : Rack α) (a : Assembly α) : Prop :=
  ∀ id p, base.primitives.size ≤ id → a.rack.primitive? id = some p → p.life = .unbegun

theorem Unbegun.update {base : Rack α} {a : Assembly α} (h : Unbegun base a) (target : PrimitiveId)
    {f : Primitive α → Primitive α} (hf : ∀ p, (f p).life = p.life) :
    Unbegun base { a with rack := a.rack.update target f } := by
  intro id p hid hp
  have hp : (a.rack.update target f).primitive? id = some p := hp
  rw [Rack.primitive?_update] at hp
  split at hp
  next =>
    obtain ⟨q, hq, rfl⟩ := Option.map_eq_some_iff.mp hp
    exact (hf q).trans (h id q hid hq)
  next => exact h id p hid hp

variable [Scalar α] {base : Rack α}

theorem keeps_unbegun_runStep (step : Step α) : Keeps (Unbegun base) (runStep · step) := by
  intro a ha
  cases step with
  | create setup =>
    dsimp only [runStep, Rack.create]
    by_cases hrefused : setup.family ∈ a.rack.refused
    · simp only [hrefused, if_true]
      exact ha
    · simp only [hrefused, if_false]
      intro id p hid hp
      have hp : (a.rack.add setup).primitive? id = some p := hp
      rw [Rack.primitive?_add] at hp
      split at hp
      next => cases hp; rfl
      next => exact ha id p hid hp
  | connect source inlet => exact ha.update source fun _ => rfl
  | setValue dial value => exact ha.update dial.primitive fun _ => rfl
  | register profile => exact ha
  | bind key voice => exact ha

theorem keeps_unbegun_buildNode (g : Graph α) (master : PrimitiveId) (noise : Noise.Source α)
    (n : Node α) : Keeps (Unbegun base) (buildNode g master noise n) := by
  intro a ha
  unfold buildNode
  split
  next => exact ha
  next plan _ =>
    have hsteps : Keeps (Unbegun base) (plan.steps.foldlM runStep) :=
      Keeps.foldlM fun step _ => keeps_unbegun_runStep step
    have hrecord : Keeps (Unbegun base) fun b =>
        .ok { b with parts := b.parts ++ [(n.id, plan.part)] } := fun b hb => hb
    exact hsteps.bind hrecord a ha

end Assembly

variable [Scalar α]

/-- Building adds primitives of which nothing has begun; after a fault it releases just these. -/
theorem Graph.exists_assembled (g : Graph α) (master : PrimitiveId) (noise : Noise.Source α)
    (rack : Rack α) (voicing : Voicing α) :
    let result := g.build master noise rack voicing
    ∃ built : Rack α, rack.Extends built ∧
      (∀ id p, rack.primitives.size ≤ id → built.primitive? id = some p → p.life = .unbegun) ∧
      match result.outcome with
      | .ok _ => result.rack = built
      | .error _ => result.rack = (Deed.toAll .release (List.range' rack.primitives.size
          (result.rack.primitives.size - rack.primitives.size))).foldl Rack.perform built := by
  intro result
  obtain ⟨a, ⟨ha, hunbegun⟩, hbuild⟩ :=
    g.build_of_keeps master noise rack voicing
      (P := fun a => Assembly.Assembling g rack voicing a ∧ Assembly.Unbegun rack a)
      ⟨.begun rack voicing, fun id p hid hp =>
        absurd (Rack.lt_size_of_primitive? hp) (Nat.not_lt_of_le hid)⟩
      fun n hn => (Assembly.Assembling.keeps_buildNode hn).and
        (Assembly.keeps_unbegun_buildNode g master noise n)
  refine ⟨a.rack, ha.extended, hunbegun, ?_⟩
  rcases hbuild with hbuild | ⟨fault, hbuild⟩
  · have hresult : result = _ := hbuild
    rw [hresult]
  · have hresult : result = _ := hbuild
    rw [hresult]
    dsimp only
    rw [Rack.size_releaseAll, ha.size, Nat.add_sub_cancel_left, ← ha.ids, Deed.toAll,
      List.foldl_map]
    rfl

/-- Building begins nothing, and releases only what it has added itself. -/
theorem Graph.performed_build (g : Graph α) (master : PrimitiveId) (noise : Noise.Source α)
    (rack : Rack α) (voicing : Voicing α) :
    let result := g.build master noise rack voicing
    match result.outcome with
    | .ok _ => rack.Performed [] result.rack
    | .error _ => rack.Performed (Deed.toAll .release (List.range' rack.primitives.size
        (result.rack.primitives.size - rack.primitives.size))) result.rack := by
  intro result
  obtain ⟨built, hextends, hunbegun, hrack⟩ := g.exists_assembled master noise rack voicing
  have hbuilt : rack.Performed [] built := .extended .nothing hextends hunbegun
  have hrack : match result.outcome with
    | .ok _ => result.rack = built
    | .error _ => result.rack = (Deed.toAll .release (List.range' rack.primitives.size
        (result.rack.primitives.size - rack.primitives.size))).foldl Rack.perform built := hrack
  cases houtcome : result.outcome with
  | ok patch =>
    rw [houtcome] at hrack
    exact hrack ▸ hbuilt
  | error fault =>
    rw [houtcome] at hrack
    have hsize : result.rack.primitives.size = built.primitives.size := by
      rw [hrack, Rack.size_performAll]
    have hthere : ∀ deed ∈ Deed.toAll (α := α) .release (List.range' rack.primitives.size
        (result.rack.primitives.size - rack.primitives.size)),
        deed.target < built.primitives.size := by
      intro deed hdeed
      obtain ⟨target, htarget, rfl⟩ := List.mem_map.mp hdeed
      rw [hsize, List.mem_range'_1, Nat.add_sub_cancel' hextends.size] at htarget
      exact htarget.2
    have hreleased := hbuilt.trans (.performAll hthere)
    rwa [← hrack] at hreleased

/-! ## The mixer -/

namespace Mixer

/-- What fading in starts. -/
def starts (m : Mixer α) : List (Deed α) :=
  Deed.toAll (.start m.rack.clock) ((m.sources.filter (!·.started)).map (·.id))

/-- What fading out stops. -/
def stops (m : Mixer α) (ramp : α) : List (Deed α) :=
  Deed.toAll (.stop (m.rack.clock + ramp)) (m.startedSources.map (·.id))

/-- Fading in starts sources and then opens the master gain. -/
theorem rack_fadeIn (m : Mixer α) (ramp : α) : (m.fadeIn ramp).rack =
    (m.starts.foldl Rack.perform m.rack).rampTo m.masterGain m.level ramp := by
  -- the clock stands still while sources are started
  have hstarts : ∀ (sources : List Source) (rack : Rack α),
      sources.foldl (fun rack s => rack.start s.id rack.clock) rack =
        (Deed.toAll (.start rack.clock) (sources.map (·.id))).foldl Rack.perform rack := by
    intro sources
    induction sources with
    | nil => exact fun rack => rfl
    | cons s sources ih => exact fun rack => ih (rack.start s.id rack.clock)
  unfold fadeIn starts
  rw [← hstarts]

/-- Fading out closes the master gain and then stops sources, unless there is nothing to stop. -/
theorem rack_fadeOut (m : Mixer α) (ramp : α) : (m.fadeOut ramp).2.rack =
    if m.startedSources.isEmpty then m.rack
    else (m.stops ramp).foldl Rack.perform (m.rack.rampTo m.masterGain 0.0 ramp) := by
  unfold fadeOut
  split
  next => rfl
  next =>
    unfold stops Deed.toAll
    rw [List.foldl_map, List.foldl_map]
    rfl

omit [Scalar α] in
theorem rack_release (m : Mixer α) (patch : Patch α) :
    (m.release patch).rack = (Deed.toAll .release patch.ids).foldl Rack.perform m.rack := by
  unfold release Rack.releaseAll Deed.toAll
  rw [List.foldl_map]
  rfl

omit [Scalar α] in
/-- What is done to some of the mixer's sources is done to primitives that are there. -/
theorem target_lt_of_toAll {m : Mixer α} (h : ∀ s ∈ m.sources, s.id < m.rack.primitives.size)
    (p : Source → Bool) (act : Act α) :
    ∀ deed ∈ Deed.toAll act ((m.sources.filter p).map (·.id)),
      deed.target < m.rack.primitives.size := by
  intro deed hdeed
  obtain ⟨id, hid, rfl⟩ := List.mem_map.mp hdeed
  obtain ⟨source, hsource, rfl⟩ := List.mem_map.mp hid
  exact h source (List.mem_filter.mp hsource).1

theorem performed_fadeIn {m : Mixer α} (h : ∀ s ∈ m.sources, s.id < m.rack.primitives.size)
    (ramp : α) : m.rack.Performed m.starts (m.fadeIn ramp).rack := by
  rw [rack_fadeIn]
  exact .automated (.performAll (target_lt_of_toAll h _ _)) (.rampTo _ _ _ _)

theorem performed_fadeOut {m : Mixer α} (h : ∀ s ∈ m.sources, s.id < m.rack.primitives.size)
    (ramp : α) : m.rack.Performed (m.stops ramp) (m.fadeOut ramp).2.rack := by
  have hramp := Rack.Automated.rampTo m.rack m.masterGain 0.0 ramp
  rw [rack_fadeOut]
  split
  next hnone =>
    unfold stops
    rw [List.isEmpty_iff.mp hnone]
    exact .nothing
  next =>
    refine (Rack.Performed.automated .nothing hramp).trans (.performAll ?_)
    rw [hramp.size_eq]
    exact target_lt_of_toAll h _ _

omit [Scalar α] in
theorem performed_release {m : Mixer α} {patch : Patch α}
    (h : ∀ id ∈ patch.ids, id < m.rack.primitives.size) :
    m.rack.Performed (Deed.toAll .release patch.ids) (m.release patch).rack := by
  rw [rack_release]
  refine .performAll fun deed hdeed => ?_
  obtain ⟨target, htarget, rfl⟩ := List.mem_map.mp hdeed
  exact h target htarget

end Mixer

namespace Session

/-! ## Checkpoints -/

/-- What a stage of a rebuild does to primitives, apart from automation. -/
def Stage.deeds (s : Session α) : Stage α → List (Deed α)
  | .discard _ => Deed.toAll .release s.liveIds
  | .install _ | .finish _ => []
  | .start _ => s.mixer.starts

omit [Scalar α] in
theorem Stage.deeds_time (stage : Stage α) (s : Session α) (time : Nat) :
    stage.deeds { s with time } = stage.deeds s := by
  cases stage <;> rfl

/-- What the beginning of a rebuild does to primitives: it stops what sounds, or it releases all
that it has added. -/
def beginDeeds (s : Session α) : List (Deed α) :=
  let built := s.mixer.build s.graph .empty
  match built.1 with
  | .ok _ => built.2.1.stops (seconds s.settings.fade)
  | .error _ =>
    Deed.toAll .release (List.range' s.mixer.rack.primitives.size
      (built.2.1.rack.primitives.size - s.mixer.rack.primitives.size))

/-- What the next checkpoint does to primitives. -/
def deeds (s : Session α) : List (Deed α) :=
  match s.pass with
  | some pass => pass.stage.deeds s
  | none => if s.scheduler.isBusy then s.beginDeeds else []

/-- A checkpoint does what is due, with the deeds that belong to it, or nothing. -/
theorem Observed.checkpoint_deeds (o : Observed α) :
    ((o.step .checkpoint).session = o.session ∧ o.session.deeds = []) ∨
    (∃ pass, o.session.pass = some pass ∧
      (o.step .checkpoint).session = { o.session with time := pass.due }.proceed pass ∧
      o.session.deeds = pass.stage.deeds { o.session with time := pass.due }) ∨
    (o.session.pass = none ∧ (o.step .checkpoint).session = o.session.begin ∧
      o.session.deeds = o.session.beginDeeds) := by
  unfold step
  rcases o.session.upcoming?_cases with hdue | ⟨pass, hpass, hdue⟩ | ⟨hpass, hbusy, hdue⟩
  · rw [hdue]
    refine Or.inl ⟨rfl, ?_⟩
    unfold upcoming? at hdue
    unfold deeds
    cases hpass : o.session.pass with
    | some pass =>
      rw [hpass] at hdue
      cases hdue
    | none =>
      rw [hpass] at hdue
      refine if_neg fun hbusy => ?_
      rw [if_pos hbusy] at hdue
      cases hdue
  · rw [hdue]
    refine Or.inr (Or.inl ⟨pass, hpass, rfl, ?_⟩)
    rw [Stage.deeds_time]
    unfold deeds
    rw [hpass]
  · rw [hdue]
    refine Or.inr (Or.inr ⟨hpass, rfl, ?_⟩)
    unfold deeds
    rw [hpass, hbusy]
    rfl

/-- What the checkpoints of a history do. -/
def Observed.log (o : Observed α) : List (Event α) → List (Deed α)
  | [] => []
  | .call c :: events => log (o.step (.call c)) events
  | .checkpoint :: events => o.session.deeds ++ log (o.step .checkpoint) events

variable {s : Session α}

/-- The sources of the mixer and the primitives of what sounds are on the rack. -/
structure Placed (s : Session α) : Prop where
  sources : ∀ source ∈ s.mixer.sources, source.id < s.mixer.rack.primitives.size
  live : ∀ id ∈ s.liveIds, id < s.mixer.rack.primitives.size

theorem performed_begin (h : s.Placed) :
    s.mixer.rack.Performed s.beginDeeds s.begin.mixer.rack := by
  have hbuilt := s.graph.performed_build s.mixer.master s.mixer.noise s.mixer.rack .empty
  have hextends : s.mixer.rack.Extends (s.mixer.build s.graph .empty).2.1.rack :=
    Graph.extends_build
  unfold beginDeeds
  dsimp only at hbuilt ⊢
  rcases s.begin_cases with ⟨fault, hfault, hbegin⟩ | ⟨patch, hpatch, hbegin⟩
  · have houtcome : (s.graph.build s.mixer.master s.mixer.noise s.mixer.rack .empty).outcome =
        .error fault := hfault
    rw [houtcome] at hbuilt
    rw [hbegin, hfault]
    exact hbuilt
  · have houtcome : (s.graph.build s.mixer.master s.mixer.noise s.mixer.rack .empty).outcome =
        .ok patch := hpatch
    rw [houtcome] at hbuilt
    rw [hbegin, hpatch]
    have hthere : ∀ source ∈ (s.mixer.build s.graph .empty).2.1.sources,
        source.id < (s.mixer.build s.graph .empty).2.1.rack.primitives.size :=
      fun source hsource => Nat.lt_of_lt_of_le (h.sources source hsource) hextends.size
    exact Rack.Performed.trans hbuilt (Mixer.performed_fadeOut hthere (seconds s.settings.fade))

theorem performed_proceed (h : s.Placed) (pass : Pass α) :
    s.mixer.rack.Performed (pass.stage.deeds s) (s.proceed pass).mixer.rack := by
  obtain ⟨number, stage, due⟩ := pass
  cases stage with
  | discard staged =>
    unfold Session.proceed discardLive Stage.deeds
    cases hlive : s.live with
    | some old =>
      have hids := h.live
      rw [liveIds_eq_of_some hlive] at hids ⊢
      exact Mixer.performed_release hids
    | none =>
      rw [liveIds_eq_of_none hlive]
      exact .nothing
  | install staged => exact .nothing
  | start summary => exact Mixer.performed_fadeIn h.sources _
  | finish summary => exact .nothing

/-- The rack after a checkpoint is the rack with the deeds of the checkpoint performed. -/
theorem performed_checkpoint {o : Observed α} (h : o.session.Placed) :
    o.session.mixer.rack.Performed o.session.deeds (o.step .checkpoint).session.mixer.rack := by
  rcases o.checkpoint_deeds with ⟨hsame, hnone⟩ | ⟨pass, -, hnext, hdeeds⟩ | ⟨-, hnext, hdeeds⟩
  · rw [hsame, hnone]
    exact .nothing
  · have htime : Placed { o.session with time := pass.due } := ⟨h.sources, h.live⟩
    rw [hnext, hdeeds]
    exact performed_proceed htime pass
  · rw [hnext, hdeeds]
    exact performed_begin h

end Session

end Patchbay
