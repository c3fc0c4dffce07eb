import Patchbay.Proofs.Number.Whole
import Patchbay.Proofs.Patch.Wiring
import Patchbay.Proofs.Program.Arranged
/-!
# What is built sounds as described

Building a graph leaves on the rack the nodes upstream of its sinks, in the states that belong to
their panels: a parameter is at zero where something is patched into its socket, and at the inline
value elsewhere (`Graph.levelOf`). Each step of building does to the states and voices what it says
(`Shaped`), because nothing that was scheduled on the new primitives lies ahead of the clock.
-/

namespace Patchbay

open Relation (TransGen)

/-- An accepted amplitude is not below the least one, so building takes it as it is. -/
theorem Panel.Accepted.greatest_amp {panel : Panel Float} (h : panel.Accepted)
    (hkind : panel.kind = .clip) :
    Scalar.greatest (panel.number "amp") Kind.leastClip = panel.number "amp" :=
  h.greatest_amp_of_beq_self hkind fun _ => Binary64.beq_self_of_isFinite

variable {α : Type} [Scalar α]

/-! ## Steps -/

/-- From a place on, nothing was scheduled on the rack for later than now. -/
def Rack.Quiet (rack : Rack α) (bound : PrimitiveId) (t : α) : Prop :=
  ∀ id p, bound ≤ id → rack.primitive? id = some p → p.Settled rack.clock t

theorem Rack.Quiet.update {rack : Rack α} {bound : PrimitiveId} {t : α} (h : rack.Quiet bound t)
    {id : PrimitiveId} {f : Primitive α → Primitive α}
    (hf : ∀ p, rack.primitive? id = some p → p.Settled rack.clock t →
      (f p).Settled rack.clock t) : (rack.update id f).Quiet bound t := by
  intro other p hother hp
  rw [primitive?_update] at hp
  split at hp
  next heq =>
    obtain ⟨q, hq, rfl⟩ := Option.map_eq_some_iff.mp hp
    exact hf q (heq ▸ hq) (h other q hother hq)
  next => exact h other p hother hp

namespace Assembly

variable {bound : PrimitiveId} {t : α} {a b : Assembly α}

theorem voicing_of_runStep {step : Step α} (h : a.runStep step = .ok b) :
    b.rack.clock = a.rack.clock ∧ b.voicing = step.sing a.voicing := by
  cases step with
  | create setup =>
    obtain ⟨-, rfl⟩ := runStep_create_eq_ok.mp h
    exact ⟨rfl, rfl⟩
  | _ =>
    cases h
    exact ⟨rfl, rfl⟩

/-- Steps take no time, and register and bind what they say. -/
theorem voicing_of_run {steps : List (Step α)} (h : steps.foldlM runStep a = .ok b) :
    b.rack.clock = a.rack.clock ∧ b.voicing = steps.foldl Step.sing a.voicing := by
  induction steps generalizing a with
  | nil =>
    cases h
    exact ⟨rfl, rfl⟩
  | cons step steps ih =>
    rw [List.foldlM_cons] at h
    obtain ⟨a', hstep, hrest⟩ := bind_eq_ok.mp h
    obtain ⟨hclock, hvoicing⟩ := voicing_of_runStep hstep
    rw [List.foldl_cons, ← hvoicing, ← hclock]
    exact ih hrest

theorem states_of_runStep {step : Step α} (hstep : step.Beyond bound)
    (hquiet : a.rack.Quiet bound t) (hclock : ¬a.rack.clock < a.rack.clock) (ht : a.rack.clock ≤ t)
    (h : a.runStep step = .ok b) :
    b.rack.Quiet bound t ∧ b.rack.statesAt t = step.shape (a.rack.statesAt t) := by
  cases step with
  | create setup =>
    obtain ⟨-, rfl⟩ := runStep_create_eq_ok.mp h
    refine ⟨fun id p hid hp => ?_, a.rack.statesAt_add setup t⟩
    rw [Rack.primitive?_add] at hp
    split at hp
    next =>
      cases hp
      exact Primitive.settled_new setup
    next => exact hquiet id p hid hp
  | connect source inlet =>
    cases h
    exact ⟨hquiet.update fun p _ hp => hp, a.rack.statesAt_update_eq source fun p => rfl⟩
  | setValue dial v =>
    cases h
    refine ⟨hquiet.update fun p _ hp => hp.set hclock ht _ _, ?_⟩
    exact a.rack.statesAt_update _ fun p hp => (hquiet _ p hstep hp).stateAt_set ht _ _
  | register profile =>
    cases h
    exact ⟨hquiet, rfl⟩
  | bind key voice =>
    cases h
    exact ⟨hquiet, rfl⟩

/-- Steps do to the states at a time from now on what they say. -/
theorem states_of_run {steps : List (Step α)} (hsteps : Step.AllBeyond bound steps)
    (hquiet : a.rack.Quiet bound t) (hclock : ¬a.rack.clock < a.rack.clock)
    (ht : a.rack.clock ≤ t) (h : steps.foldlM runStep a = .ok b) :
    b.rack.Quiet bound t ∧ b.rack.statesAt t = steps.foldl Step.shape (a.rack.statesAt t) := by
  induction steps generalizing a with
  | nil =>
    cases h
    exact ⟨hquiet, rfl⟩
  | cons step steps ih =>
    rw [List.foldlM_cons] at h
    obtain ⟨a', hstep, hrest⟩ := bind_eq_ok.mp h
    obtain ⟨hbeyond, hsteps⟩ := Step.allBeyond_cons.mp hsteps
    obtain ⟨hquiet', hstates⟩ := states_of_runStep hbeyond hquiet hclock ht hstep
    have hsame := (voicing_of_runStep hstep).1
    rw [List.foldl_cons, ← hstates]
    exact ih hsteps hquiet' (hsame ▸ hclock) (hsame ▸ ht) hrest

end Assembly

/-! ## Nodes -/

/-- The level at which a socket holds the parameter that it drives. -/
def Graph.levelOf (g : Graph α) (n : Node α) (socket : String) : α :=
  if g.isConnected n.id socket then 0.0 else n.panel.inlineLevel socket

/-- A rack, from a place on, is wired as nodes of a graph are. -/
def Graph.Wires (g : Graph α) (master start : PrimitiveId) (order : List (Node α))
    (rack : Rack α) : Prop :=
  ∀ id, start ≤ id → ∀ inlet, inlet ∈ rack.outputsOf id ↔
    (id, inlet) ∈ order.flatMap (g.wiring master (firstIn order start))

namespace Assembly

variable {g : Graph α} {master : PrimitiveId} {noise : Noise.Source α} {base : Rack α}
  {order : List (Node α)} {first : NodeId → PrimitiveId} {a : Assembly α} {n : Node α}

/-- The nodes that are built are on the rack as the graph describes them, with some voices. -/
structure Described (g : Graph α) (base : Rack α) (order : List (Node α))
    (first : NodeId → PrimitiveId) (voicing : Voicing α) (a : Assembly α) : Prop where
  places : ∀ n ∈ order, first n.id = firstIn order base.primitives.size n.id
  clock : a.rack.clock = base.clock
  quiet : ∀ t, base.clock ≤ t → a.rack.Quiet base.primitives.size t
  arranged : Arranged (base.clock ≤ ·) base.primitives.size g.levelOf order a.rack voicing

theorem described_fresh (g : Graph α) (rack : Rack α) (voicing : Voicing α) :
    Described g rack [] (fun _ => 0) .empty (fresh rack voicing) where
  places _ hn := absurd hn List.not_mem_nil
  clock := rfl
  quiet _ _ _ _ hid hp := absurd (Rack.lt_size_of_primitive? hp) (Nat.not_lt.mpr hid)
  arranged := .begun rack

/-- Where something is patched in, the level is zero. -/
theorem Laid.levelAt (h : Laid g base order first a) (hg : g.WellFormed) (hn : g.Next a.done n)
    (socket : String) :
    Kind.levelAt n.panel (a.feeds g n.id) socket = g.levelOf n socket := by
  unfold Kind.levelAt Graph.levelOf
  rw [h.feeds hg hn, List.isEmpty_map]
  cases hconnected : g.isConnected n.id socket with
  | false => simp [Graph.isConnected_eq_false.mp hconnected]
  | true =>
    simp [Graph.feeding_ne_nil.mpr hconnected]

theorem Laid.beyond (h : Laid g base order first a) (hg : g.WellFormed) (hn : g.Next a.done n)
    {plan : Blueprint α}
    (hplan : Kind.blueprint n.panel (a.site master noise (a.feeds g n.id)) = .ok plan) :
    Step.AllBeyond base.primitives.size plan.steps := by
  have hnext : base.primitives.size ≤ a.rack.primitives.size := h.size ▸ Nat.le_add_right _ _
  refine Kind.allBeyond_of_blueprint hplan hnext fun socket i hi => ?_
  have hi : i ∈ a.feeds g n.id socket := hi
  rw [h.feeds hg hn, List.mem_map] at hi
  obtain ⟨c, hc, rfl⟩ := hi
  obtain ⟨hc, htarget⟩ := Graph.mem_connectionsInto.mp (List.mem_filter.mp hc).1
  exact (h.handle hg hc (hn.fed _ ⟨c, hc, rfl, htarget⟩)).2.1

/-- A further node takes no time, and adds its primitives in the states that the graph describes. -/
theorem Laid.states_of_buildNode (h : Laid g base order first a) (hg : g.WellFormed)
    (hn : g.Next a.done n) (hclock : ¬a.rack.clock < a.rack.clock)
    (hamp : n.kind = .clip →
      Scalar.greatest (n.panel.number "amp") Kind.leastClip = n.panel.number "amp")
    {t : α} (ht : a.rack.clock ≤ t) (hquiet : a.rack.Quiet base.primitives.size t) {a' : Assembly α}
    (hbuild : buildNode g master noise n a = .ok a') :
    a'.rack.Quiet base.primitives.size t ∧
      a'.rack.statesAt t = a.rack.statesAt t ++ n.panel.states (g.levelOf n) := by
  obtain ⟨plan, b, hplan, hrun, rfl⟩ := run_of_buildNode hbuild
  obtain ⟨hafter, hstates⟩ := states_of_run (h.beyond hg hn hplan) hquiet hclock ht hrun
  refine ⟨hafter, hstates.trans ?_⟩
  rw [Kind.states_of_blueprint hplan hamp (by simp [Assembly.site, Rack.statesAt])]
  exact congrArg _ (congrArg n.panel.states (funext (h.levelAt hg hn)))

/-- A further node registers its profiles and binds its voices. -/
theorem voicing_of_buildNode {a' : Assembly α} (hbuild : buildNode g master noise n a = .ok a') :
    a'.voicing = ⟨a.voicing.profiles ++ n.panel.profiles, a.voicing.bindings ++
      n.panel.bindings a.rack.primitives.size a.voicing.profiles.length⟩ := by
  obtain ⟨plan, b, hplan, hrun, rfl⟩ := run_of_buildNode hbuild
  exact (voicing_of_run hrun).2.trans (Kind.voicing_of_blueprint hplan _)

theorem clock_of_buildNode {a' : Assembly α} (hbuild : buildNode g master noise n a = .ok a') :
    a'.rack.clock = a.rack.clock := by
  obtain ⟨plan, b, -, hrun, rfl⟩ := run_of_buildNode hbuild
  exact (voicing_of_run hrun).1

/-- A further node is described too, and its voices may be added. -/
theorem Described.step {voicing : Voicing α} (hdescribed : Described g base order first voicing a)
    (h : Laid g base order first a) (hg : g.WellFormed) (hn : g.Next a.done n)
    (hclock : ¬base.clock < base.clock)
    (hamp : n.kind = .clip →
      Scalar.greatest (n.panel.number "amp") Kind.leastClip = n.panel.number "amp")
    {a' : Assembly α} (hbuild : buildNode g master noise n a = .ok a') :
    Described g base (order ++ [n]) (Function.update first n.id a.rack.primitives.size)
      ⟨voicing.profiles ++ n.panel.profiles, voicing.bindings ++
        n.panel.bindings a.rack.primitives.size voicing.profiles.length⟩ a' := by
  have hnew : n.id ∉ order.map (·.id) := h.done ▸ hn.new
  have hstates := fun t (ht : base.clock ≤ t) =>
    h.states_of_buildNode hg hn (hdescribed.clock ▸ hclock) hamp (hdescribed.clock.symm ▸ ht)
      (hdescribed.quiet t ht) hbuild
  refine ⟨List.forall_mem_append.mpr ⟨fun m hm => ?_, List.forall_mem_singleton.mpr ?_⟩,
    (clock_of_buildNode hbuild).trans hdescribed.clock, fun t ht => (hstates t ht).1,
    hdescribed.arranged.add hnew (size_of_buildNode hbuild) (fun t ht => (hstates t ht).2) rfl rfl⟩
  · have hm' := List.mem_map_of_mem (f := (·.id)) hm
    rw [hn.update_of_mem _ (h.done ▸ hm'), firstIn_append hm', hdescribed.places m hm]
  · rw [Function.update_self, firstIn_append_cons hnew, hdescribed.arranged.size]

omit [Scalar α] in
/-- The wires of the nodes that were built are those from the places that they lie on. -/
theorem Laid.wires (h : Laid g base order first a) (hclosed : g.Closed a.done)
    (hwired : Wired g master base order first a)
    (hplaces : ∀ n ∈ order, first n.id = firstIn order base.primitives.size n.id) :
    g.Wires master base.primitives.size order a.rack := by
  have hwiring : order.flatMap (g.wiring master first) =
      order.flatMap (g.wiring master (firstIn order base.primitives.size)) := by
    refine List.flatMap_congr fun n hn => Graph.wiring_congr (hplaces n hn) fun c hc => ?_
    obtain ⟨hc, htarget⟩ := Graph.mem_connectionsInto.mp hc
    have hdone : n.id ∈ a.done := h.done ▸ List.mem_map_of_mem hn
    obtain ⟨m, hm, hid⟩ := List.mem_map.mp (h.done ▸ hclosed _ _ ⟨c, hc, rfl, htarget⟩ hdone)
    exact hid ▸ hplaces m hm
  intro id hid inlet
  have hnone : base.outputsOf id = [] := by
    unfold Rack.outputsOf Rack.primitive?
    rw [Array.getElem?_eq_none hid]
    rfl
  rw [(hwired id).mem_iff, hnone, List.nil_append, hwiring, List.mem_map]
  constructor
  · rintro ⟨⟨source, inlet⟩, hw, rfl⟩
    obtain ⟨hw, hsource⟩ := List.mem_filter.mp hw
    exact beq_iff_eq.mp hsource ▸ hw
  · exact fun hw => ⟨(id, inlet), List.mem_filter.mpr ⟨hw, beq_self_eq_true id⟩, rfl⟩

end Assembly

open Assembly in
/-- A graph whose nodes upstream of the sinks lie on no circle is built on a rack that refuses
nothing: the nodes upstream, each once, in an order in which they lie on the rack as the graph
describes them. -/
theorem Graph.Sound.built {g : Graph α} (hg : g.Sound)
    (hacyclic : ∀ id, g.Upstream id → ¬TransGen g.Feeds id id)
    (hamp : ∀ n ∈ g.nodes, n.kind = .clip →
      Scalar.greatest (n.panel.number "amp") Kind.leastClip = n.panel.number "amp")
    (master : PrimitiveId) (noise : Noise.Source α) {rack : Rack α} (hrefused : rack.refused = [])
    (hclock : ¬rack.clock < rack.clock) :
    ∃ (patch : Patch α) (order : List (Node α)),
      (g.build master noise rack .empty).outcome = .ok patch ∧
      (∀ n, n ∈ order ↔ n ∈ g.nodes ∧ g.Upstream n.id) ∧
      patch.primitives = (order.flatMap fun n =>
        numbered (firstIn order rack.primitives.size n.id) n.kind.outfit) ∧
      Arranged (rack.clock ≤ ·) rack.primitives.size g.levelOf order
        (g.build master noise rack .empty).rack (g.build master noise rack .empty).voicing ∧
      g.Wires master rack.primitives.size order (g.build master noise rack .empty).rack := by
  have hwell := hg.wellFormed
  obtain ⟨patch, hpatch⟩ : ∃ patch, (g.build master noise rack .empty).outcome = .ok patch :=
    hg.exists_patch_iff.mpr ⟨hacyclic, fun _ _ _ _ _ => hrefused ▸ List.not_mem_nil⟩
  -- what is laid out and wired is described, node by node
  obtain ⟨order, first, b, hbuilt, hfinish, -, horder, hclosed, hlaid, hwired, hdescribed⟩ :=
    hwell.exists_laid_of_build hpatch
      (P := fun order first a => Described g rack order first a.voicing a)
      (fun h _ hn hnode hP => voicing_of_buildNode hnode ▸
        hP.step h hwell hn hclock (hamp _ hn.there) hnode) (described_fresh g rack .empty)
  refine ⟨patch, order, hpatch, horder, ?_, hbuilt ▸ hdescribed.arranged, ?_⟩
  · rw [← hfinish]
    refine hlaid.made.trans (List.flatMap_congr fun n hn => ?_)
    rw [hdescribed.places n hn]
  · rw [hbuilt]
    exact hlaid.wires hclosed hwired hdescribed.places

end Patchbay
