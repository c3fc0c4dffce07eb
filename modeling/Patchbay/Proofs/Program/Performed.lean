import Patchbay.Proofs.Program.Preamble
import Patchbay.Proofs.Program.Wirings
/-!
# Running a whole program

The program of a sound graph runs to its end, from the preamble over the blocks and the wiring to
the start of the sources. On the rack are then the two primitives of the master chain and after them
all nodes but the monitors, in the order of the graph, with the levels and wires that the graph
describes (`Graph.Sound.exists_performed`).
-/

namespace Patchbay

open Script Program

variable {α : Type}

/-- The nodes that have primitives in a program: all but the monitors, in the order of the graph. -/
def Graph.heard (g : Graph α) : List (Node α) := g.nodes.filter fun n => !n.kind.isMonitor

theorem Graph.heard_eq (g : Graph α) : heardOf g.nodes.zipIdx = g.heard := by
  rw [heardOf, List.zipIdx_map_fst, heard]

variable [Scalar α]

/-! ## Starting sources -/

/-- Starts primitives. -/
def Rack.startAll (rack : Rack α) (ids : List PrimitiveId) : Rack α :=
  ids.foldl (fun rack id => rack.start id rack.clock) rack

section

variable (rack : Rack α) (ids : List PrimitiveId)

theorem Rack.statesAt_startAll (t : α) : (rack.startAll ids).statesAt t = rack.statesAt t := by
  induction ids generalizing rack with
  | nil => rfl
  | cons id ids ih => exact (ih _).trans (rack.statesAt_update_eq id fun _ => rfl)

omit [Scalar α] in
theorem Rack.outputsOf_startAll (id : PrimitiveId) :
    (rack.startAll ids).outputsOf id = rack.outputsOf id := by
  induction ids generalizing rack with
  | nil => rfl
  | cons other ids ih =>
    refine (ih _).trans (rack.outputsOf_update_of_outputs other ?_ id)
    exact fun _ => rfl

end

namespace Script

variable {page : Page α} {g : Graph α} {master start : PrimitiveId} {seconds : α}
  {placed : List (Node α × Nat)} {done : List Connection} {level : Node α → String → α}
  {s : Stage α}

/-- What does not show in states and outputs leaves what the stage holds. -/
theorem Stage.Holds.with_rack (h : s.Holds g master start seconds placed done level) {rack : Rack α}
    (hstates : ∀ t, rack.statesAt t = s.rack.statesAt t)
    (houtputs : ∀ id, rack.outputsOf id = s.rack.outputsOf id) :
    s.Extends { s with rack } ∧
      ({ s with rack } : Stage α).Holds g master start seconds placed done level := by
  have hfamilies : rack.families = s.rack.families := by
    rw [← rack.map_family_statesAt 0.0, hstates, s.rack.map_family_statesAt]
  have hsize : rack.primitives.size = s.rack.primitives.size := by
    rw [← rack.length_families, hfamilies, s.rack.length_families]
  have hextends : s.Extends { s with rack } := Stage.extends_rack hfamilies
  refine ⟨hextends, h.prepared.with_rack _, h.arranged.of_states hsize hstates,
    fun entry hentry hheard => (h.reaches entry hentry hheard).extend hextends,
    fun id hid inlet => ?_⟩
  rw [← h.wires id hid inlet, houtputs]

variable (page) in
/-- The sources are started, and the names that the program offers are declared. -/
theorem Stage.Holds.finish (h : s.Holds g master start seconds placed done level) :
    ∃ s', execAll page epilogue.flatten s = some s' ∧ s.Extends s' ∧
      s'.Holds g master start seconds placed done level := by
  obtain ⟨sources, lists, hlists, hobjects⟩ := h.prepared.objects
  obtain ⟨ids, rfl⟩ : sources ∈ Set.range (List.map (Value.object (α := α))) := by
    rw [Set.range_list_map]
    exact fun v hv => (hobjects v hv).imp fun _ heq => heq.symm
  have hitems : s.itemsOf? (.list 0) = some (ids.map .object) := by
    simp [Stage.itemsOf?, hlists]
  have hstart : exec page (.forItems ["source"] (.name "sources") false
      [.run (.send (.name "source") "start" [])]) s =
      some { s with rack := s.rack.startAll ids } := by
    refine exec_forObjects (Means.name h.prepared.sources) hitems (h.prepared.loops _ (by decide))
      (fun rack id => rack.families_update id fun _ => rfl) fun inner id _ hscope _ => ?_
    refine execAll_singleton (exec_run (v := .nothing) ((Means.name (v := .object id) ?_).send
      evalAll_nil rfl))
    rw [hscope, Function.update_self]
  obtain ⟨hextends, hholds⟩ := h.with_rack (s.rack.statesAt_startAll ids)
    (s.rack.outputsOf_startAll ids)
  refine ⟨_, ?_, hextends, hholds⟩
  show execAll page [_, _] s = _
  rw [execAll_cons hstart]
  refine execAll_singleton ?_
  exact if_pos (by simp [h.prepared.ctx, h.prepared.master, h.prepared.sources])

/-- After the helpers no node is on the rack. -/
theorem Stage.Prepared.holds (h : s.Prepared g master) (hvoicing : s.voicing = .empty) (seconds : α)
    (level : Node α → String → α) : s.Holds g master s.size seconds [] [] level where
  prepared := h
  arranged := hvoicing ▸ .begun s.rack
  reaches _ hentry := absurd hentry List.not_mem_nil
  wires id hid inlet := by
    have hnone : s.rack.outputsOf id = [] := by
      unfold Rack.outputsOf Rack.primitive?
      rw [Array.getElem?_eq_none hid]
      rfl
    simp [hnone, heardOf]

/-- When all connections are done, the rack is wired as the graph is. -/
theorem Stage.Holds.wired (h : s.Holds g master start seconds placed g.connections level) :
    g.Wires master start (heardOf placed) s.rack := by
  intro id hid inlet
  rw [h.wires id hid inlet, List.mem_flatMap]
  constructor
  · rintro (⟨n, hn, hinner⟩ | ⟨c, hc, n, hn, htarget, rfl, hinlet⟩)
    · exact ⟨n, hn, List.mem_append_left _ hinner⟩
    · exact ⟨n, hn, List.mem_append_right _ (List.mem_flatMap.mpr
        ⟨c, Graph.mem_connectionsInto.mpr ⟨hc, htarget⟩, List.mem_map_of_mem hinlet⟩)⟩
  · rintro ⟨n, hn, hw⟩
    rcases List.mem_append.mp hw with hinner | hw
    · exact .inl ⟨n, hn, hinner⟩
    · obtain ⟨c, hc, hw⟩ := List.mem_flatMap.mp hw
      obtain ⟨inlet, hinlet, heq⟩ := List.mem_map.mp hw
      cases heq
      obtain ⟨hc, htarget⟩ := Graph.mem_connectionsInto.mp hc
      exact .inr ⟨c, hc, n, hn, htarget, rfl, hinlet⟩

/-- When all connections are done, the levels are those of the graph. -/
theorem Stage.Holds.levels (h : s.Holds g master start seconds placed g.connections level)
    (hfed : Fed g.connections (heardOf placed) level)
    (hinlined : Inlined g (heardOf placed) level) :
    Arranged (fun _ => True) start g.levelOf (heardOf placed) s.rack s.voicing := by
  refine h.arranged.congr fun n hn socket hsocket hinline => ?_
  unfold Graph.levelOf
  split
  next hconnected => exact hfed n hn socket hsocket hinline (Graph.isConnected_iff.mp hconnected)
  next hconnected => exact hinlined n hn socket hsocket hinline (by simpa using hconnected)

end Script

/-- The parts of a program, one after another. -/
theorem flatten_ofGraph (g : Graph α) (options : Options α) :
    (ofGraph g options).flatten = preamble g options ++ ((helpers g).flatten ++
      (((g.nodes.zipIdx 0).flatMap fun entry =>
        (blockOf g options.noiseSeconds entry.1 entry.2).statements) ++
      (.comment "wiring" :: (wirings (blocks g options) [] g.connections ++
        epilogue.flatten)))) := by
  simp [ofGraph, blocks, List.flatMap_def, Function.comp_def]

/-- The program of a sound graph runs, and leaves the nodes as the graph describes them. -/
theorem Graph.Sound.exists_performed {g : Graph α} (hg : g.Sound) (page : Page α)
    (options : Options α) :
    ∃ s, Script.run page (ofGraph g options) = some s ∧ s.scope "master" = some (.object 0) ∧
      s.rack.families = [.gain, .dynamicsCompressor] ++ g.heard.flatMap (·.kind.outfit) ∧
      Arranged (fun _ => True) 2 g.levelOf g.heard s.rack s.voicing ∧
      g.Wires 0 2 g.heard s.rack := by
  -- the master chain and the helpers
  have hbegun := begun_preamble page options
  obtain ⟨s₁, hexec₁, hprepared, hfresh, hrack, hvoicing⟩ := hbegun.exists_prepared page g
  have hfamilies : s₁.rack.families = [.gain, .dynamicsCompressor] := hrack ▸ hbegun.families
  have hsize : s₁.size = 2 := s₁.rack.length_families.symm.trans (congrArg List.length hfamilies)
  have hholds := hprepared.holds (hvoicing.trans hbegun.voicing) options.noiseSeconds g.levelOf
  rw [hsize] at hholds
  -- the blocks, then the wiring, then the start of the sources
  have haccepted : ∀ n ∈ g.nodes, n ∈ g.nodes ∧ n.panel.Accepted := fun n hn =>
    ⟨hn, hg.panels n hn⟩
  obtain ⟨s₂, level₂, hexec₂, hplaced⟩ := hholds.layAll page
    (fun _ hn => absurd hn List.not_mem_nil) hfresh haccepted hg.wellFormed.names
  obtain ⟨s₃, level₃, hexec₃, hextends₃, hwired, hfed, hinlined⟩ := hplaced.holds.wireAll
    page hg.wellFormed (fun _ _ _ _ _ ⟨_, hc, _⟩ => absurd hc List.not_mem_nil)
    hplaced.inlined (List.Subset.refl g.connections)
  obtain ⟨s₄, hexec₄, hextends₄, hended⟩ := hwired.finish page
  have hextends := (hplaced.extends'.trans hextends₃).trans hextends₄
  -- what comes before the nodes on the rack is the master chain
  obtain ⟨chain, hlength, hchain⟩ := hended.arranged.families (t := (0.0 : α)) trivial
  obtain ⟨others, hothers⟩ := hextends.families_prefix
  rw [hfamilies, hchain] at hothers
  obtain rfl : [.gain, .dynamicsCompressor] = chain := List.append_inj_left hothers hlength.symm
  refine ⟨s₄, ?_, hextends.scope _ _ hprepared.master, ?_, ?_, ?_⟩
  · have hcomment : exec page (.comment "wiring") s₂ = some s₂ := rfl
    unfold Script.run
    rw [flatten_ofGraph, execAll_append, (does_preamble page g options).exec_none,
      Option.bind_some, execAll_append, hexec₁, Option.bind_some, execAll_append, hexec₂,
      Option.bind_some, execAll_cons hcomment, execAll_append, hexec₃, Option.bind_some, hexec₄]
  · rw [hchain, g.heard_eq]
  · rw [← g.heard_eq]
    exact hended.levels hfed hinlined
  · rw [← g.heard_eq]
    exact hended.wired

end Patchbay
