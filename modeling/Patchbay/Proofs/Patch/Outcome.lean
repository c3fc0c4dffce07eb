import Patchbay.Proofs.Graph.Reachable
import Patchbay.Proofs.Patch.Resolve
/-!
# When graphs can be built

What is built is what is upstream of the sinks (`exists_trail_of_resolveSinks`). A graph can be
built exactly when nothing upstream lies on a circle and nothing upstream needs a primitive that the
rack refuses, and each failure names such a node or such a family (`Graph.build_outcome`).
-/

namespace Patchbay

open Relation (ReflTransGen TransGen)

variable {α : Type} [Scalar α] {g : Graph α} {master : PrimitiveId} {noise : Noise.Source α}
  {rack : Rack α} {voicing : Voicing α}

namespace Assembly

/-- An assembly before anything is built. -/
def fresh (rack : Rack α) (voicing : Voicing α) : Assembly α := ⟨rack, voicing, [], []⟩

omit [Scalar α] in
theorem furnished_fresh : Furnished g (fresh rack voicing) := by
  intro n _ part hpart
  cases hpart

omit [Scalar α] in
theorem closed_fresh : g.Closed (fresh rack voicing).done :=
  fun _ _ _ h => absurd h List.not_mem_nil

/-- When all sinks are resolved, what is upstream is built, in an order in which each node comes
after all that feeds it, and nothing else is. -/
theorem exists_trail_of_resolveSinks (hg : g.WellFormed) {depth : Nat} {b : Assembly α}
    (h : resolveSinks g master noise depth (fresh rack voicing) = .ok b) :
    ∃ order, Trail g master noise g.Upstream (fresh rack voicing) order b ∧
      ∀ n ∈ g.nodes, g.Upstream n.id → n ∈ order := by
  obtain ⟨⟨order, htrail⟩, hsinks⟩ := trail_of_resolveSinks hg h
  refine ⟨order, htrail, fun n hn hup => ?_⟩
  obtain ⟨sink, hsink, hreach⟩ := hup
  have hdone : b.done = order.map (·.id) := htrail.done_eq
  have hclosed : g.Closed (order.map (·.id)) := htrail.ready.closed closed_fresh
  obtain ⟨m, hm, hid⟩ :=
    List.mem_map.mp (hclosed.mem_of_reaches hreach (hdone ▸ hsinks sink hsink))
  rw [← hg.eq_of_id_eq (htrail.ready.mem_nodes m hm) hn hid]
  exact hm

/-- An order in which every node comes after what feeds it shows that nothing upstream lies on a
circle. -/
theorem Trail.acyclic (hg : g.WellFormed) {order : List (Node α)} {b : Assembly α}
    (htrail : Trail g master noise g.Upstream (fresh rack voicing) order b)
    (hall : ∀ n ∈ g.nodes, g.Upstream n.id → n ∈ order) {id : NodeId} (hid : g.Upstream id) :
    ¬TransGen g.Feeds id id := by
  obtain ⟨n, hn, rfl⟩ := hg.mem_of_upstream hid
  exact htrail.ready.acyclic closed_fresh n (hall n hn hid)

end Assembly

namespace Graph

theorem outcome_buildWithin_eq_ok {depth : Nat} {patch : Patch α} :
    (g.buildWithin depth master noise rack voicing).outcome = .ok patch ↔
      ∃ a, Assembly.resolveSinks g master noise depth (.fresh rack voicing) = .ok a ∧
        a.finish g = patch := by
  unfold buildWithin Assembly.fresh
  split
  next a h => simp [h]
  next stopped h => simp [h]

theorem outcome_buildWithin_eq_error {depth : Nat} {fault : Patch.Fault} :
    (g.buildWithin depth master noise rack voicing).outcome = .error fault ↔
      ∃ stopped, Assembly.resolveSinks g master noise depth (.fresh rack voicing) = .error stopped ∧
        stopped.fault = fault := by
  unfold buildWithin Assembly.fresh
  split
  next a h => simp [h]
  next stopped h => simp [h]

/-- A failure names a node upstream that lies on a circle, or a family that the rack refuses and a
node upstream needs. -/
theorem Sound.fault_of_buildWithin (hg : g.Sound) {depth : Nat}
    (hdepth : g.nodes.length + 1 ≤ depth) {fault : Patch.Fault}
    (h : (g.buildWithin depth master noise rack voicing).outcome = .error fault) :
    (∃ id, fault = .cycle id ∧ g.Upstream id ∧ TransGen g.Feeds id id) ∨
      ∃ f, fault = .refused ⟨f⟩ ∧ f ∈ rack.refused ∧
        ∃ n ∈ g.nodes, g.Upstream n.id ∧ f ∈ n.kind.outfit := by
  obtain ⟨stopped, hresolve, rfl⟩ := outcome_buildWithin_eq_error.mp h
  obtain ⟨order, b, htrail, hfault⟩ :=
    Assembly.blamed_of_resolveSinks hg.wellFormed hdepth Assembly.furnished_fresh hresolve
  rcases hfault with hcycle | ⟨n, hn, hup, hbuild⟩
  · exact Or.inl hcycle
  · obtain ⟨f, hf, hrefused, hfault⟩ := Assembly.fault_of_buildNode (hg.panels n hn) hbuild
    exact Or.inr ⟨f, hfault, htrail.refused.1 ▸ hrefused, n, hn, hup, hf⟩

/-- More depth than there are nodes changes nothing. -/
theorem Sound.buildWithin_eq_build (hg : g.Sound) {depth : Nat}
    (hdepth : g.nodes.length + 1 ≤ depth) :
    g.buildWithin depth master noise rack voicing = g.build master noise rack voicing := by
  obtain ⟨more, rfl⟩ := Nat.exists_eq_add_of_le hdepth
  -- no fault of a sound graph is that of a depth used up
  have hwithin : Assembly.Within
      (Assembly.resolveSinks g master noise (g.nodes.length + 1) (.fresh rack voicing)) := by
    intro id a h
    have herror := outcome_buildWithin_eq_error.mpr ⟨_, h, rfl⟩
    rcases hg.fault_of_buildWithin (Nat.le_refl _) herror with ⟨_, h, -⟩ | ⟨_, h, -⟩ <;> cases h
  have hsame := Assembly.resolveSinks_add more hwithin
  unfold Assembly.fresh at hsame
  unfold build buildWithin
  rw [hsame]

/-- A sound graph can be built exactly when nothing upstream lies on a circle and nothing upstream
needs what the rack refuses. -/
theorem Sound.exists_patch_iff (hg : g.Sound) :
    (∃ patch, (g.build master noise rack voicing).outcome = .ok patch) ↔
      (∀ id, g.Upstream id → ¬TransGen g.Feeds id id) ∧
      ∀ n ∈ g.nodes, g.Upstream n.id → ∀ f ∈ n.kind.outfit, f ∉ rack.refused := by
  constructor
  · rintro ⟨patch, hpatch⟩
    obtain ⟨b, hresolve, -⟩ := outcome_buildWithin_eq_ok.mp hpatch
    obtain ⟨order, htrail, hall⟩ :=
      Assembly.exists_trail_of_resolveSinks hg.wellFormed hresolve
    exact ⟨fun id hid => htrail.acyclic hg.wellFormed hall hid,
      fun n hn hup => htrail.refused.2 n (hall n hn hup)⟩
  · rintro ⟨hacyclic, haccepted⟩
    cases houtcome : (g.build master noise rack voicing).outcome with
    | ok patch => exact ⟨patch, rfl⟩
    | error fault =>
      rcases hg.fault_of_buildWithin (Nat.le_refl _) houtcome with
        ⟨id, -, hup, hcircle⟩ | ⟨f, -, hrefused, n, hn, hup, hf⟩
      · exact absurd hcircle (hacyclic id hup)
      · exact absurd hrefused (haccepted n hn hup f hf)

/-- Building never nests deeper than one node more than the graph has, so that a greater depth gives
the same. It succeeds exactly when nothing upstream of the sinks lies on a circle and nothing
upstream needs a primitive of a refused family, whatever there is elsewhere. When it fails, then
either for a circle, and the node that is named lies on one and is upstream, or for a refused
primitive, and its family is named. -/
theorem build_outcome {g : Graph Float} (h : g.Reachable) (master : PrimitiveId)
    (noise : Noise.Source Float) (rack : Rack Float) (voicing : Voicing Float) :
    (∀ depth, g.nodes.length + 1 ≤ depth →
      g.buildWithin depth master noise rack voicing = g.build master noise rack voicing) ∧
    ((∃ patch, (g.build master noise rack voicing).outcome = .ok patch) ↔
      (∀ id, g.Upstream id → ¬TransGen g.Feeds id id) ∧
      ∀ n ∈ g.nodes, g.Upstream n.id → ∀ f ∈ n.kind.outfit, f ∉ rack.refused) ∧
    ∀ fault, (g.build master noise rack voicing).outcome = .error fault →
      (∃ id, fault = .cycle id ∧ g.Upstream id ∧ TransGen g.Feeds id id) ∨
      ∃ f, fault = .refused ⟨f⟩ ∧ f ∈ rack.refused := by
  have hg := h.sound
  refine ⟨fun depth hdepth => hg.buildWithin_eq_build hdepth, hg.exists_patch_iff,
    fun fault hfault => ?_⟩
  rcases hg.fault_of_buildWithin (Nat.le_refl _) hfault with hcycle | ⟨f, hf, hrefused, -⟩
  · exact Or.inl hcycle
  · exact Or.inr ⟨f, hf, hrefused⟩

/-- A gain that feeds itself and what is heard. -/
def feedback : Graph Float :=
  empty.run [.addNode .gain, .addNode .audioOutput, .connect ⟨"n1", "signal", "n1", "signal"⟩,
    .connect ⟨"n1", "signal", "n2", "signal"⟩]

theorem not_built_feedback :
    ¬∃ patch, (feedback.build 0 ⟨2.0, 1⟩ (.new 48000.0) .empty).outcome = .ok patch := by
  intro hbuilt
  have hconnections : feedback.connections =
      [⟨"n1", "signal", "n1", "signal"⟩, ⟨"n1", "signal", "n2", "signal"⟩] := by decide +kernel
  have hsinks : feedback.sinks.map (·.id) = ["n2"] := by decide +kernel
  obtain ⟨sink, hsink, hid⟩ : ∃ sink ∈ feedback.sinks, sink.id = "n2" := by
    rw [← List.mem_map, hsinks]
    exact List.mem_singleton_self _
  have hself : feedback.Feeds "n1" "n1" := by
    refine ⟨⟨"n1", "signal", "n1", "signal"⟩, ?_, rfl, rfl⟩
    rw [hconnections]
    exact List.mem_cons_self
  have hheard : feedback.Feeds "n1" sink.id := by
    refine ⟨⟨"n1", "signal", "n2", "signal"⟩, ?_, rfl, hid.symm⟩
    rw [hconnections]
    exact List.mem_cons_of_mem _ List.mem_cons_self
  have hg : feedback.Reachable := ⟨_, rfl⟩
  exact ((build_outcome hg 0 ⟨2.0, 1⟩ (.new 48000.0) .empty).2.1.mp hbuilt).1 "n1"
    ⟨sink, hsink, .single hheard⟩ (.single hself)

end Graph

end Patchbay
