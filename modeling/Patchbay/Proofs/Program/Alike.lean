import Patchbay.Proofs.Program.Built
import Patchbay.Proofs.Program.Moving
/-!
# What is heard of a graph

Of a graph those nodes are heard that are outputs or from which an output can be reached. Two racks
on which a graph lies are alike (`Graph.Alike`) when of these nodes there are the same primitives in
the same states, wired among themselves and to the master input in the same way, with the same
voices. Racks on which the nodes have the same levels are alike wherever the nodes lie
(`Graph.alike_of_arranged`).
-/

namespace Patchbay

open Relation (ReflTransGen)

variable {α : Type}

/-! ## Audible nodes -/

/-- A node that is an output, or from which one can be reached. -/
def Graph.Audible (g : Graph α) (id : NodeId) : Prop :=
  ∃ out ∈ g.nodes, out.kind.isOutput = true ∧ ReflTransGen g.Feeds id out.id

/-- A monitor has no outputs. -/
theorem Kind.not_isMonitor_of_output {k : Kind} {o : Socket} (ho : o ∈ k.outputs) :
    k.isMonitor = false := by
  revert ho
  cases k <;> simp [outputs, isMonitor]

namespace Graph

variable {g : Graph α} {n : Node α}

theorem audible_of_isOutput (hn : n ∈ g.nodes) (h : n.kind.isOutput = true) : g.Audible n.id :=
  ⟨n, hn, h, .refl⟩

theorem Audible.upstream {id : NodeId} (h : g.Audible id) : g.Upstream id := by
  obtain ⟨out, hout, hkind, hreach⟩ := h
  refine ⟨out, List.mem_filter.mpr ⟨hout, ?_⟩, hreach⟩
  revert hkind
  cases out.kind <;> decide

/-- Nothing is patched from a monitor. -/
theorem WellFormed.not_isMonitor (hg : g.WellFormed) (hn : n ∈ g.nodes) {id : NodeId}
    (h : g.Feeds n.id id) : n.kind.isMonitor = false := by
  obtain ⟨c, hc, hsource, -⟩ := h
  obtain ⟨m, hm, hid, houtput⟩ := hg.source hc
  obtain rfl := hg.eq_of_id_eq hn hm (hsource.symm.trans hid.symm)
  obtain ⟨o, ho, -⟩ := List.find?_isSome.mp houtput
  exact Kind.not_isMonitor_of_output ho

/-- A monitor is not heard. -/
theorem Audible.not_isMonitor (hg : g.WellFormed) (hn : n ∈ g.nodes) (h : g.Audible n.id) :
    n.kind.isMonitor = false := by
  obtain ⟨out, hout, hkind, hreach⟩ := h
  rcases hreach.cases_head with hid | ⟨id, hfeeds, -⟩
  · obtain rfl := hg.eq_of_id_eq hn hout hid
    revert hkind
    cases n.kind <;> decide
  · exact hg.not_isMonitor hn hfeeds

end Graph

/-! ## Orders of nodes -/

namespace Graph

variable {g : Graph α} {master master' start start' : PrimitiveId} {order order' : List (Node α)}
  {rack rack' : Rack α} {n m : Node α}

/-- An order of nodes of a graph, each once, that has with a node all that feeds it, and among them
all that are heard. -/
structure Covers (g : Graph α) (order : List (Node α)) : Prop where
  nodes : ∀ n ∈ order, n ∈ g.nodes
  nodup : (order.map (·.id)).Nodup
  closed : ∀ n ∈ order, ∀ m ∈ g.nodes, g.Feeds m.id n.id → m ∈ order
  audible : ∀ n ∈ g.nodes, g.Audible n.id → n ∈ order

/-- What leads to heard nodes or to the master on one rack does so on another, when the nodes are
moved to where they lie there. -/
theorem Wires.move (hg : g.WellFormed) (hcovers : g.Covers order) (hcovers' : g.Covers order')
    (hmaster : master < start) (h : g.Wires master start order rack)
    (h' : g.Wires master' start' order' rack') :
    ∃ f : PrimitiveId → PrimitiveId, f master = master' ∧
      (∀ n ∈ order, ∀ i < n.kind.outfit.length,
        f (firstIn order start n.id + i) = firstIn order' start' n.id + i) ∧
      ∀ n ∈ order, ∀ i < n.kind.outfit.length,
        ∀ inlet ∈ rack.outputsOf (firstIn order start n.id + i),
        (inlet = .input master ∨ ∃ m ∈ g.nodes, g.Audible m.id ∧
          ∃ j < m.kind.outfit.length, inlet.place = firstIn order start m.id + j) →
        inlet.move f ∈ rack'.outputsOf (firstIn order' start' n.id + i) := by
  obtain ⟨f, hbefore, hf⟩ :=
    exists_move hcovers.nodup (firstIn order' start') fun _ => master'
  have hfmaster : f master = master' := hbefore master hmaster
  refine ⟨f, hfmaster, hf, fun n hn i hi inlet hinlet hheard => ?_⟩
  have hlow : start ≤ firstIn order start n.id + i :=
    Nat.le_add_right_of_le (start_le_firstIn _ _ _)
  obtain ⟨k, hk, hw⟩ := List.mem_flatMap.mp ((h _ hlow _).mp hinlet)
  -- the wire belongs to a node that is heard, and so lies on the other rack
  have hk' : k ∈ order' := by
    refine hcovers'.audible k (hcovers.nodes k hk) ?_
    rcases wiring_into hw with ⟨-, hkind⟩ | ⟨j, hj, hplace⟩
    · exact audible_of_isOutput (hcovers.nodes k hk) hkind
    rcases hheard with rfl | ⟨m, hm, haudible, j', hj', hplace'⟩
    · have hplace : master = firstIn order start k.id + j := hplace
      exact absurd (hplace ▸ hmaster)
        (Nat.not_lt.mpr (Nat.le_add_right_of_le (start_le_firstIn _ _ _)))
    · have hsame := firstIn_inj hcovers.nodup hk (hcovers.audible m hm haudible) hj hj'
        (hplace.symm.trans hplace')
      exact hsame.1 ▸ haudible
  have hmove : (g.wiring master (firstIn order start) k).map (moveWire f) =
      g.wiring (f master) (firstIn order' start') k :=
    wiring_move hg (hf k hk) fun c hc htarget m hm hid =>
      hf m (hcovers.closed k hk m hm ⟨c, hc, hid.symm, htarget⟩)
  have hw' : moveWire f (firstIn order start n.id + i, inlet) ∈
      g.wiring master' (firstIn order' start') k := by
    rw [← hfmaster, ← hmove]
    exact List.mem_map_of_mem hw
  have hlow' : start' ≤ firstIn order' start' n.id + i :=
    Nat.le_add_right_of_le (start_le_firstIn _ _ _)
  refine (h' _ hlow' _).mpr (List.mem_flatMap.mpr ⟨k, hk', ?_⟩)
  rw [← hf n hn i hi]
  exact hw'

end Graph

/-! ## Alike -/

/-- A graph on a rack: the voices, the master input, and the first primitive of each node. -/
structure Rig (α : Type) where
  rack : Rack α
  voicing : Voicing α
  master : PrimitiveId
  first : NodeId → PrimitiveId

/-- Of the nodes that are heard there is the same on two racks: the same primitives with the same
fixed settings and, at the times in question, the same values of all parameters; the same wires
among them and to the master input; and the same voices that open them. -/
structure Graph.Alike [Scalar α] (g : Graph α) (when : α → Prop) (rig rig' : Rig α) : Prop where
  states : ∀ n ∈ g.nodes, g.Audible n.id → ∀ i < n.kind.outfit.length, ∀ t, when t →
    ∃ state, (rig.rack.primitive? (rig.first n.id + i)).map (·.stateAt t) = some state ∧
      (rig'.rack.primitive? (rig'.first n.id + i)).map (·.stateAt t) = some state
  inputs : ∀ n ∈ g.nodes, g.Audible n.id → ∀ i < n.kind.outfit.length,
    ∀ m ∈ g.nodes, g.Audible m.id → ∀ j < m.kind.outfit.length,
      (.input (rig.first m.id + j) ∈ rig.rack.outputsOf (rig.first n.id + i) ↔
        .input (rig'.first m.id + j) ∈ rig'.rack.outputsOf (rig'.first n.id + i))
  dials : ∀ n ∈ g.nodes, g.Audible n.id → ∀ i < n.kind.outfit.length,
    ∀ m ∈ g.nodes, g.Audible m.id → ∀ j < m.kind.outfit.length, ∀ param,
      (.dial ⟨rig.first m.id + j, param⟩ ∈ rig.rack.outputsOf (rig.first n.id + i) ↔
        .dial ⟨rig'.first m.id + j, param⟩ ∈ rig'.rack.outputsOf (rig'.first n.id + i))
  master : ∀ n ∈ g.nodes, g.Audible n.id → ∀ i < n.kind.outfit.length,
    (.input rig.master ∈ rig.rack.outputsOf (rig.first n.id + i) ↔
      .input rig'.master ∈ rig'.rack.outputsOf (rig'.first n.id + i))
  voices : ∀ n ∈ g.nodes, g.Audible n.id → ∀ i < n.kind.outfit.length, ∀ param,
    rig.voicing.voicesOn ⟨rig.first n.id + i, param⟩ =
      rig'.voicing.voicesOn ⟨rig'.first n.id + i, param⟩

/-- Racks on which the nodes have the same levels are alike, wherever the nodes lie. -/
theorem Graph.alike_of_arranged [Scalar α] {g : Graph α} (hg : g.WellFormed)
    {when when' : α → Prop} (hwhen : ∀ t, when t → when' t) {level : Node α → String → α}
    {master master' start start' : PrimitiveId} {order order' : List (Node α)}
    {rack rack' : Rack α} {voicing voicing' : Voicing α}
    (hcovers : g.Covers order) (hcovers' : g.Covers order')
    (h : Arranged when start level order rack voicing)
    (h' : Arranged when' start' level order' rack' voicing')
    (hmaster : master < start) (hmaster' : master' < start')
    (hwires : g.Wires master start order rack) (hwires' : g.Wires master' start' order' rack') :
    g.Alike when ⟨rack, voicing, master, firstIn order start⟩
      ⟨rack', voicing', master', firstIn order' start'⟩ := by
  -- primitives are moved there and back, and wires go along both times
  obtain ⟨f, hfmaster, hf, hmove⟩ := hwires.move hg hcovers hcovers' hmaster hwires'
  obtain ⟨f', hfmaster', hf', hmove'⟩ := hwires'.move hg hcovers' hcovers hmaster' hwires
  refine ⟨fun n hn haudible i hi t ht => ?_, fun n hn haudible i hi m hm haudible' j hj => ?_,
    fun n hn haudible i hi m hm haudible' j hj param => ?_, fun n hn haudible i hi => ?_,
    fun n hn haudible i hi param => ?_⟩
  all_goals
    have hin := hcovers.audible n hn haudible
    have hin' := hcovers'.audible n hn haudible
  · have hi' : i < (n.panel.states (level n)).length := (n.panel.length_states _).symm ▸ hi
    refine ⟨_, (h.state hin hi ht).trans (List.getElem?_eq_getElem hi'), ?_⟩
    exact (h'.state hin' hi (hwhen t ht)).trans (List.getElem?_eq_getElem hi')
  · have hforth := hmove n hin i hi (.input (firstIn order start m.id + j))
    have hback := hmove' n hin' i hi (.input (firstIn order' start' m.id + j))
    simp only [Inlet.move, hf m (hcovers.audible m hm haudible') j hj,
      hf' m (hcovers'.audible m hm haudible') j hj] at hforth hback
    exact ⟨fun h => hforth h (.inr ⟨m, hm, haudible', j, hj, rfl⟩),
      fun h => hback h (.inr ⟨m, hm, haudible', j, hj, rfl⟩)⟩
  · have hforth := hmove n hin i hi (.dial ⟨firstIn order start m.id + j, param⟩)
    have hback := hmove' n hin' i hi (.dial ⟨firstIn order' start' m.id + j, param⟩)
    simp only [Inlet.move, hf m (hcovers.audible m hm haudible') j hj,
      hf' m (hcovers'.audible m hm haudible') j hj] at hforth hback
    exact ⟨fun h => hforth h (.inr ⟨m, hm, haudible', j, hj, rfl⟩),
      fun h => hback h (.inr ⟨m, hm, haudible', j, hj, rfl⟩)⟩
  · have hforth := hmove n hin i hi (.input master)
    have hback := hmove' n hin' i hi (.input master')
    simp only [Inlet.move, hfmaster, hfmaster'] at hforth hback
    exact ⟨fun h => hforth h (.inl trivial), fun h => hback h (.inl trivial)⟩
  · exact (h.voicesOn hin hi param).trans (h'.voicesOn hin' hi param).symm

end Patchbay
