import Mathlib.Data.List.Perm.Subperm
import Mathlib.Logic.Relation
import Patchbay.Proofs.Graph.WellFormed
import Patchbay.Proofs.Kind
/-!
# Paths through graphs

Which nodes feed which, and in what orders nodes can be taken so that all that feeds a node comes
before it (`Ready`). Nodes that can be taken in such an order lie on no circle (`Ready.acyclic`),
and with a node every node from which it can be reached is taken (`Ready.closed`).
-/

namespace Patchbay.Graph

open Relation (ReflTransGen TransGen)

variable {α : Type} {g : Graph α}

/-- A connection leads from the one node to the other. -/
def Feeds (g : Graph α) (a b : NodeId) : Prop := ∃ c ∈ g.connections, c.source = a ∧ c.target = b

/-- Some sink can be reached from the node; a sink is reached from itself. -/
def Upstream (g : Graph α) (id : NodeId) : Prop :=
  ∃ sink ∈ g.sinks, ReflTransGen g.Feeds id sink.id

theorem mem_nodes_of_mem_sinks {n : Node α} (h : n ∈ g.sinks) : n ∈ g.nodes :=
  (List.mem_filter.mp h).1

/-- What feeds a node upstream is upstream. -/
theorem Upstream.source {c : Connection} (hc : c ∈ g.connections) (h : g.Upstream c.target) :
    g.Upstream c.source := by
  obtain ⟨sink, hsink, hreach⟩ := h
  exact ⟨sink, hsink, hreach.head ⟨c, hc, rfl, rfl⟩⟩

/-- The source of a connection is a node with the output socket that the connection names. -/
theorem WellFormed.source (h : g.WellFormed) {c : Connection} (hc : c ∈ g.connections) :
    ∃ n ∈ g.nodes, n.id = c.source ∧ (n.kind.output? c.output).isSome := by
  obtain ⟨k, hk, houtput⟩ := (h.joined c hc).source
  obtain ⟨n, hn, hid, rfl⟩ := has_iff.mp hk
  exact ⟨n, hn, hid, houtput⟩

/-- A connection into a node names one of the node's input sockets. -/
theorem WellFormed.input_mem (h : g.WellFormed) {c : Connection} (hc : c ∈ g.connections)
    {n : Node α} (hn : n ∈ g.nodes) (hid : c.target = n.id) :
    c.input ∈ n.kind.inputs.map (·.name) := by
  obtain ⟨k, hk, hinput⟩ := (h.joined c hc).target
  obtain rfl := h.kind_eq (hid ▸ hk) (has_of_mem hn)
  obtain ⟨s, hs⟩ := Option.isSome_iff_exists.mp hinput
  obtain ⟨hmem, hname⟩ := Kind.input?_eq_some_iff.mp hs
  exact hname ▸ List.mem_map_of_mem hmem

/-- What is upstream of the sinks of a well-formed graph is a node. -/
theorem WellFormed.mem_of_upstream (h : g.WellFormed) {id : NodeId} (hid : g.Upstream id) :
    ∃ n ∈ g.nodes, n.id = id := by
  obtain ⟨sink, hsink, hreach⟩ := hid
  rcases hreach.cases_head with rfl | ⟨b, ⟨c, hc, rfl, -⟩, -⟩
  · exact ⟨sink, mem_nodes_of_mem_sinks hsink, rfl⟩
  · obtain ⟨n, hn, hid, -⟩ := h.source hc
    exact ⟨n, hn, hid⟩

/-! ## Orders -/

/-- After some nodes are done the node may come next: it is not done, and all that feeds it is. -/
structure Next (g : Graph α) (done : List NodeId) (n : Node α) : Prop where
  there : n ∈ g.nodes
  new : n.id ∉ done
  fed : ∀ m, g.Feeds m n.id → m ∈ done

/-- After some nodes are done the nodes of an order may come one after another. -/
def Ready (g : Graph α) : List NodeId → List (Node α) → Prop
  | _, [] => True
  | done, n :: order => g.Next done n ∧ g.Ready (done ++ [n.id]) order

/-- With a node all that feeds it is done. -/
def Closed (g : Graph α) (done : List NodeId) : Prop := ∀ a b, g.Feeds a b → b ∈ done → a ∈ done

theorem ready_append {done : List NodeId} {order order' : List (Node α)} :
    g.Ready done (order ++ order') ↔
      g.Ready done order ∧ g.Ready (done ++ order.map (·.id)) order' := by
  induction order generalizing done with
  | nil => simp [Ready]
  | cons n order ih => simp [Ready, ih, and_assoc]

theorem ready_singleton {done : List NodeId} {n : Node α} : g.Ready done [n] ↔ g.Next done n := by
  simp [Ready]

theorem Ready.mem_nodes {done : List NodeId} {order : List (Node α)} (h : g.Ready done order) :
    ∀ n ∈ order, n ∈ g.nodes := by
  induction order generalizing done with
  | nil => exact fun n hn => absurd hn List.not_mem_nil
  | cons n order ih =>
    intro m hm
    rcases List.mem_cons.mp hm with rfl | hm
    · exact h.1.there
    · exact ih h.2 m hm

/-- No node comes twice. -/
theorem Ready.nodup {done : List NodeId} {order : List (Node α)} (h : g.Ready done order)
    (hdone : done.Nodup) : (done ++ order.map (·.id)).Nodup := by
  induction order generalizing done with
  | nil => simpa using hdone
  | cons n order ih =>
    have hdone' : (done ++ [n.id]).Nodup := by
      rw [List.nodup_append]
      refine ⟨hdone, List.nodup_singleton _, fun a ha b hb heq => h.1.new ?_⟩
      exact List.mem_singleton.mp hb ▸ heq ▸ ha
    simpa using ih h.2 hdone'

theorem Next.closed {done : List NodeId} {n : Node α} (h : g.Next done n) (hdone : g.Closed done) :
    g.Closed (done ++ [n.id]) := by
  intro a b hab hb
  rw [List.mem_append, List.mem_singleton] at hb ⊢
  rcases hb with hb | rfl
  · exact Or.inl (hdone a b hab hb)
  · exact Or.inl (h.fed a hab)

theorem Ready.closed {done : List NodeId} {order : List (Node α)} (h : g.Ready done order)
    (hdone : g.Closed done) : g.Closed (done ++ order.map (·.id)) := by
  induction order generalizing done with
  | nil => simpa using hdone
  | cons n order ih => simpa using ih h.2 (h.1.closed hdone)

theorem Closed.mem_of_reaches {done : List NodeId} (hdone : g.Closed done) {a b : NodeId}
    (h : ReflTransGen g.Feeds a b) (hb : b ∈ done) : a ∈ done := by
  induction h using ReflTransGen.head_induction_on with
  | refl => exact hb
  | head hab _ ih => exact hdone _ _ hab ih

/-- A node that comes next lies on no circle, since it would be done already. -/
theorem Next.acyclic {done : List NodeId} {n : Node α} (h : g.Next done n) (hdone : g.Closed done) :
    ¬TransGen g.Feeds n.id n.id := by
  intro hcycle
  obtain ⟨m, hreach, hfeeds⟩ := TransGen.tail'_iff.mp hcycle
  exact h.new (hdone.mem_of_reaches hreach (h.fed m hfeeds))

/-- Nodes that come in a ready order lie on no circle. -/
theorem Ready.acyclic {done : List NodeId} {order : List (Node α)} (h : g.Ready done order)
    (hdone : g.Closed done) : ∀ n ∈ order, ¬TransGen g.Feeds n.id n.id := by
  induction order generalizing done with
  | nil => exact fun n hn => absurd hn List.not_mem_nil
  | cons n order ih =>
    intro m hm
    rcases List.mem_cons.mp hm with rfl | hm
    · exact h.1.acyclic hdone
    · exact ih h.2 (h.1.closed hdone) m hm

/-! ## Climbing -/

/-- Where the search stands: on the path to a node there are distinct nodes, and the node leads on
to each of them. -/
structure Climb (g : Graph α) (path : List NodeId) (id : NodeId) : Prop where
  nodes : path ⊆ g.nodes.map (·.id)
  nodup : path.Nodup
  leads : ∀ id' ∈ path, TransGen g.Feeds id id'

theorem Climb.nil {id : NodeId} : g.Climb [] id where
  nodes := List.nil_subset _
  nodup := List.nodup_nil
  leads _ h := absurd h List.not_mem_nil

theorem Climb.length_le {path : List NodeId} {id : NodeId} (h : g.Climb path id) :
    path.length ≤ g.nodes.length := by
  have := (h.nodup.subperm h.nodes).length_le
  rwa [List.length_map] at this

/-- One more node on the path. -/
theorem Climb.step {path : List NodeId} {id id' : NodeId} (h : g.Climb path id)
    (hid : id ∈ g.nodes.map (·.id)) (hpath : id ∉ path) (hfeeds : g.Feeds id' id) :
    g.Climb (id :: path) id' where
  nodes := List.cons_subset.mpr ⟨hid, h.nodes⟩
  nodup := List.nodup_cons.mpr ⟨hpath, h.nodup⟩
  leads := by
    intro m hm
    rcases List.mem_cons.mp hm with rfl | hm
    · exact .single hfeeds
    · exact .head hfeeds (h.leads m hm)

end Patchbay.Graph
