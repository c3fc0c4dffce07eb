import Mathlib.Data.List.Nodup
import Patchbay.Graph.Basic
/-!
# Well-formed graphs

What holds of a graph between any two edits: the places agree with the nodes, names are given once,
every connection joins sockets that are there, no connection is made twice, a socket for one
connection has at most one, and comments link nodes that are there.

The invariant looks at names and kinds only, so an edit that leaves these alone keeps it
(`WellFormed.of_signatures`), and so does one that only drops connections
(`WellFormed.of_connections`). `node?_eq_some_iff` is what the rest of the theory uses: looking a
node up by its name finds exactly the node of that name.
-/

namespace Patchbay.Graph

variable {α : Type}

/-- The name and the kind of a node. -/
def signature (n : Node α) : NodeId × Kind := (n.id, n.kind)

/-- A node of that name and kind is there. -/
def Has (g : Graph α) (id : NodeId) (k : Kind) : Prop := (id, k) ∈ g.nodes.map signature

/-- Both ends of a connection are sockets of nodes that are there. -/
structure Joins (g : Graph α) (c : Connection) : Prop where
  source : ∃ k, g.Has c.source k ∧ (k.output? c.output).isSome
  target : ∃ k, g.Has c.target k ∧ (k.input? c.input).isSome

/-- The graph invariant. -/
structure WellFormed (g : Graph α) : Prop where
  places : ∀ id i, g.position? id = some i ↔ (g.nodes[i]?).map (·.id) = some id
  names : (g.nodes.map (·.id)).Nodup
  joined : ∀ c ∈ g.connections, g.Joins c
  distinct : g.connections.Nodup
  single : ∀ id k input s, g.Has id k → k.input? input = some s → s.multiplicity = .single →
    (g.feeding id input).length ≤ 1
  commentNames : (g.comments.map (·.id)).Nodup
  linked : ∀ c ∈ g.comments, ∀ id ∈ c.links, ∃ k, g.Has id k

theorem has_iff {g : Graph α} {id : NodeId} {k : Kind} :
    g.Has id k ↔ ∃ n ∈ g.nodes, n.id = id ∧ n.kind = k := by
  simp [Has, signature]

theorem has_of_mem {g : Graph α} {n : Node α} (h : n ∈ g.nodes) : g.Has n.id n.kind :=
  List.mem_map_of_mem h

/-! ## Looking nodes up -/

namespace WellFormed

variable {g : Graph α}

theorem located?_eq_some_iff (h : g.WellFormed) {id : NodeId} {i : Nat} {n : Node α} :
    g.located? id = some (i, n) ↔ g.nodes[i]? = some n ∧ n.id = id := by
  unfold located?
  simp only [Option.bind_eq_bind, Option.bind_eq_some_iff, Option.pure_def, Option.some.injEq,
    Prod.mk.injEq]
  constructor
  · rintro ⟨j, hj, m, hm, rfl, rfl⟩
    have hid := (h.places id j).mp hj
    rw [hm] at hid
    exact ⟨hm, by simpa using hid⟩
  · rintro ⟨hn, hid⟩
    exact ⟨i, (h.places id i).mpr (by rw [hn, Option.map_some, hid]), n, hn, rfl, rfl⟩

/-- Looking a node up by its name finds exactly the node of that name. -/
theorem node?_eq_some_iff (h : g.WellFormed) {id : NodeId} {n : Node α} :
    g.node? id = some n ↔ n ∈ g.nodes ∧ n.id = id := by
  unfold node?
  rw [Option.map_eq_some_iff, List.mem_iff_getElem?]
  constructor
  · rintro ⟨⟨i, m⟩, hm, rfl⟩
    obtain ⟨hi, hid⟩ := h.located?_eq_some_iff.mp hm
    exact ⟨⟨i, hi⟩, hid⟩
  · rintro ⟨⟨i, hi⟩, hid⟩
    exact ⟨(i, n), h.located?_eq_some_iff.mpr ⟨hi, hid⟩, rfl⟩

theorem hasNode_iff (h : g.WellFormed) {id : NodeId} :
    g.hasNode id = true ↔ id ∈ g.nodes.map (·.id) := by
  unfold hasNode
  rw [Option.isSome_iff_exists, List.mem_iff_getElem?]
  exact exists_congr fun i => by rw [h.places id i, List.getElem?_map]

/-- Nodes of one name are one node. -/
theorem eq_of_id_eq (h : g.WellFormed) {m n : Node α} (hm : m ∈ g.nodes) (hn : n ∈ g.nodes)
    (hid : m.id = n.id) : m = n :=
  List.inj_on_of_nodup_map h.names hm hn hid

/-- Nodes of one name are of one kind. -/
theorem kind_eq (h : g.WellFormed) {id : NodeId} {k k' : Kind} (hk : g.Has id k)
    (hk' : g.Has id k') : k = k' := by
  obtain ⟨n, hn, hid, rfl⟩ := has_iff.mp hk
  obtain ⟨m, hm, hid', rfl⟩ := has_iff.mp hk'
  rw [h.eq_of_id_eq hn hm (hid.trans hid'.symm)]

end WellFormed

/-! ## Edits that keep names and kinds -/

/-- What the invariant says of nodes it says of their names and kinds. -/
theorem WellFormed.of_signatures {g g' : Graph α} (h : g.WellFormed)
    (hnodes : g'.nodes.map signature = g.nodes.map signature) (hplaces : g'.places = g.places)
    (hconnections : g'.connections = g.connections) (hcomments : g'.comments = g.comments) :
    g'.WellFormed := by
  have hids : g'.nodes.map (·.id) = g.nodes.map (·.id) := by
    have := congrArg (List.map Prod.fst) hnodes
    simpa [signature, List.map_map, Function.comp_def] using this
  have hhas : ∀ id k, g'.Has id k ↔ g.Has id k := fun id k => by
    unfold Has
    rw [hnodes]
  have hfeeding : ∀ id input, g'.feeding id input = g.feeding id input := fun id input => by
    unfold feeding connectionsInto
    rw [hconnections]
  refine ⟨fun id i => ?_, hids ▸ h.names, fun c hc => ?_, hconnections ▸ h.distinct,
    fun id k input s hk => ?_, hcomments ▸ h.commentNames, fun c hc id hid => ?_⟩
  · rw [← List.getElem?_map, hids, List.getElem?_map, ← h.places id i]
    unfold position?
    rw [hplaces]
  · obtain ⟨⟨k, hk⟩, ⟨k', hk'⟩⟩ := h.joined c (hconnections ▸ hc)
    exact ⟨⟨k, (hhas _ k).mpr hk.1, hk.2⟩, ⟨k', (hhas _ k').mpr hk'.1, hk'.2⟩⟩
  · rw [hfeeding]
    exact h.single id k input s ((hhas id k).mp hk)
  · obtain ⟨k, hk⟩ := h.linked c (hcomments ▸ hc) id hid
    exact ⟨k, (hhas id k).mpr hk⟩

/-- Dropping connections keeps the invariant. -/
theorem WellFormed.of_connections {g : Graph α} (h : g.WellFormed) {l : List Connection}
    (hl : l.Sublist g.connections) : { g with connections := l }.WellFormed where
  places := h.places
  names := h.names
  joined c hc :=
    let ⟨source, target⟩ := h.joined c (hl.subset hc)
    ⟨source, target⟩
  distinct := h.distinct.sublist hl
  single id k input s hk hs hm :=
    Nat.le_trans ((hl.filter _).filter _).length_le (h.single id k input s hk hs hm)
  commentNames := h.commentNames
  linked := h.linked

/-- Comments may be replaced by any that have names of their own and link what is there. -/
theorem WellFormed.of_comments {g : Graph α} (h : g.WellFormed) {l : List Comment}
    (hnames : (l.map (·.id)).Nodup) (hlinked : ∀ c ∈ l, ∀ id ∈ c.links, ∃ k, g.Has id k) :
    { g with comments := l }.WellFormed where
  places := h.places
  names := h.names
  joined c hc :=
    let ⟨source, target⟩ := h.joined c hc
    ⟨source, target⟩
  distinct := h.distinct
  single := h.single
  commentNames := hnames
  linked := hlinked

/-! ## Places -/

/-- In a list of pairs whose first parts are distinct, looking up finds what is listed. -/
theorem lookup_eq_some_iff_mem {σ τ : Type} [BEq σ] [LawfulBEq σ] {k : σ} {v : τ} :
    ∀ {l : List (σ × τ)}, (l.map Prod.fst).Nodup → (l.lookup k = some v ↔ (k, v) ∈ l)
  | [], _ => by simp
  | (k', v') :: l, hl => by
    rw [List.map_cons, List.nodup_cons] at hl
    rw [List.lookup_cons, List.mem_cons, Prod.mk.injEq]
    by_cases hk : k = k'
    · subst hk
      have hnot : (k, v) ∉ l := fun hmem => hl.1 (List.mem_map.mpr ⟨(k, v), hmem, rfl⟩)
      simp [hnot, eq_comm]
    · rw [beq_eq_false_iff_ne.mpr hk]
      simp [hk, lookup_eq_some_iff_mem hl.2]

/-- The places of nodes with distinct names are where the nodes stand. -/
theorem lookup_placesOf {nodes : List (Node α)} (h : (nodes.map (·.id)).Nodup) {id : NodeId}
    {i : Nat} : (placesOf nodes).lookup id = some i ↔ (nodes[i]?).map (·.id) = some id := by
  have hfst : (placesOf nodes).map Prod.fst = nodes.map (·.id) := by
    rw [placesOf, List.map_map]
    show nodes.zipIdx.map ((·.id) ∘ Prod.fst) = _
    rw [← List.map_map, List.zipIdx_map_fst]
  rw [lookup_eq_some_iff_mem (hfst ▸ h), placesOf, List.mem_map, Option.map_eq_some_iff]
  constructor
  · rintro ⟨⟨n, j⟩, hmem, heq⟩
    obtain ⟨rfl, rfl⟩ := Prod.mk.inj heq
    exact ⟨n, List.mem_zipIdx_iff_getElem?.mp hmem, rfl⟩
  · rintro ⟨n, hn, rfl⟩
    exact ⟨(n, i), List.mem_zipIdx_iff_getElem?.mpr hn, rfl⟩

end Patchbay.Graph
