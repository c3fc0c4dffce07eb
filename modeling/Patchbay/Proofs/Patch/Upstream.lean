import Patchbay.Proofs.Patch.Outcome
/-!
# What building looks at

Building begins at the sinks and goes against the connections. What reaches no sink is never looked
at: not its values, not its connections, nor where it stands among the other nodes. So two graphs
that agree in what is upstream of their sinks (`SameUpstream`) are built with one and the same
result (`SameUpstream.build_eq`).

Both buildings take the same steps from the same assemblies, so nothing is followed side by side
here: at every node upstream each function of the one graph is that of the other.
-/

namespace Patchbay

open Relation (ReflTransGen)

variable {α : Type}

namespace Graph

open Classical in
/-- The nodes that are sinks or reach one, in the order of the graph. -/
noncomputable def upstream (g : Graph α) : List (Node α) := g.nodes.filter fun n => g.Upstream n.id

open Classical in
/-- The connections among these nodes, in the order in which they were made. -/
noncomputable def upstreamConnections (g : Graph α) : List Connection :=
  g.connections.filter fun c => g.Upstream c.source ∧ g.Upstream c.target

/-- The same nodes reach the sinks, with the same values, in the same order, and the same
connections lead there, in the same order. -/
structure SameUpstream (g g' : Graph α) : Prop where
  nodes : g'.upstream = g.upstream
  connections : g'.upstreamConnections = g.upstreamConnections

variable {g g' : Graph α}

theorem mem_upstream {n : Node α} : n ∈ g.upstream ↔ n ∈ g.nodes ∧ g.Upstream n.id := by
  simp [upstream]

/-- The connections into a node upstream are among those upstream. -/
theorem Upstream.feeding_eq {id : NodeId} (h : g.Upstream id) (input : String) :
    g.feeding id input =
      (g.upstreamConnections.filter (·.target == id)).filter (·.input == input) := by
  unfold feeding connectionsInto upstreamConnections
  rw [List.filter_filter, List.filter_filter, List.filter_filter]
  refine List.filter_congr fun c hc => ?_
  by_cases htarget : c.target = id
  · subst htarget
    simp [h, h.source hc]
  · simp [htarget]

/-- Every sink is upstream. -/
theorem sinks_eq_upstream (g : Graph α) : g.sinks = g.upstream.filter (·.kind.isSink) := by
  unfold upstream
  rw [List.filter_filter]
  refine List.filter_congr fun n hn => ?_
  cases hsink : n.kind.isSink with
  | false => rfl
  | true =>
    have hup : g.Upstream n.id := ⟨n, List.mem_filter.mpr ⟨hn, hsink⟩, .refl⟩
    simp [hup]

/-- A new node that is no sink is not upstream of one. -/
theorem WellFormed.sameUpstream_addNode [Scalar α] (hg : g.WellFormed) {k : Kind}
    (hk : k.isSink = false) : g.SameUpstream (g.addNode k).2 := by
  obtain ⟨n, hnodes, hkind, hfree⟩ : ∃ n : Node α, (g.addNode k).2.nodes = g.nodes ++ [n] ∧
      n.kind = k ∧ g.hasNode n.id = false :=
    ⟨_, rfl, rfl, hasNode_nodeName_nextFree hg⟩
  have hsinks : (g.addNode k).2.sinks = g.sinks := by
    unfold sinks
    rw [hnodes, List.filter_append, List.filter_cons_of_neg (by simp [hkind, hk]),
      List.filter_nil, List.append_nil]
  -- the connections are the same, and so are the ways to the sinks
  have hup : (g.addNode k).2.Upstream = g.Upstream := by
    unfold Upstream
    rw [hsinks]
    rfl
  have hnew : ¬g.Upstream n.id := by
    intro hid
    obtain ⟨m, hm, hmid⟩ := hg.mem_of_upstream hid
    rw [hg.hasNode_iff.mpr (List.mem_map.mpr ⟨m, hm, hmid⟩)] at hfree
    cases hfree
  constructor
  · unfold upstream
    rw [hnodes, hup, List.filter_append, List.filter_cons_of_neg (by simp [hnew]),
      List.filter_nil, List.append_nil]
  · unfold upstreamConnections
    rw [hup]
    rfl

namespace SameUpstream

theorem upstream_of (h : g.SameUpstream g') (hg : g.WellFormed) {id : NodeId}
    (hid : g.Upstream id) : g'.Upstream id := by
  obtain ⟨n, hn, rfl⟩ := hg.mem_of_upstream hid
  exact (mem_upstream.mp (h.nodes ▸ mem_upstream.mpr ⟨hn, hid⟩)).2

theorem sinks_eq (h : g.SameUpstream g') : g'.sinks = g.sinks := by
  rw [sinks_eq_upstream, sinks_eq_upstream, h.nodes]

variable (h : g.SameUpstream g') (hg : g.WellFormed) (hg' : g'.WellFormed)

include h hg

theorem feeding_eq {id : NodeId} (hid : g.Upstream id) (input : String) :
    g'.feeding id input = g.feeding id input := by
  rw [hid.feeding_eq, (h.upstream_of hg hid).feeding_eq, h.connections]

theorem supplies_eq {n : Node α} (hn : g.Upstream n.id) :
    Assembly.supplies g' n = Assembly.supplies g n :=
  List.flatMap_congr fun s _ => h.feeding_eq hg hn s.name

theorem feeds_eq {id : NodeId} (hid : g.Upstream id) (a : Assembly α) :
    a.feeds g' id = a.feeds g id :=
  funext fun socket => congrArg (List.filterMap a.handle?) (h.feeding_eq hg hid socket)

include hg'

/-- A node upstream is found in both graphs. -/
theorem node?_eq {id : NodeId} (hid : g.Upstream id) : g'.node? id = g.node? id := by
  obtain ⟨n, hn, rfl⟩ := hg.mem_of_upstream hid
  have hn' : n ∈ g'.upstream := h.nodes ▸ mem_upstream.mpr ⟨hn, hid⟩
  rw [hg.node?_eq_some_iff.mpr ⟨hn, rfl⟩,
    hg'.node?_eq_some_iff.mpr ⟨(mem_upstream.mp hn').1, rfl⟩]

end SameUpstream

end Graph

/-! ## The same steps -/

namespace Assembly

/-- Things that do the same from every assembly do the same one after another. -/
theorem foldlM_congr {τ : Type} {f f' : Assembly α → τ → Except (Stopped α) (Assembly α)}
    {l : List τ} (hf : ∀ x ∈ l, ∀ a, f' a x = f a x) (a : Assembly α) :
    l.foldlM f' a = l.foldlM f a := by
  induction l generalizing a with
  | nil => rfl
  | cons x l ih =>
    rw [List.foldlM_cons, List.foldlM_cons, hf x List.mem_cons_self a]
    exact congrArg _ (funext (ih fun y hy => hf y (List.mem_cons_of_mem _ hy)))

/-- When only nodes upstream are built, the others may be left out of the finished patch. -/
theorem finish_eq_upstream {g : Graph α} {a : Assembly α} (hdone : ∀ id ∈ a.done, g.Upstream id) :
    a.finish g = ⟨g.upstream.filterMap fun n => (a.part? n.id).map (n.id, ·), a.made⟩ := by
  unfold finish Graph.upstream
  rw [List.filterMap_filter]
  refine congrArg (Patch.mk · a.made) (List.filterMap_congr fun n _ => ?_)
  by_cases hup : g.Upstream n.id
  · simp [hup]
  · have hnone : a.part? n.id = none :=
      Option.not_isSome_iff_eq_none.mp fun hpart => hup (hdone _ (isSome_part?_iff.mp hpart))
    simp [hup, hnone]

end Assembly

namespace Graph.SameUpstream

open Assembly

variable {g g' : Graph α} (h : g.SameUpstream g') (hg : g.WellFormed) (hg' : g'.WellFormed)

include h hg

theorem finish_eq {a : Assembly α} (hdone : ∀ id ∈ a.done, g.Upstream id) :
    a.finish g' = a.finish g := by
  rw [finish_eq_upstream hdone, finish_eq_upstream fun id hid => h.upstream_of hg (hdone id hid),
    h.nodes]

include hg' in
theorem follow_eq {build build' : Node α → Assembly α → Except (Stopped α) (Assembly α)}
    (hbuild : ∀ n ∈ g.nodes, g.Upstream n.id → ∀ a, build' n a = build n a) {c : Connection}
    (hsource : g.Upstream c.source) (a : Assembly α) :
    follow g' build' a c = follow g build a c := by
  unfold follow
  rw [h.node?_eq hg hg' hsource]
  split
  next => rfl
  next n hn =>
    obtain ⟨hmem, hid⟩ := hg.node?_eq_some_iff.mp hn
    rw [hbuild n hmem (hid ▸ hsource)]

variable [Scalar α] {master : PrimitiveId} {noise : Noise.Source α}

theorem buildNode_eq {n : Node α} (hn : g.Upstream n.id) (a : Assembly α) :
    buildNode g' master noise n a = buildNode g master noise n a := by
  unfold buildNode
  rw [h.feeds_eq hg hn]

include hg'

/-- What feeds a node upstream is upstream, so that resolving never leaves it. -/
theorem resolve_eq (depth : Nat) (path : List NodeId) {n : Node α} (hn : n ∈ g.nodes)
    (hup : g.Upstream n.id) (a : Assembly α) :
    resolve g' master noise depth path n a = resolve g master noise depth path n a := by
  induction depth generalizing path n a with
  | zero => rfl
  | succ depth ih =>
    have hfollow : ∀ a, (supplies g n).foldlM
        (follow g' (resolve g' master noise depth (n.id :: path))) a =
        (supplies g n).foldlM (follow g (resolve g master noise depth (n.id :: path))) a := by
      refine foldlM_congr fun c hc a => h.follow_eq hg hg' (fun m hm hm' a => ih _ hm hm' a) ?_ a
      obtain ⟨hc, htarget⟩ := (mem_supplies hg hn).mp hc
      exact Upstream.source hc (htarget ▸ hup)
    unfold resolve
    rw [h.supplies_eq hg hup, hfollow, funext (h.buildNode_eq hg hup)]

theorem resolveSinks_eq (depth : Nat) (a : Assembly α) :
    resolveSinks g' master noise depth a = resolveSinks g master noise depth a := by
  unfold resolveSinks
  rw [h.sinks_eq]
  refine foldlM_congr (fun sink hsink a => ?_) a
  exact h.resolve_eq hg hg' depth [] (mem_nodes_of_mem_sinks hsink) ⟨sink, hsink, .refl⟩ a

omit hg hg' in
/-- Graphs that agree upstream are built with the same result. -/
theorem build_eq (hg : g.Sound) (hg' : g'.Sound) (rack : Rack α) (voicing : Voicing α) :
    g'.build master noise rack voicing = g.build master noise rack voicing := by
  -- the graphs need not have the same number of nodes, but either depth is enough for both
  let depth := max g.nodes.length g'.nodes.length + 1
  have hdepth : g.nodes.length + 1 ≤ depth := Nat.succ_le_succ (Nat.le_max_left _ _)
  have hdepth' : g'.nodes.length + 1 ≤ depth := Nat.succ_le_succ (Nat.le_max_right _ _)
  rw [← hg.buildWithin_eq_build hdepth, ← hg'.buildWithin_eq_build hdepth']
  unfold buildWithin
  rw [h.resolveSinks_eq hg.wellFormed hg'.wellFormed]
  split
  next a hresolve =>
    obtain ⟨⟨order, htrail⟩, -⟩ := Assembly.trail_of_resolveSinks hg.wellFormed hresolve
    have hdone : ∀ id ∈ a.done, g.Upstream id := by
      intro id hid
      rw [htrail.done_eq] at hid
      obtain ⟨n, hn, rfl⟩ := List.mem_map.mp hid
      exact htrail.property n hn
    rw [h.finish_eq hg.wellFormed hdone]
  next => rfl

end Graph.SameUpstream

end Patchbay
