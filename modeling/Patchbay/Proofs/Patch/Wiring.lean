import Mathlib.Logic.Function.Basic
import Patchbay.Proofs.Patch.Outcome
/-!
# How built graphs are wired

A node that is built gets one block of primitives, and the blocks lie on the rack one after another
(`Laid`). The wires from them are those that each node has of itself and, for each connection into
it, one from the primitive behind the connection's source to each inlet of its socket (`Wired`).
Both are kept by every node that is built, so they hold of every patch (`Graph.build_wiring`).
-/

namespace Patchbay

variable {α : Type} {g : Graph α} {master : PrimitiveId} {first first' : NodeId → PrimitiveId}

namespace Graph

/-! ## The wires of a node -/

/-- The primitive behind the source of a connection, `first` giving the first primitive of each
node. -/
def handle (g : Graph α) (first : NodeId → PrimitiveId) (c : Connection) : PrimitiveId :=
  match g.node? c.source with
  | some n => first c.source + n.kind.outlet
  | none => first c.source

/-- The wires of a node: those it has of itself, and those of the connections into it. -/
def wiring (g : Graph α) (master : PrimitiveId) (first : NodeId → PrimitiveId) (n : Node α) :
    List (PrimitiveId × Inlet) :=
  n.kind.inner master (first n.id) ++ (g.connectionsInto n.id).flatMap fun c =>
    (n.kind.inletsAt master (first n.id) c.input).map (g.handle first c, ·)

/-- Giving the next node its block leaves the blocks of the nodes that are done. -/
theorem Next.update_of_mem {done : List NodeId} {n : Node α} (hn : g.Next done n)
    (place : PrimitiveId) {id : NodeId} (hid : id ∈ done) :
    Function.update first n.id place id = first id :=
  Function.update_of_ne (fun heq : id = n.id => hn.new (heq ▸ hid)) _ _

/-- The wires of a node lead to its own primitives, and from an output to the master. -/
theorem wiring_into {n : Node α} {w : PrimitiveId × Inlet}
    (h : w ∈ g.wiring master first n) :
    (w.2 = .input master ∧ n.kind.isOutput = true) ∨
      ∃ i < n.kind.outfit.length, w.2.place = first n.id + i := by
  rcases List.mem_append.mp h with h | h
  · exact Kind.inner_into h
  · obtain ⟨c, -, h⟩ := List.mem_flatMap.mp h
    obtain ⟨inlet, hinlet, rfl⟩ := List.mem_map.mp h
    exact Kind.inletsAt_into hinlet

theorem mem_connectionsInto {c : Connection} {id : NodeId} :
    c ∈ g.connectionsInto id ↔ c ∈ g.connections ∧ c.target = id := by
  simp [connectionsInto]

theorem mem_feeding {c : Connection} {id : NodeId} {socket : String} :
    c ∈ g.feeding id socket ↔ c ∈ g.connections ∧ c.target = id ∧ c.input = socket := by
  rw [feeding, List.mem_filter, mem_connectionsInto, beq_iff_eq, and_assoc]

theorem WellFormed.nodup_feeding (hg : g.WellFormed) (id : NodeId) (socket : String) :
    (g.feeding id socket).Nodup :=
  (hg.distinct.filter _).filter _

theorem feeding_ne_nil {id : NodeId} {socket : String} :
    g.feeding id socket ≠ [] ↔ g.isConnected id socket = true := by
  rw [Ne, ← isConnected_eq_false, Bool.not_eq_false]

theorem handle_congr {c : Connection} (h : first c.source = first' c.source) :
    g.handle first c = g.handle first' c := by
  unfold handle
  rw [h]

theorem wiring_congr {n : Node α} (hn : first n.id = first' n.id)
    (hsources : ∀ c ∈ g.connectionsInto n.id, first c.source = first' c.source) :
    g.wiring master first n = g.wiring master first' n := by
  unfold wiring
  rw [hn]
  exact congrArg _ (List.flatMap_congr fun c hc => by rw [handle_congr (hsources c hc)])

end Graph

namespace Assembly

/-! ## Blocks of primitives -/

/-- The nodes of an order are built on a rack, their primitives in blocks one after another, and
`first` gives the first primitive of each. -/
structure Laid (g : Graph α) (base : Rack α) (order : List (Node α))
    (first : NodeId → PrimitiveId) (a : Assembly α) : Prop where
  nodes : ∀ n ∈ order, n ∈ g.nodes
  done : a.done = order.map (·.id)
  made : a.made = order.flatMap fun n => numbered (first n.id) n.kind.outfit
  ids : a.made.map (·.1) = List.range' base.primitives.size a.made.length
  size : a.rack.primitives.size = base.primitives.size + a.made.length
  low : ∀ n ∈ order, base.primitives.size ≤ first n.id
  high : ∀ n ∈ order, first n.id + n.kind.outfit.length ≤ a.rack.primitives.size
  outputs : ∀ n ∈ order, ∃ part, a.part? n.id = some part ∧
    ∀ s ∈ n.kind.outputs, part.output? s.name = some (first n.id + n.kind.outlet)

variable {base : Rack α} {order : List (Node α)} {a : Assembly α}

/-- The source of a connection that is built has its primitive, one of those that were created. -/
theorem Laid.handle (h : Laid g base order first a) (hg : g.WellFormed) {c : Connection}
    (hc : c ∈ g.connections) (hdone : c.source ∈ a.done) :
    a.handle? c = some (g.handle first c) ∧
      base.primitives.size ≤ g.handle first c ∧ g.handle first c < a.rack.primitives.size := by
  obtain ⟨n, hn, hid, houtput⟩ := hg.source hc
  obtain ⟨m, hm, hid'⟩ := List.mem_map.mp (h.done ▸ hdone)
  obtain rfl := hg.eq_of_id_eq hn (h.nodes m hm) (hid.trans hid'.symm)
  obtain ⟨part, hpart, houtputs⟩ := h.outputs n hm
  obtain ⟨s, hs, hname⟩ := List.find?_isSome.mp houtput
  have hname : s.name = c.output := by simpa using hname
  have hhandle : g.handle first c = first n.id + n.kind.outlet := by
    unfold Graph.handle
    rw [hg.node?_eq_some_iff.mpr ⟨hn, hid⟩, hid]
  refine ⟨?_, ?_, ?_⟩
  · unfold handle?
    rw [← hid, hpart, hhandle, ← hname]
    exact houtputs s hs
  · rw [hhandle]
    exact Nat.le_add_right_of_le (h.low n hm)
  · rw [hhandle]
    exact Nat.lt_of_lt_of_le
      (Nat.add_lt_add_left (Kind.outlet_lt (List.ne_nil_of_mem hs)) _) (h.high n hm)

variable {n : Node α}

/-- What feeds the sockets of the next node is there. -/
theorem Laid.feeds (h : Laid g base order first a) (hg : g.WellFormed) (hn : g.Next a.done n)
    (socket : String) :
    a.feeds g n.id socket = (g.feeding n.id socket).map (g.handle first) := by
  unfold Assembly.feeds
  rw [← List.filterMap_eq_map]
  refine List.filterMap_congr fun c hc => ?_
  obtain ⟨hc, -⟩ := List.mem_filter.mp hc
  obtain ⟨hc, htarget⟩ := Graph.mem_connectionsInto.mp hc
  exact (h.handle hg hc (hn.fed _ ⟨c, hc, rfl, htarget⟩)).1

variable [Scalar α] {noise : Noise.Source α} {plan : Blueprint α}

theorem Laid.grounded (h : Laid g base order first a) (hg : g.WellFormed) (hn : g.Next a.done n)
    (hplan : Kind.blueprint n.panel (a.site master noise (a.feeds g n.id)) = .ok plan) :
    Step.Grounded a.rack.primitives.size plan.steps := by
  refine Kind.grounded_of_blueprint hplan fun s _ i hi => ?_
  have hi : i ∈ a.feeds g n.id s.name := hi
  rw [h.feeds hg hn, List.mem_map] at hi
  obtain ⟨c, hc, rfl⟩ := hi
  obtain ⟨hc, htarget⟩ := Graph.mem_connectionsInto.mp (List.mem_filter.mp hc).1
  exact (h.handle hg hc (hn.fed _ ⟨c, hc, rfl, htarget⟩)).2.2

/-- A further node gets the next block. -/
theorem Laid.step (h : Laid g base order first a) (hn : g.Next a.done n) {a' : Assembly α}
    (hbuild : buildNode g master noise n a = .ok a') :
    Laid g base (order ++ [n]) (Function.update first n.id a.rack.primitives.size) a' := by
  have hsize := size_of_buildNode hbuild
  have hmade := made_of_buildNode hbuild
  have hnew : Function.update first n.id a.rack.primitives.size n.id = a.rack.primitives.size :=
    Function.update_self _ _ _
  have hold : ∀ m ∈ order, Function.update first n.id a.rack.primitives.size m.id = first m.id :=
    fun m hm => hn.update_of_mem _ (h.done ▸ List.mem_map_of_mem hm)
  -- each field once for the nodes of before, which stay, and once for the new node
  refine ⟨List.forall_mem_append.mpr ⟨h.nodes, List.forall_mem_singleton.mpr hn.there⟩, ?_, ?_,
    ?_, ?_, List.forall_mem_append.mpr ⟨fun m hm => ?_, List.forall_mem_singleton.mpr ?_⟩,
    List.forall_mem_append.mpr ⟨fun m hm => ?_, List.forall_mem_singleton.mpr ?_⟩,
    List.forall_mem_append.mpr ⟨fun m hm => ?_, List.forall_mem_singleton.mpr ?_⟩⟩
  · rw [done_of_buildNode hbuild, h.done, List.map_append]
    rfl
  · rw [hmade, h.made, List.flatMap_append, List.flatMap_singleton, hnew]
    exact congrArg (· ++ _) (List.flatMap_congr fun m hm => by rw [hold m hm])
  · rw [hmade, List.map_append, List.length_append, h.ids, map_fst_numbered, length_numbered,
      h.size, List.range'_append_1]
  · rw [hsize, hmade, h.size, List.length_append, length_numbered, Nat.add_assoc]
  · rw [hold m hm]
    exact h.low m hm
  · rw [hnew, h.size]
    exact Nat.le_add_right _ _
  · rw [hold m hm, hsize]
    exact Nat.le_add_right_of_le (h.high m hm)
  · rw [hnew, hsize]
  · have hne : m.id ≠ n.id := fun hid =>
      hn.new (hid ▸ h.done ▸ List.mem_map_of_mem hm)
    rw [part?_of_buildNode hbuild hne, hold m hm]
    exact h.outputs m hm
  · rw [hnew]
    exact exists_part_of_buildNode hn.new hbuild

/-! ## Wires -/

/-- From each primitive there are the wires that were there, and those of the nodes of the order. -/
def Wired (g : Graph α) (master : PrimitiveId) (base : Rack α) (order : List (Node α))
    (first : NodeId → PrimitiveId) (a : Assembly α) : Prop :=
  ∀ id, (a.rack.outputsOf id).Perm (base.outputsOf id ++
    ((order.flatMap (g.wiring master first)).filter (·.1 == id)).map (·.2))

/-- A blueprint patches the wires of its node. -/
theorem Laid.wires_perm (h : Laid g base order first a) (hg : g.WellFormed) (hn : g.Next a.done n)
    (hplan : Kind.blueprint n.panel (a.site master noise (a.feeds g n.id)) = .ok plan) :
    (Step.wires plan.steps).Perm (n.kind.inner master a.rack.primitives.size ++
      (g.connectionsInto n.id).flatMap fun c =>
        (n.kind.inletsAt master a.rack.primitives.size c.input).map (g.handle first c, ·)) := by
  refine (Kind.wires_of_blueprint hplan).trans (.append_left _ ?_)
  show List.Perm (n.kind.inputs.flatMap fun s => (a.feeds g n.id s.name).flatMap fun source =>
    (n.kind.inlets master a.rack.primitives.size s).map (source, ·)) _
  simp only [h.feeds hg hn, List.flatMap_map]
  -- socket by socket every connection is met once
  have hsockets : ((n.kind.inputs.map (·.name)).flatMap fun name =>
      (g.connectionsInto n.id).filter (·.input == name)).Perm (g.connectionsInto n.id) :=
    flatMap_filter_perm (·.input) n.kind.inputs_nodup fun c hc =>
      let ⟨hc, htarget⟩ := Graph.mem_connectionsInto.mp hc
      hg.input_mem hc hn.there htarget
  refine .trans (.of_eq ?_) (hsockets.flatMap_right _)
  rw [List.flatMap_assoc, List.flatMap_map]
  refine List.flatMap_congr fun s hs => List.flatMap_congr fun c hc => ?_
  have hinput : c.input = s.name := by simpa using (List.mem_filter.mp hc).2
  unfold Kind.inletsAt
  rw [Kind.input?_eq_some_iff.mpr ⟨hs, hinput.symm⟩]

/-- Building a further node patches its wires. -/
theorem Laid.outputs_perm (h : Laid g base order first a) (hg : g.WellFormed)
    (hn : g.Next a.done n) {a' : Assembly α} (hbuild : buildNode g master noise n a = .ok a')
    (id : PrimitiveId) :
    (a'.rack.outputsOf id).Perm (a.rack.outputsOf id ++
      ((g.wiring master (Function.update first n.id a.rack.primitives.size) n).filter
        (·.1 == id)).map (·.2)) := by
  obtain ⟨plan, b, hplan, hran, rfl⟩ := built_of_buildNode hbuild
  have hwires : (Step.wires plan.steps).Perm
      (g.wiring master (Function.update first n.id a.rack.primitives.size) n) := by
    refine (h.wires_perm hg hn hplan).trans (.of_eq ?_)
    unfold Graph.wiring
    rw [Function.update_self]
    refine congrArg _ (List.flatMap_congr fun c hc => ?_)
    obtain ⟨hc, htarget⟩ := Graph.mem_connectionsInto.mp hc
    rw [Graph.handle_congr (hn.update_of_mem _ (hn.fed _ ⟨c, hc, rfl, htarget⟩))]
  show (b.rack.outputsOf id).Perm _
  rw [hran.outputs (h.grounded hg hn hplan) id]
  exact .append_left _ ((hwires.filter _).map _)

/-- A further node is wired as it should be, and the others stay as they are. -/
theorem Wired.step (hwired : Wired g master base order first a) (h : Laid g base order first a)
    (hg : g.WellFormed) (hclosed : g.Closed a.done) (hn : g.Next a.done n) {a' : Assembly α}
    (hbuild : buildNode g master noise n a = .ok a') :
    Wired g master base (order ++ [n])
      (Function.update first n.id a.rack.primitives.size) a' := by
  have hold : ∀ id ∈ a.done, Function.update first n.id a.rack.primitives.size id = first id :=
    fun id hid => hn.update_of_mem _ hid
  -- a connection into a node that is done comes from one that is done, so its wire stays
  have hbefore : order.flatMap (g.wiring master first) =
      order.flatMap (g.wiring master (Function.update first n.id a.rack.primitives.size)) := by
    refine List.flatMap_congr fun m hm => ?_
    have hm : m.id ∈ a.done := h.done ▸ List.mem_map_of_mem hm
    refine Graph.wiring_congr (hold m.id hm).symm fun c hc => (hold c.source ?_).symm
    obtain ⟨hc, htarget⟩ := Graph.mem_connectionsInto.mp hc
    exact hclosed _ _ ⟨c, hc, rfl, htarget⟩ hm
  intro id
  refine (h.outputs_perm hg hn hbuild id).trans ?_
  rw [List.flatMap_append, List.flatMap_singleton, List.filter_append, List.map_append,
    ← List.append_assoc, ← hbefore]
  exact (hwired id).append_right _

/-- Nodes that are built one after another are laid out one after another, and what is kept by every
node that is built holds in the end. -/
theorem exists_laid_of_kept {P : List (Node α) → (NodeId → PrimitiveId) → Assembly α → Prop}
    (hkept : ∀ {order : List (Node α)} {first : NodeId → PrimitiveId} {a a' : Assembly α}
      {n : Node α}, Laid g base order first a → g.Closed a.done → g.Next a.done n →
      buildNode g master noise n a = .ok a' → P order first a →
      P (order ++ [n]) (Function.update first n.id a.rack.primitives.size) a')
    {order' : List (Node α)} {b : Assembly α} (h : Laid g base order first a)
    (hP : P order first a) (hclosed : g.Closed a.done) (hready : g.Ready a.done order')
    (hbuilt : buildAll g master noise order' a = .ok b) :
    ∃ first', Laid g base (order ++ order') first' b ∧ P (order ++ order') first' b := by
  induction order' generalizing order first a with
  | nil =>
    cases hbuilt
    rw [List.append_nil]
    exact ⟨first, h, hP⟩
  | cons n order' ih =>
    obtain ⟨hn, hready⟩ := hready
    obtain ⟨a', hnode, hrest⟩ := buildAll_cons.mp hbuilt
    have hdone := done_of_buildNode hnode
    rw [List.append_cons]
    exact ih (h.step hn hnode) (hkept h hclosed hn hnode hP)
      (hdone ▸ hn.closed hclosed) (hdone ▸ hready) hrest

/-- Nodes that are built one after another are laid out and wired as they should be. -/
theorem exists_laid_of_buildAll (hg : g.WellFormed) {order' : List (Node α)} {b : Assembly α}
    (h : Laid g base order first a) (hwired : Wired g master base order first a)
    (hclosed : g.Closed a.done) (hready : g.Ready a.done order')
    (hbuilt : buildAll g master noise order' a = .ok b) :
    ∃ first', Laid g base (order ++ order') first' b ∧
      Wired g master base (order ++ order') first' b :=
  exists_laid_of_kept (fun h hclosed hn hnode hwired => hwired.step h hg hclosed hn hnode)
    h hwired hclosed hready hbuilt

omit [Scalar α] in
theorem laid_fresh {rack : Rack α} {voicing : Voicing α} (first : NodeId → PrimitiveId) :
    Laid g rack [] first (fresh rack voicing) where
  nodes _ hn := absurd hn List.not_mem_nil
  done := rfl
  made := rfl
  ids := rfl
  size := rfl
  low _ hn := absurd hn List.not_mem_nil
  high _ hn := absurd hn List.not_mem_nil
  outputs _ hn := absurd hn List.not_mem_nil

omit [Scalar α] in
theorem wired_fresh {rack : Rack α} {voicing : Voicing α} (first : NodeId → PrimitiveId) :
    Wired g master rack [] first (fresh rack voicing) :=
  fun id => .of_eq (List.append_nil (rack.outputsOf id)).symm

/-! ## All wires -/

omit [Scalar α] in
/-- The wires of a node that is built come from primitives that were created. -/
theorem Laid.wiring_range (h : Laid g base order first a) (hg : g.WellFormed)
    (hclosed : g.Closed a.done) {w : PrimitiveId × Inlet}
    (hw : w ∈ order.flatMap (g.wiring master first)) : w.1 ∈ a.made.map (·.1) := by
  rw [h.ids, List.mem_range'_1, ← h.size]
  obtain ⟨n, hn, hw⟩ := List.mem_flatMap.mp hw
  rcases List.mem_append.mp hw with hw | hw
  · obtain ⟨hlow, hhigh⟩ := Kind.inner_range hw
    exact ⟨Nat.le_trans (h.low n hn) hlow, Nat.lt_of_lt_of_le hhigh (h.high n hn)⟩
  · obtain ⟨c, hc, hw⟩ := List.mem_flatMap.mp hw
    obtain ⟨inlet, -, rfl⟩ := List.mem_map.mp hw
    obtain ⟨hc, htarget⟩ := Graph.mem_connectionsInto.mp hc
    have hdone : n.id ∈ a.done := h.done ▸ List.mem_map_of_mem hn
    exact (h.handle hg hc (hclosed _ _ ⟨c, hc, rfl, htarget⟩ hdone)).2

omit [Scalar α] in
/-- The wires from the primitives that were created are those of the nodes that were built. -/
theorem Laid.wires_perm_wiring (h : Laid g base order first a) (hg : g.WellFormed)
    (hclosed : g.Closed a.done) (hwired : Wired g master base order first a) :
    ((a.made.map (·.1)).flatMap fun id => (a.rack.outputsOf id).map (id, ·)).Perm
      (order.flatMap (g.wiring master first)) := by
  have hids : (a.made.map (·.1)).Nodup := h.ids ▸ List.nodup_range'
  refine .trans ?_ (flatMap_filter_perm (·.1) hids fun w hw => h.wiring_range hg hclosed hw)
  refine List.Perm.flatMap_left _ fun id hid => ?_
  have hbase : base.outputsOf id = [] := by
    rw [h.ids, List.mem_range'_1] at hid
    unfold Rack.outputsOf Rack.primitive?
    rw [Array.getElem?_eq_none hid.1]
    rfl
  refine ((hwired id).map _).trans (.of_eq ?_)
  rw [hbase, List.nil_append, List.map_map]
  refine (List.map_congr_left fun w hw => ?_).trans (List.map_id _)
  have hsource : w.1 = id := by simpa using (List.mem_filter.mp hw).2
  exact Prod.ext hsource.symm rfl

omit [Scalar α] in
/-- What was not created has the wires it had. -/
theorem Laid.outputs_of_notMem (h : Laid g base order first a) (hg : g.WellFormed)
    (hclosed : g.Closed a.done) (hwired : Wired g master base order first a) {id : PrimitiveId}
    (hid : id ∉ a.made.map (·.1)) : (a.rack.outputsOf id).Perm (base.outputsOf id) := by
  have hnone : (order.flatMap (g.wiring master first)).filter (·.1 == id) = [] := by
    refine List.filter_eq_nil_iff.mpr fun w hw heq => hid ?_
    rw [← beq_iff_eq.mp heq]
    exact h.wiring_range hg hclosed hw
  have hperm := hwired id
  rw [hnone, List.map_nil, List.append_nil] at hperm
  exact hperm

omit [Scalar α] in
/-- Looking a node up in the finished patch. -/
theorem part?_finish (g : Graph α) (a : Assembly α) (id : NodeId) :
    (a.finish g).part? id = if id ∈ g.nodes.map (·.id) then a.part? id else none := by
  unfold finish Patch.part?
  dsimp only
  generalize g.nodes = nodes
  induction nodes with
  | nil => rfl
  | cons n nodes ih =>
    rw [List.filterMap_cons, List.map_cons]
    cases hpart : a.part? n.id with
    | none =>
      simp only [Option.map_none]
      rw [ih]
      by_cases hid : id = n.id
      · simp [hid, hpart]
      · simp only [List.mem_cons, hid, false_or]
    | some part =>
      simp only [Option.map_some, List.find?_cons]
      by_cases hid : id = n.id
      · simp [hid, hpart]
      · rw [beq_eq_false_iff_ne.mpr (Ne.symm hid)]
        simp only [List.mem_cons, hid, false_or]
        exact ih

omit [Scalar α] in
/-- The primitive behind the output of a node. -/
theorem Laid.output_finish (h : Laid g base order first a) (hn : n ∈ order)
    (hsignal : Kind.signalOut ∈ n.kind.outputs) :
    ((a.finish g).part? n.id).bind (·.output? "signal") = some (first n.id + n.kind.outlet) := by
  obtain ⟨part, hpart, houtputs⟩ := h.outputs n hn
  rw [part?_finish, if_pos (List.mem_map_of_mem (h.nodes n hn)), hpart]
  exact houtputs _ hsignal

omit [Scalar α] in
/-- The nodes of the order are those that the patch has parts for. -/
theorem Laid.mem_order_iff (h : Laid g base order first a) (hg : g.WellFormed) :
    n ∈ order ↔ n ∈ g.nodes ∧ ((a.finish g).part? n.id).isSome := by
  constructor
  · intro hn
    obtain ⟨part, hpart, -⟩ := h.outputs n hn
    have hnode := h.nodes n hn
    rw [part?_finish, if_pos (List.mem_map_of_mem hnode), hpart]
    exact ⟨hnode, rfl⟩
  · rintro ⟨hn, hsome⟩
    rw [part?_finish, if_pos (List.mem_map_of_mem hn), isSome_part?_iff, h.done] at hsome
    obtain ⟨m, hm, hid⟩ := List.mem_map.mp hsome
    exact hg.eq_of_id_eq (h.nodes m hm) hn hid ▸ hm

end Assembly

open Assembly in
/-- A graph that could be built is the work of one assembly: the nodes upstream of the sinks were
built, each after all that feeds it, laid out and wired as they should be, and what is kept by every
node that is built holds in the end. -/
theorem Graph.WellFormed.exists_laid_of_build [Scalar α] (hg : g.WellFormed)
    {noise : Noise.Source α} {rack : Rack α} {voicing : Voicing α} {patch : Patch α}
    (hpatch : (g.build master noise rack voicing).outcome = .ok patch)
    {P : List (Node α) → (NodeId → PrimitiveId) → Assembly α → Prop}
    (hkept : ∀ {order : List (Node α)} {first : NodeId → PrimitiveId} {a a' : Assembly α}
      {n : Node α}, Laid g rack order first a → Wired g master rack order first a →
      g.Next a.done n → buildNode g master noise n a = .ok a' → P order first a →
      P (order ++ [n]) (Function.update first n.id a.rack.primitives.size) a')
    (hbegun : P [] (fun _ => 0) (fresh rack voicing)) :
    ∃ (order : List (Node α)) (first : NodeId → PrimitiveId) (b : Assembly α),
      g.build master noise rack voicing = ⟨.ok (b.finish g), b.rack, b.voicing⟩ ∧
      b.finish g = patch ∧ g.Ready [] order ∧
      (∀ n, n ∈ order ↔ n ∈ g.nodes ∧ g.Upstream n.id) ∧ g.Closed b.done ∧
      Laid g rack order first b ∧ Wired g master rack order first b ∧ P order first b := by
  obtain ⟨b, hresolve, hfinish⟩ := outcome_buildWithin_eq_ok.mp hpatch
  obtain ⟨order, htrail, hall⟩ := exists_trail_of_resolveSinks hg hresolve
  obtain ⟨first, hlaid, hwired, hP⟩ := exists_laid_of_kept
    (P := fun order first a => Wired g master rack order first a ∧ P order first a)
    (fun h hclosed hn hnode hP => ⟨hP.1.step h hg hclosed hn hnode, hkept h hP.1 hn hnode hP.2⟩)
    (laid_fresh fun _ => 0) ⟨wired_fresh fun _ => 0, hbegun⟩ closed_fresh htrail.ready htrail.built
  have hbuilt : g.build master noise rack voicing = ⟨.ok (b.finish g), b.rack, b.voicing⟩ := by
    unfold build buildWithin
    unfold fresh at hresolve
    rw [hresolve]
  exact ⟨order, first, b, hbuilt, hfinish, htrail.ready,
    fun n => ⟨fun hn => ⟨hlaid.nodes n hn, htrail.property n hn⟩, fun hn => hall n hn.1 hn.2⟩,
    hlaid.done ▸ htrail.ready.closed closed_fresh, hlaid, hwired, hP⟩

/-- What a graph is built into: the nodes that are built are those upstream of the sinks, each once;
each has one block of primitives, of the families of its kind, and the blocks make up what was
created, which continues the numbers of the rack; every connection into a node that is built has the
primitive behind its source; the wires from what was created are those that each node has of itself
and, for each connection into it, one to each inlet of the socket; and what was on the rack before
has the wires it had. -/
theorem Graph.build_wiring {g : Graph Float} (h : g.Reachable) (master : PrimitiveId)
    (noise : Noise.Source Float) (rack : Rack Float) (voicing : Voicing Float)
    {patch : Patch Float} (hpatch : (g.build master noise rack voicing).outcome = .ok patch) :
    ∃ (order : List (Node Float)) (first : NodeId → PrimitiveId),
      (∀ n, n ∈ order ↔ n ∈ g.nodes ∧ g.Upstream n.id) ∧ (order.map (·.id)).Nodup ∧
      (∀ id, (patch.part? id).isSome ↔ g.Upstream id) ∧
      patch.primitives = (order.flatMap fun n => numbered (first n.id) n.kind.outfit) ∧
      patch.ids = List.range' rack.primitives.size patch.primitives.length ∧
      (∀ c ∈ g.connections, g.Upstream c.target →
        (patch.part? c.source).bind (·.output? c.output) = some (g.handle first c)) ∧
      (patch.ids.flatMap fun id =>
          ((g.build master noise rack voicing).rack.outputsOf id).map (id, ·)).Perm
        (order.flatMap fun n => n.kind.inner master (first n.id) ++
          (g.connectionsInto n.id).flatMap fun c =>
            (n.kind.inletsAt master (first n.id) c.input).map (g.handle first c, ·)) ∧
      ∀ id, id ∉ patch.ids →
        ((g.build master noise rack voicing).rack.outputsOf id).Perm (rack.outputsOf id) := by
  have hg := h.sound.wellFormed
  obtain ⟨b, hresolve, rfl⟩ := outcome_buildWithin_eq_ok.mp hpatch
  obtain ⟨order, htrail, hall⟩ := Assembly.exists_trail_of_resolveSinks hg hresolve
  obtain ⟨first, hlaid, hwired⟩ := Assembly.exists_laid_of_buildAll hg
    (Assembly.laid_fresh fun _ => 0) (Assembly.wired_fresh fun _ => 0)
    Assembly.closed_fresh htrail.ready htrail.built
  rw [List.nil_append] at hlaid hwired
  have hclosed : g.Closed b.done := hlaid.done ▸ htrail.ready.closed Assembly.closed_fresh
  have horder : ∀ n, n ∈ order ↔ n ∈ g.nodes ∧ g.Upstream n.id := fun n =>
    ⟨fun hn => ⟨hlaid.nodes n hn, htrail.property n hn⟩, fun hn => hall n hn.1 hn.2⟩
  have hdone : ∀ id, id ∈ b.done ↔ g.Upstream id := by
    intro id
    rw [hlaid.done, List.mem_map]
    constructor
    · rintro ⟨n, hn, rfl⟩
      exact htrail.property n hn
    · intro hid
      obtain ⟨n, hn, rfl⟩ := hg.mem_of_upstream hid
      exact ⟨n, hall n hn hid, rfl⟩
  have hpart : ∀ id, g.Upstream id → (b.finish g).part? id = b.part? id := by
    intro id hid
    obtain ⟨n, hn, rfl⟩ := hg.mem_of_upstream hid
    rw [Assembly.part?_finish, if_pos (List.mem_map_of_mem hn)]
  have hrack : (g.build master noise rack voicing).rack = b.rack := by
    unfold build buildWithin
    unfold Assembly.fresh at hresolve
    rw [hresolve]
  refine ⟨order, first, horder, htrail.ready.nodup List.nodup_nil, fun id => ?_, hlaid.made,
    hlaid.ids, fun c hc hup => ?_, ?_, fun id hid => ?_⟩
  · constructor
    · intro hsome
      rw [Assembly.part?_finish] at hsome
      split at hsome
      next => exact (hdone id).mp (Assembly.isSome_part?_iff.mp hsome)
      next => cases hsome
    · intro hid
      rw [hpart id hid, Assembly.isSome_part?_iff]
      exact (hdone id).mpr hid
  · have hsource : c.source ∈ b.done := hclosed _ _ ⟨c, hc, rfl, rfl⟩ ((hdone _).mpr hup)
    rw [hpart c.source ((hdone _).mp hsource)]
    exact (hlaid.handle hg hc hsource).1
  · rw [hrack]
    exact hlaid.wires_perm_wiring hg hclosed hwired
  · rw [hrack]
    exact hlaid.outputs_of_notMem hg hclosed hwired hid

/-- An oscillator that is heard, and one that is not. -/
def Graph.tone : Graph Float :=
  empty.run [.addNode .oscillator, .addNode .oscillator, .addNode .universalOutput,
    .connect ⟨"n1", "signal", "n3", "signal"⟩]

theorem Graph.built_tone :
    ∃ patch, (tone.build 0 ⟨2.0, 1⟩ (.new 48000.0) .empty).outcome = .ok patch ∧
      ∀ id, (patch.part? id).isSome ↔ tone.Upstream id := by
  have hok : (tone.build 0 ⟨2.0, 1⟩ (.new 48000.0) .empty).outcome.isOk = true := by
    decide +kernel
  cases hpatch : (tone.build 0 ⟨2.0, 1⟩ (.new 48000.0) .empty).outcome with
  | error fault =>
    rw [hpatch] at hok
    cases hok
  | ok patch =>
    obtain ⟨_, _, _, _, hparts, _⟩ := build_wiring ⟨_, rfl⟩ 0 ⟨2.0, 1⟩ (.new 48000.0) .empty hpatch
    exact ⟨patch, rfl, hparts⟩

end Patchbay
