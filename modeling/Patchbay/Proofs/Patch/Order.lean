import Patchbay.Proofs.Graph.Paths
import Patchbay.Proofs.Patch.Blueprint
/-!
# Building nodes one after another

What building one node does (`built_of_buildNode`) and what can keep it from being built
(`fault_of_buildNode`), and the building of a list of nodes in a given order (`buildAll`). A `Trail`
is an order in which nodes were built, each after all that feeds it.
-/

namespace Patchbay.Assembly

variable {α : Type}

/-! ## Finished nodes -/

/-- The names of the finished nodes, in the order in which they were built. -/
def done (a : Assembly α) : List NodeId := a.parts.map (·.1)

theorem isSome_part?_iff {a : Assembly α} {id : NodeId} : (a.part? id).isSome ↔ id ∈ a.done := by
  unfold part? done
  rw [Option.isSome_map, List.find?_isSome, List.mem_map]
  exact exists_congr fun p => and_congr_right fun _ => beq_iff_eq

/-- Every finished node has a primitive behind each of its outputs. -/
def Furnished (g : Graph α) (a : Assembly α) : Prop :=
  ∀ n ∈ g.nodes, ∀ part, a.part? n.id = some part →
    ∀ output, (n.kind.output? output).isSome → (part.output? output).isSome

/-- Looking at the parts with a new one at the end. -/
theorem part?_concat (b : Assembly α) (id id' : NodeId) (part : Part α) :
    { b with parts := b.parts ++ [(id, part)] }.part? id' =
      (b.part? id').or (if id = id' then some part else none) := by
  unfold part?
  rw [List.find?_append, Option.map_or]
  congr 1
  by_cases h : id = id' <;> simp [h]

variable [Scalar α] {g : Graph α} {master : PrimitiveId} {noise : Noise.Source α}

/-! ## One node -/

/-- A node is built by carrying out its blueprint. -/
theorem run_of_buildNode {n : Node α} {a a' : Assembly α}
    (h : buildNode g master noise n a = .ok a') :
    ∃ plan b, Kind.blueprint n.panel (a.site master noise (a.feeds g n.id)) = .ok plan ∧
      plan.steps.foldlM runStep a = .ok b ∧
      a' = { b with parts := b.parts ++ [(n.id, plan.part)] } := by
  unfold buildNode at h
  split at h
  next => cases h
  next plan hplan =>
    obtain ⟨b, hrun, h⟩ := bind_eq_ok.mp h
    cases h
    exact ⟨plan, b, hplan, hrun, rfl⟩

theorem built_of_buildNode {n : Node α} {a a' : Assembly α}
    (h : buildNode g master noise n a = .ok a') :
    ∃ plan b, Kind.blueprint n.panel (a.site master noise (a.feeds g n.id)) = .ok plan ∧
      Ran a plan.steps b ∧ a' = { b with parts := b.parts ++ [(n.id, plan.part)] } := by
  obtain ⟨plan, b, hplan, hrun, ha'⟩ := run_of_buildNode h
  exact ⟨plan, b, hplan, ran_of_run hrun, ha'⟩

theorem done_of_buildNode {n : Node α} {a a' : Assembly α}
    (h : buildNode g master noise n a = .ok a') : a'.done = a.done ++ [n.id] := by
  obtain ⟨plan, b, -, hran, rfl⟩ := built_of_buildNode h
  unfold done
  rw [List.map_append, hran.parts]
  rfl

theorem refused_of_buildNode {n : Node α} {a a' : Assembly α}
    (h : buildNode g master noise n a = .ok a') :
    a'.rack.refused = a.rack.refused ∧ ∀ f ∈ n.kind.outfit, f ∉ a.rack.refused := by
  obtain ⟨plan, b, hplan, hran, rfl⟩ := built_of_buildNode h
  refine ⟨hran.refused, fun f hf => hran.accepted f ?_⟩
  rw [Kind.families_of_blueprint hplan]
  exact hf

/-- What keeps a node with accepted values from being built is a refused family of its own. -/
theorem fault_of_buildNode {n : Node α} {a : Assembly α} {stopped : Stopped α}
    (hn : n.panel.Accepted) (h : buildNode g master noise n a = .error stopped) :
    ∃ f ∈ n.kind.outfit, f ∈ a.rack.refused ∧ stopped.fault = .refused ⟨f⟩ := by
  unfold buildNode at h
  split at h
  next rejection hplan =>
    obtain ⟨plan, hplan'⟩ := Kind.exists_blueprint hn (a.site master noise (a.feeds g n.id))
    rw [hplan'] at hplan
    cases hplan
  next plan hplan =>
    rcases bind_eq_error.mp h with hrun | ⟨b, -, h⟩
    · obtain ⟨f, hf, hrefused, hfault⟩ := exists_refused_of_run hrun
      exact ⟨f, Kind.families_of_blueprint hplan ▸ hf, hrefused, hfault⟩
    · cases h

/-- A node gets one block of primitives, which follows what is on the rack. -/
theorem size_of_buildNode {n : Node α} {a a' : Assembly α}
    (h : buildNode g master noise n a = .ok a') :
    a'.rack.primitives.size = a.rack.primitives.size + n.kind.outfit.length := by
  obtain ⟨plan, b, hplan, hran, rfl⟩ := built_of_buildNode h
  have hfamilies : Step.families plan.steps = n.kind.outfit := Kind.families_of_blueprint hplan
  exact hfamilies ▸ hran.size

theorem made_of_buildNode {n : Node α} {a a' : Assembly α}
    (h : buildNode g master noise n a = .ok a') :
    a'.made = a.made ++ numbered a.rack.primitives.size n.kind.outfit := by
  obtain ⟨plan, b, hplan, hran, rfl⟩ := built_of_buildNode h
  have hfamilies : Step.families plan.steps = n.kind.outfit := Kind.families_of_blueprint hplan
  exact hfamilies ▸ hran.made

/-- The other nodes keep their parts. -/
theorem part?_of_buildNode {n : Node α} {a a' : Assembly α}
    (h : buildNode g master noise n a = .ok a') {id : NodeId} (hid : id ≠ n.id) :
    a'.part? id = a.part? id := by
  obtain ⟨plan, b, -, hran, rfl⟩ := built_of_buildNode h
  rw [part?_concat, if_neg (Ne.symm hid), Option.or_none]
  unfold part?
  rw [hran.parts]

/-- A node that is built has a primitive of its block behind each of its outputs. -/
theorem exists_part_of_buildNode {n : Node α} {a a' : Assembly α} (hnew : n.id ∉ a.done)
    (h : buildNode g master noise n a = .ok a') :
    ∃ part, a'.part? n.id = some part ∧ ∀ s ∈ n.kind.outputs,
      part.output? s.name = some (a.rack.primitives.size + n.kind.outlet) := by
  obtain ⟨plan, b, hplan, hran, rfl⟩ := built_of_buildNode h
  have hnone : b.part? n.id = none := by
    rw [← Option.not_isSome_iff_eq_none, isSome_part?_iff]
    show n.id ∉ b.parts.map (·.1)
    rw [hran.parts]
    exact hnew
  refine ⟨plan.part, ?_, Kind.outputs_of_blueprint hplan⟩
  rw [part?_concat, hnone, if_pos rfl, Option.none_or]

/-- A node that is built has its outputs, and the others keep theirs. -/
theorem Furnished.buildNode {a a' : Assembly α} (ha : Furnished g a) (hg : g.WellFormed)
    {n : Node α} (hn : g.Next a.done n) (h : buildNode g master noise n a = .ok a') :
    Furnished g a' := by
  intro m hm part hpart output houtput
  by_cases hid : m.id = n.id
  · obtain rfl := hg.eq_of_id_eq hm hn.there hid
    obtain ⟨part', hpart', houtputs⟩ := exists_part_of_buildNode hn.new h
    obtain rfl := Option.some.inj (hpart.symm.trans hpart')
    obtain ⟨s, hs, hname⟩ := List.find?_isSome.mp houtput
    obtain rfl : s.name = output := by simpa using hname
    rw [houtputs s hs]
    rfl
  · rw [part?_of_buildNode h hid] at hpart
    exact ha m hm part hpart output houtput

/-! ## Many nodes -/

/-- Builds nodes one after another. -/
def buildAll (g : Graph α) (master : PrimitiveId) (noise : Noise.Source α) (order : List (Node α))
    (a : Assembly α) : Except (Stopped α) (Assembly α) :=
  order.foldlM (fun a n => buildNode g master noise n a) a

theorem buildAll_append {order order' : List (Node α)} {a b : Assembly α} :
    buildAll g master noise (order ++ order') a = .ok b ↔
      ∃ a', buildAll g master noise order a = .ok a' ∧
        buildAll g master noise order' a' = .ok b := by
  unfold buildAll
  rw [List.foldlM_append, bind_eq_ok]

theorem buildAll_cons {n : Node α} {order : List (Node α)} {a b : Assembly α} :
    buildAll g master noise (n :: order) a = .ok b ↔
      ∃ a', buildNode g master noise n a = .ok a' ∧ buildAll g master noise order a' = .ok b := by
  unfold buildAll
  rw [List.foldlM_cons, bind_eq_ok]

/-- An order in which nodes were built, all with a property, each after what feeds it. -/
structure Trail (g : Graph α) (master : PrimitiveId) (noise : Noise.Source α)
    (P : NodeId → Prop) (a : Assembly α) (order : List (Node α)) (b : Assembly α) : Prop where
  ready : g.Ready a.done order
  built : buildAll g master noise order a = .ok b
  property : ∀ n ∈ order, P n.id

namespace Trail

variable {P Q : NodeId → Prop} {a b c : Assembly α} {order order' : List (Node α)}

theorem nil : Trail g master noise P a [] a :=
  ⟨trivial, rfl, fun _ hn => absurd hn List.not_mem_nil⟩

theorem done_eq (h : Trail g master noise P a order b) : b.done = a.done ++ order.map (·.id) := by
  obtain ⟨-, hbuilt, -⟩ := h
  induction order generalizing a with
  | nil =>
    cases hbuilt
    exact (List.append_nil _).symm
  | cons n order ih =>
    obtain ⟨a', hnode, hrest⟩ := buildAll_cons.mp hbuilt
    rw [ih hrest, done_of_buildNode hnode, List.append_assoc]
    rfl

theorem mem_done (h : Trail g master noise P a order b) {id : NodeId} (hid : id ∈ a.done) :
    id ∈ b.done := by
  rw [h.done_eq]
  exact List.mem_append_left _ hid

theorem append (h : Trail g master noise P a order b) (h' : Trail g master noise P b order' c) :
    Trail g master noise P a (order ++ order') c where
  ready := Graph.ready_append.mpr ⟨h.ready, h.done_eq ▸ h'.ready⟩
  built := buildAll_append.mpr ⟨b, h.built, h'.built⟩
  property n hn := (List.mem_append.mp hn).elim (h.property n) (h'.property n)

theorem mono (h : Trail g master noise P a order b) (hPQ : ∀ id, P id → Q id) :
    Trail g master noise Q a order b :=
  ⟨h.ready, h.built, fun n hn => hPQ _ (h.property n hn)⟩

/-- One more node, after all that feeds it. -/
theorem concat (h : Trail g master noise P a order b) {n : Node α} (hn : g.Next b.done n)
    (hP : P n.id) (hnode : buildNode g master noise n b = .ok c) :
    Trail g master noise P a (order ++ [n]) c :=
  h.append ⟨Graph.ready_singleton.mpr hn, buildAll_cons.mpr ⟨c, hnode, rfl⟩,
    fun _ hm => List.mem_singleton.mp hm ▸ hP⟩

/-- Where each of several things builds nodes, a certain one among them, all together do so. -/
theorem of_foldlM {τ : Type} {f : Assembly α → τ → Except (Stopped α) (Assembly α)}
    {aim : τ → NodeId} {l : List τ} (hf : ∀ x ∈ l, ∀ a b, f a x = .ok b →
      (∃ order, Trail g master noise P a order b) ∧ aim x ∈ b.done)
    (h : l.foldlM f a = .ok b) :
    (∃ order, Trail g master noise P a order b) ∧ ∀ x ∈ l, aim x ∈ b.done := by
  induction l generalizing a with
  | nil =>
    cases h
    exact ⟨⟨[], nil⟩, fun x hx => absurd hx List.not_mem_nil⟩
  | cons x l ih =>
    rw [List.foldlM_cons] at h
    obtain ⟨a', hx, hrest⟩ := bind_eq_ok.mp h
    obtain ⟨⟨order, htrail⟩, hdone⟩ := hf x List.mem_cons_self a a' hx
    obtain ⟨⟨order', htrail'⟩, hdone'⟩ := ih (fun y hy => hf y (List.mem_cons_of_mem _ hy)) hrest
    refine ⟨⟨order ++ order', htrail.append htrail'⟩, fun y hy => ?_⟩
    rcases List.mem_cons.mp hy with rfl | hy
    · exact htrail'.mem_done hdone
    · exact hdone' y hy

theorem furnished (h : Trail g master noise P a order b) (hg : g.WellFormed)
    (ha : Furnished g a) : Furnished g b := by
  obtain ⟨hready, hbuilt, -⟩ := h
  induction order generalizing a with
  | nil =>
    cases hbuilt
    exact ha
  | cons n order ih =>
    obtain ⟨a', hnode, hrest⟩ := buildAll_cons.mp hbuilt
    exact ih (ha.buildNode hg hready.1 hnode) (done_of_buildNode hnode ▸ hready.2) hrest

/-- The rack refuses what it refused before, and nothing of that was needed. -/
theorem refused (h : Trail g master noise P a order b) : b.rack.refused = a.rack.refused ∧
    ∀ n ∈ order, ∀ f ∈ n.kind.outfit, f ∉ a.rack.refused := by
  obtain ⟨-, hbuilt, -⟩ := h
  induction order generalizing a with
  | nil =>
    cases hbuilt
    exact ⟨rfl, fun _ hn => absurd hn List.not_mem_nil⟩
  | cons n order ih =>
    obtain ⟨a', hnode, hrest⟩ := buildAll_cons.mp hbuilt
    obtain ⟨hsame, hfamilies⟩ := refused_of_buildNode hnode
    obtain ⟨hsame', hfamilies'⟩ := ih hrest
    refine ⟨hsame'.trans hsame, fun m hm => ?_⟩
    rcases List.mem_cons.mp hm with rfl | hm
    · exact hfamilies
    · exact hsame ▸ hfamilies' m hm

end Trail

end Patchbay.Assembly
