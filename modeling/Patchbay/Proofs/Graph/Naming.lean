import Patchbay.Proofs.Graph.Reachable
/-!
# The names of nodes

Beside a graph a register keeps the names that its nodes have had since the graph was last emptied
or imported (`Register.held`), those of them that were given to new nodes (`Register.given`), and
those that came with nodes named by somebody else (`Register.brought`).

The number in the last name given only goes up, and it passes no name that was never held
(`Register.Numbered`). So no name is given twice (`Register.name_of_addNode`), but a name that was
brought in is given to a new node when its own node has been removed before the number gets there
(`Register.given_again`).
-/

namespace Patchbay.Graph

variable {α : Type}

def names (g : Graph α) : List NodeId := g.nodes.map (·.id)

/-! ## What an edit does to names -/

/-- The second graph gives names from where the first left off, and has no names but those of the
first and some that were brought in. -/
structure Continued (g : Graph α) (brought : List NodeId) (g' : Graph α) : Prop where
  lastNode : g'.lastNode = g.lastNode
  names : g'.names ⊆ g.names ++ brought

theorem Continued.of_nodes {g g' : Graph α} (hlast : g'.lastNode = g.lastNode)
    (hnodes : g'.nodes = g.nodes) : Continued g [] g' := by
  refine ⟨hlast, ?_⟩
  unfold Graph.names
  rw [hnodes, List.append_nil]
  exact fun _ h => h

theorem Continued.insert {g g' : Graph α} {node : Node α} (h : g.insert node = .ok g') :
    Continued g [node.id] g' := by
  unfold Graph.insert at h
  split at h
  next => cases h
  next =>
    cases h
    refine ⟨rfl, ?_⟩
    show (g.nodes ++ [node]).map (·.id) ⊆ g.names ++ [node.id]
    rw [List.map_append]
    exact fun _ h => h

theorem Continued.removeNode {g g' : Graph α} {id : NodeId} {node : Node α}
    (h : g.removeNode id = .ok (node, g')) : Continued g [] g' := by
  unfold Graph.removeNode at h
  split at h
  next => cases h
  next =>
    cases h
    refine ⟨rfl, ?_⟩
    rw [List.append_nil]
    exact ((List.eraseIdx_sublist _ _).map _).subset

theorem Continued.connect {g g' : Graph α} {c : Connection} (h : g.connect c = .ok g') :
    Continued g [] g' := by
  refine .of_nodes ?_ (nodes_connect h)
  unfold Graph.connect at h
  split at h
  next => cases h
  next => cases h; rfl

theorem Continued.disconnect {g g' : Graph α} {c : Connection} (h : g.disconnect c = .ok g') :
    Continued g [] g' := by
  refine .of_nodes ?_ (nodes_disconnect h)
  unfold Graph.disconnect at h
  split at h
  next => cases h; rfl
  next => cases h

theorem Continued.removeComment {g g' : Graph α} {id : CommentId} {c : Comment}
    (h : g.removeComment id = .ok (c, g')) : Continued g [] g' := by
  refine .of_nodes ?_ (nodes_removeComment h)
  unfold Graph.removeComment at h
  split at h
  next => cases h
  next => cases h; rfl

theorem Continued.setCommentText {g g' : Graph α} {id : CommentId} {text : String}
    (h : g.setCommentText id text = .ok g') : Continued g [] g' := by
  refine .of_nodes ?_ (nodes_setCommentText h)
  unfold Graph.setCommentText at h
  split at h
  next => cases h; rfl
  next => cases h

variable [Scalar α]

theorem Continued.setControl {g g' : Graph α} (hg : g.WellFormed) {id : NodeId} {key : String}
    {v : Control.Value α} (h : g.setControl id key v = .ok g') : Continued g [] g' := by
  unfold Graph.setControl at h
  split at h
  next => cases h
  next place node hlocated =>
    split at h
    next => cases h
    next panel hpanel =>
      cases h
      obtain ⟨hplace, -⟩ := hg.located?_eq_some_iff.mp hlocated
      have hids : (g.nodes.set place { node with panel }).map (·.id) = g.names := by
        have hsame := congrArg (List.map Prod.fst) (WellFormed.signatures_set hplace hpanel)
        simpa [signature, Function.comp_def, Graph.names] using hsame
      refine ⟨rfl, ?_⟩
      rw [List.append_nil]
      exact fun _ hname => hids ▸ hname

/-- An edit that starts the graph anew. -/
def Edit.renews : Edit α → Bool
  | .importDocument _ | .clear => true
  | _ => false

/-- The name that an edit gives to a new node. -/
def Edit.given? (g : Graph α) : Edit α → Option NodeId
  | .addNode kind => some (g.addNode kind).1
  | _ => none

/-- The names of the nodes that an edit brings along. -/
def Edit.brought : Edit α → List NodeId
  | .addNodeNamed id _ => [id]
  | .insert node _ => [node.id]
  | .importDocument d => (d.toGraph (α := α)).1.names
  | _ => []

/-- An import gives no name. -/
theorem lastNode_toGraph (d : Document) : (d.toGraph (α := α)).1.lastNode = 0 :=
  Document.toGraph_induction (P := fun g => g.lastNode = 0) rfl
    (fun hg _ hinsert => (Continued.insert hinsert).lastNode.trans hg)
    (fun hg hconnect => (Continued.connect hconnect).lastNode.trans hg) (fun _ hg => hg) d

theorem names_addNode (g : Graph α) (kind : Kind) :
    (g.addNode kind).2.names = g.names ++ [(g.addNode kind).1] := List.map_append

/-- An edit that neither starts the graph anew nor gives a name goes on from the graph. -/
theorem Continued.edit {g : Graph α} (hg : g.WellFormed) {e : Edit α} (hrenews : e.renews = false)
    (hgiven : e.given? g = none) : Continued g e.brought (g.edit e) := by
  have keeps {ε : Type} {brought : List NodeId} {edited : Except ε (Graph α)}
      (h : ∀ g', edited = .ok g' → Continued g brought g') :
      Continued g brought (g.outcome edited) :=
    outcome_induction ⟨rfl, List.subset_append_left _ _⟩ h
  cases e with
  | addNode => cases hgiven
  | importDocument | clear => cases hrenews
  | addNodeNamed | insert => exact keeps fun _ h => .insert h
  | connect => exact keeps fun _ h => .connect h
  | disconnect => exact keeps fun _ h => .disconnect h
  | setControl => exact keeps fun _ h => .setControl hg h
  | setCommentText => exact keeps fun _ h => .setCommentText h
  | addComment | insertComment | clearComments => exact .of_nodes rfl rfl
  | removeNode =>
    refine keeps fun g' h => ?_
    obtain ⟨⟨node, _⟩, hremoved, rfl⟩ := map_eq_ok.mp h
    exact .removeNode hremoved
  | removeComment =>
    refine keeps fun g' h => ?_
    obtain ⟨⟨c, _⟩, hremoved, rfl⟩ := map_eq_ok.mp h
    exact .removeComment hremoved

omit [Scalar α] in
theorem mem_names_outcome_insert {g : Graph α} (hg : g.WellFormed) (node : Node α) :
    node.id ∈ (g.outcome (g.insert node)).names := by
  unfold insert
  split
  next htaken => exact hg.hasNode_iff.mp htaken
  next => exact List.mem_map_of_mem (List.mem_append_right _ (List.mem_singleton_self node))

/-- What an edit brings along is there then, if it was not there before. -/
theorem brought_subset {g : Graph α} (hg : g.WellFormed) (e : Edit α) :
    e.brought ⊆ (g.edit e).names := by
  cases e with
  | addNodeNamed id kind =>
    intro name hname
    rw [List.mem_singleton.mp hname]
    exact mem_names_outcome_insert hg ⟨id, .standard kind⟩
  | insert node =>
    intro name hname
    rw [List.mem_singleton.mp hname]
    exact mem_names_outcome_insert hg node
  | importDocument d => exact fun _ hname => hname
  | _ => exact List.nil_subset _

/-! ## Registers -/

/-- A graph with the names that its nodes have had. -/
structure Register (α : Type) where
  graph : Graph α
  held : List NodeId
  /-- The names that were given to new nodes. -/
  given : List NodeId
  /-- The names of nodes that came with a name. -/
  brought : List NodeId

namespace Register

def new : Register α := ⟨empty, [], [], []⟩

/-- Forgets the names when an edit starts the graph anew. -/
def renewed (r : Register α) (e : Edit α) : Register α :=
  if e.renews then { r with held := [], given := [], brought := [] } else r

/-- Carries out an edit and notes the names that are then in the graph. -/
def edit (r : Register α) (e : Edit α) : Register α where
  graph := r.graph.edit e
  held := (r.graph.edit e).names ++ (r.renewed e).held
  given := (e.given? r.graph).toList ++ (r.renewed e).given
  brought := e.brought ++ (r.renewed e).brought

def run (r : Register α) (edits : List (Edit α)) : Register α := edits.foldl edit r

theorem graph_run (r : Register α) (edits : List (Edit α)) :
    (r.run edits).graph = r.graph.run edits := by
  induction edits generalizing r with
  | nil => rfl
  | cons e edits ih => exact ih (r.edit e)

/-- What is known of the names in a register. -/
structure Numbered (r : Register α) : Prop where
  sound : r.graph.Sound
  here : r.graph.names ⊆ r.held
  known : ∀ name ∈ r.held, name ∈ r.given ∨ name ∈ r.brought
  came : r.brought ⊆ r.held
  below : ∀ name ∈ r.given, ∃ m ≤ r.graph.lastNode, name = nodeName m
  passed : ∀ m, 0 < m → m ≤ r.graph.lastNode → nodeName m ∈ r.held

theorem numbered_new : (new : Register α).Numbered where
  sound := .empty
  here _ h := h
  known _ h := absurd h List.not_mem_nil
  came _ h := h
  below _ h := absurd h List.not_mem_nil
  passed _ hpos hle := absurd hle (Nat.not_le_of_lt hpos)

/-- The name of a new node is free. Its number is greater than the last, and all names of lesser
numbers have been held. -/
theorem Numbered.addNode {r : Register α} (h : r.Numbered) (kind : Kind) :
    ∃ n, (r.graph.addNode kind).1 = nodeName n ∧ (r.graph.addNode kind).2.lastNode = n ∧
      r.graph.lastNode < n ∧ nodeName n ∉ r.graph.names ∧
      ∀ m, 0 < m → m < n → nodeName m ∈ r.held := by
  have hg := h.sound.wellFormed
  obtain ⟨hbelow, -, hlt⟩ := nextFree_spec (r.graph.hasNode ∘ nodeName) r.graph.nodes.length
    r.graph.lastNode
  refine ⟨_, rfl, rfl, hlt, fun hmem => ?_, fun m hpos hm => ?_⟩
  · have hfree := hasNode_nodeName_nextFree hg
    rw [hg.hasNode_iff.mpr hmem] at hfree
    cases hfree
  · -- the number has passed the name before, or passes it now since the name is taken
    rcases Nat.lt_or_ge r.graph.lastNode m with hlast | hlast
    · exact h.here (hg.hasNode_iff.mp (hbelow m hlast hm))
    · exact h.passed m hpos hlast

theorem renewed_of_renews {r : Register α} {e : Edit α} (h : e.renews = true) :
    r.renewed e = { r with held := [], given := [], brought := [] } := if_pos h

theorem renewed_of_not_renews {r : Register α} {e : Edit α} (h : e.renews = false) :
    r.renewed e = r := if_neg (Bool.eq_false_iff.mp h)

variable [StandardsAccepted α]

/-- A graph that is started anew has only nodes that were brought in, and no name given. -/
theorem Numbered.edit_of_renews {r : Register α} (h : r.Numbered) {e : Edit α}
    (hrenews : e.renews = true) : (r.edit e).Numbered := by
  have hstart : (r.graph.edit e).lastNode = 0 ∧ (r.graph.edit e).names ⊆ e.brought ∧
      e.given? r.graph = none := by
    cases e with
    | importDocument d => exact ⟨lastNode_toGraph d, fun _ hname => hname, rfl⟩
    | clear => exact ⟨rfl, List.nil_subset _, rfl⟩
    | _ => cases hrenews
  obtain ⟨hlast, hnames, hgiven⟩ := hstart
  have hedit : r.edit e = ⟨r.graph.edit e, (r.graph.edit e).names, [], e.brought⟩ := by
    unfold Register.edit
    rw [renewed_of_renews hrenews, hgiven]
    simp
  rw [hedit]
  refine ⟨h.sound.edit e, fun _ hname => hname, fun name hname => Or.inr (hnames hname),
    brought_subset h.sound.wellFormed e, fun name hname => absurd hname List.not_mem_nil,
    fun m hpos hm => ?_⟩
  rw [hlast] at hm
  omega

/-- A new node gets a name of its own. -/
theorem Numbered.edit_addNode {r : Register α} (h : r.Numbered) (kind : Kind) :
    (r.edit (.addNode kind)).Numbered := by
  obtain ⟨n, hname, hlast, hlt, -, hpassed⟩ := h.addNode kind
  have hnew : nodeName n ∈ (r.graph.addNode kind).2.names := by
    rw [names_addNode, hname]
    exact List.mem_append_right _ (List.mem_singleton_self _)
  refine ⟨h.sound.edit (.addNode kind), List.subset_append_left _ _, fun name hheld => ?_,
    fun name hname => List.mem_append_right _ (h.came hname), fun name hgiven => ?_,
    fun m hpos hm => ?_⟩
  · rcases List.mem_append.mp hheld with hhere | hheld
    · have hmem : name ∈ (r.graph.addNode kind).2.names := hhere
      rw [names_addNode] at hmem
      rcases List.mem_append.mp hmem with hmem | hmem
      · exact (h.known name (h.here hmem)).imp_left (List.mem_cons_of_mem _)
      · rw [List.mem_singleton.mp hmem]
        exact Or.inl List.mem_cons_self
    · exact (h.known name hheld).imp_left (List.mem_cons_of_mem _)
  · show ∃ m ≤ (r.graph.addNode kind).2.lastNode, name = nodeName m
    rw [hlast]
    rcases List.mem_cons.mp hgiven with rfl | hgiven
    · exact ⟨n, Nat.le_refl n, hname⟩
    · obtain ⟨m, hm, rfl⟩ := h.below name hgiven
      exact ⟨m, by omega, rfl⟩
  · have hm : m ≤ n := hlast ▸ hm
    rcases Nat.lt_or_eq_of_le hm with hm | rfl
    · exact List.mem_append_right _ (hpassed m hpos hm)
    · exact List.mem_append_left _ hnew

theorem Numbered.edit {r : Register α} (h : r.Numbered) (e : Edit α) : (r.edit e).Numbered := by
  cases hrenews : e.renews with
  | true => exact h.edit_of_renews hrenews
  | false =>
    cases hgiven : e.given? r.graph with
    | some name =>
      cases e with
      | addNode kind => exact h.edit_addNode kind
      | _ => cases hgiven
    | none =>
      have hnext := Continued.edit h.sound.wellFormed hrenews hgiven
      have hedit : r.edit e =
          ⟨r.graph.edit e, (r.graph.edit e).names ++ r.held, r.given, e.brought ++ r.brought⟩ := by
        unfold Register.edit
        rw [renewed_of_not_renews hrenews, hgiven]
        rfl
      rw [hedit]
      refine ⟨h.sound.edit e, List.subset_append_left _ _, fun name hheld => ?_,
        fun name hname => ?_, ?_, ?_⟩
      · rcases List.mem_append.mp hheld with hhere | hheld
        · rcases List.mem_append.mp (hnext.names hhere) with hmem | hmem
          · exact (h.known name (h.here hmem)).imp_right (List.mem_append_right _)
          · exact Or.inr (List.mem_append_left _ hmem)
        · exact (h.known name hheld).imp_right (List.mem_append_right _)
      · rcases List.mem_append.mp hname with hname | hname
        · exact List.mem_append_left _ (brought_subset h.sound.wellFormed e hname)
        · exact List.mem_append_right _ (h.came hname)
      · show ∀ name ∈ r.given, ∃ m ≤ (r.graph.edit e).lastNode, name = nodeName m
        rw [hnext.lastNode]
        exact h.below
      · show ∀ m, 0 < m → m ≤ (r.graph.edit e).lastNode → nodeName m ∈ _ ++ r.held
        rw [hnext.lastNode]
        exact fun m hpos hm => List.mem_append_right _ (h.passed m hpos hm)

theorem Numbered.run {r : Register α} (h : r.Numbered) (edits : List (Edit α)) :
    (r.run edits).Numbered := by
  induction edits generalizing r with
  | nil => exact h
  | cons e edits ih => exact ih (h.edit e)

/-- After any edits, a new node is put at the end under the name of some number. No node in the
graph has that name, it was not given before, and all names of lesser numbers have been held. It has
been held itself just when it was brought in. -/
theorem name_of_addNode (edits : List (Edit Float)) (kind : Kind) :
    let r := new.run edits
    r.graph = empty.run edits ∧
    ∃ n, (r.graph.addNode kind).1 = nodeName n ∧
      (r.graph.addNode kind).2.names = r.graph.names ++ [nodeName n] ∧
      nodeName n ∉ r.graph.names ∧ nodeName n ∉ r.given ∧
      (∀ m, 0 < m → m < n → nodeName m ∈ r.held) ∧
      (nodeName n ∈ r.held ↔ nodeName n ∈ r.brought) := by
  intro r
  have h : r.Numbered := numbered_new.run edits
  obtain ⟨n, hname, -, hlt, hfree, hpassed⟩ := h.addNode kind
  have hgiven : nodeName n ∉ r.given := fun hmem => by
    obtain ⟨m, hm, heq⟩ := h.below _ hmem
    have := nodeName_injective heq
    omega
  refine ⟨graph_run new edits, n, hname, ?_, hfree, hgiven, hpassed,
    fun hheld => (h.known _ hheld).resolve_left hgiven, fun hbrought => h.came hbrought⟩
  rw [names_addNode, hname]

/-- The name of a node that was brought in and removed is given to the next node. -/
theorem given_again :
    let r : Register Float := new.run [.addNodeNamed "n1" .gain, .removeNode "n1"]
    (r.graph.addNode .gain).1 ∈ r.held := by
  decide +kernel

end Register

end Patchbay.Graph
