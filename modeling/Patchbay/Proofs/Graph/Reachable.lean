import Patchbay.Document.Import
import Patchbay.Proofs.Graph.Edits
import Patchbay.Proofs.Kind
import Patchbay.Proofs.Panel
/-!
# Reachable graphs

`Graph.edit` carries out any one edit, a refused edit changing nothing, and a graph is reachable
when some edits lead to it from the empty graph. A reachable graph is sound
(`Reachable.sound`): it is well-formed, and its panels hold accepted values. `Graph.answer` is what
an edit gives back, be it a fault.

An import is a run of small edits too: nodes are inserted, then connections made, then comments
inserted, and what is refused is left out (`Document.toGraph_induction`).
-/

namespace Patchbay

variable {α : Type} [Scalar α]

namespace Graph

/-- Well-formed, with accepted values on every panel. -/
structure Sound (g : Graph α) : Prop where
  wellFormed : g.WellFormed
  panels : ∀ n ∈ g.nodes, n.panel.Accepted

/-- An edit of a graph. An inserted node has a panel as the operations on panels make them. -/
inductive Edit (α : Type) [Scalar α] where
  | addNode (kind : Kind)
  | addNodeNamed (id : NodeId) (kind : Kind)
  | insert (node : Node α) (made : node.panel.Made)
  | removeNode (id : NodeId)
  | setControl (id : NodeId) (key : String) (value : Control.Value α)
  | connect (c : Connection)
  | disconnect (c : Connection)
  | addComment (text : String) (style : Comment.Style) (links : List NodeId)
  | insertComment (c : Comment)
  | removeComment (id : CommentId)
  | setCommentText (id : CommentId) (text : String)
  | clearComments
  | importDocument (d : Document)
  | clear

/-- Whether an edit can be heard. Comments cannot. -/
def Edit.audible : Edit α → Bool
  | .addComment _ _ _ | .insertComment _ | .removeComment _ | .setCommentText _ _
  | .clearComments => false
  | .addNode _ | .addNodeNamed _ _ | .insert _ _ | .removeNode _ | .setControl _ _ _ | .connect _
  | .disconnect _ | .importDocument _ | .clear => true

/-- What an edit that can be refused leaves. -/
def outcome {ε : Type} (g : Graph α) (edited : Except ε (Graph α)) : Graph α :=
  edited.toOption.getD g

/-- Carries out an edit. A refused edit changes nothing. -/
def edit (g : Graph α) : Edit α → Graph α
  | .addNode kind => (g.addNode kind).2
  | .addNodeNamed id kind => g.outcome (g.addNodeNamed id kind)
  | .insert node _ => g.outcome (g.insert node)
  | .removeNode id => g.outcome ((g.removeNode id).map (·.2))
  | .setControl id key value => g.outcome (g.setControl id key value)
  | .connect c => g.outcome (g.connect c)
  | .disconnect c => g.outcome (g.disconnect c)
  | .addComment text style links => (g.addComment text style links).2
  | .insertComment c => g.insertComment c
  | .removeComment id => g.outcome ((g.removeComment id).map (·.2))
  | .setCommentText id text => g.outcome (g.setCommentText id text)
  | .clearComments => g.clearComments
  | .importDocument d => d.toGraph.1
  | .clear => empty

/-- Carries out edits one after another. -/
def run (g : Graph α) (edits : List (Edit α)) : Graph α := edits.foldl edit g

/-- Some edits lead from the empty graph to this one. -/
def Reachable (g : Graph α) : Prop := ∃ edits, empty.run edits = g

omit [Scalar α] in
theorem outcome_induction {ε : Type} {P : Graph α → Prop} {g : Graph α}
    {edited : Except ε (Graph α)} (hg : P g) (h : ∀ g', edited = .ok g' → P g') :
    P (g.outcome edited) := by
  cases edited with
  | error e => exact hg
  | ok g' => exact h g' rfl

/-! ## What edits give back -/

/-- What an edit gives back. -/
inductive Answer (α : Type) where
  | done
  | named (id : String)
  | node (n : Node α)
  | comment (c : Comment)
  | report (r : Document.Report)

/-- What comes of an edit, and the graph that it gives. -/
def answer (g : Graph α) : Edit α → Except SetFault (Answer α × Graph α)
  | .addNode kind => .ok (.named (g.addNode kind).1, (g.addNode kind).2)
  | .addNodeNamed id kind => ((g.addNodeNamed id kind).mapError .graph).map (.done, ·)
  | .insert node _ => ((g.insert node).mapError .graph).map (.done, ·)
  | .removeNode id => ((g.removeNode id).mapError .graph).map fun (n, g) => (.node n, g)
  | .setControl id key value => (g.setControl id key value).map (.done, ·)
  | .connect c => ((g.connect c).mapError .graph).map (.done, ·)
  | .disconnect c => ((g.disconnect c).mapError .graph).map (.done, ·)
  | .addComment text style links =>
    .ok (.named (g.addComment text style links).1, (g.addComment text style links).2)
  | .insertComment c => .ok (.done, g.insertComment c)
  | .removeComment id => ((g.removeComment id).mapError .graph).map fun (c, g) => (.comment c, g)
  | .setCommentText id text => ((g.setCommentText id text).mapError .graph).map (.done, ·)
  | .clearComments => .ok (.done, g.clearComments)
  | .importDocument d => .ok (.report (d.toGraph (α := α)).2, d.toGraph.1)
  | .clear => .ok (.done, empty)

section

variable {ε β : Type} (g : Graph α) (f : ε → SetFault)

omit [Scalar α]

theorem outcome_set (edited : Except SetFault (Graph α)) (b : β) :
    g.outcome ((edited.map (b, ·)).map (·.2)) = g.outcome edited := by
  cases edited <;> rfl

theorem outcome_done (edited : Except ε (Graph α)) (b : β) :
    g.outcome (((edited.mapError f).map (b, ·)).map (·.2)) = g.outcome edited := by
  cases edited <;> rfl

theorem outcome_map {γ : Type} (edited : Except ε (γ × Graph α)) (f' : γ → β) :
    g.outcome (((edited.mapError f).map fun (c, g') => (f' c, g')).map (·.2)) =
      g.outcome (edited.map (·.2)) := by
  rcases edited with _ | ⟨_, _⟩ <;> rfl

end

/-- An edit leaves the graph that it gives, or the graph that was there. -/
theorem outcome_answer (g : Graph α) (e : Edit α) :
    g.outcome ((g.answer e).map (·.2)) = g.edit e := by
  cases e with
  | addNode | addComment | insertComment | clearComments | importDocument | clear => rfl
  | addNodeNamed id kind => exact g.outcome_done .graph (g.addNodeNamed id kind) Answer.done
  | insert node => exact g.outcome_done .graph (g.insert node) Answer.done
  | removeNode id => exact g.outcome_map .graph (g.removeNode id) Answer.node
  | setControl id key value => exact g.outcome_set (g.setControl id key value) Answer.done
  | connect c => exact g.outcome_done .graph (g.connect c) Answer.done
  | disconnect c => exact g.outcome_done .graph (g.disconnect c) Answer.done
  | removeComment id => exact g.outcome_map .graph (g.removeComment id) Answer.comment
  | setCommentText id text => exact g.outcome_done .graph (g.setCommentText id text) Answer.done

/-! ## Sound edits -/

namespace Sound

variable {g : Graph α}

theorem empty : (Graph.empty : Graph α).Sound where
  wellFormed := .empty
  panels _ hn := absurd hn List.not_mem_nil

/-- An edit that leaves the nodes alone has only to stay well-formed. -/
theorem of_nodes {g' : Graph α} (h : g.Sound) (hg' : g'.WellFormed) (hnodes : g'.nodes = g.nodes) :
    g'.Sound :=
  ⟨hg', hnodes ▸ h.panels⟩

theorem push (h : g.Sound) {n : Node α} (hfree : g.hasNode n.id = false)
    (hn : n.panel.Accepted) : (g.push n).Sound := by
  refine ⟨h.wellFormed.push hfree, fun m hm => ?_⟩
  rcases List.mem_append.mp hm with hm | hm
  · exact h.panels m hm
  · rw [List.mem_singleton.mp hm]
    exact hn

theorem insert (h : g.Sound) {n : Node α} {g' : Graph α} (hn : n.panel.Accepted)
    (hg : g.insert n = .ok g') : g'.Sound := by
  unfold Graph.insert at hg
  split at hg
  next => cases hg
  next hfree =>
    cases hg
    exact h.push (Bool.not_eq_true _ ▸ hfree) hn

theorem addNode [StandardsAccepted α] (h : g.Sound) (kind : Kind) : (g.addNode kind).2.Sound := by
  -- counting the name up first touches nothing that the invariant looks at
  have hcount (n : Nat) : { g with lastNode := n }.Sound :=
    h.of_nodes (h.wellFormed.of_signatures rfl rfl rfl rfl) rfl
  exact (hcount _).push (hasNode_nodeName_nextFree h.wellFormed) (Panel.accepted_standard kind)

theorem removeNode (h : g.Sound) {id : NodeId} {n : Node α} {g' : Graph α}
    (hg : g.removeNode id = .ok (n, g')) : g'.Sound := by
  refine ⟨h.wellFormed.removeNode hg, ?_⟩
  unfold Graph.removeNode at hg
  split at hg
  next => cases hg
  next =>
    cases hg
    exact fun m hm => h.panels m ((List.eraseIdx_sublist _ _).subset hm)

theorem setControl (h : g.Sound) {id : NodeId} {key : String} {v : Control.Value α}
    {g' : Graph α} (hg : g.setControl id key v = .ok g') : g'.Sound := by
  refine ⟨h.wellFormed.setControl hg, ?_⟩
  unfold Graph.setControl at hg
  split at hg
  next => cases hg
  next place node hlocated =>
    split at hg
    next => cases hg
    next panel hpanel =>
      cases hg
      have hnode : node ∈ g.nodes :=
        List.mem_of_getElem? (h.wellFormed.located?_eq_some_iff.mp hlocated).1
      intro m hm
      rcases List.mem_or_eq_of_mem_set hm with hm | rfl
      · exact h.panels m hm
      · exact Panel.accepted_of_set (h.panels node hnode) hpanel

theorem connect (h : g.Sound) {c : Connection} {g' : Graph α} (hg : g.connect c = .ok g') :
    g'.Sound :=
  h.of_nodes (h.wellFormed.connect hg) (nodes_connect hg)

theorem disconnect (h : g.Sound) {c : Connection} {g' : Graph α}
    (hg : g.disconnect c = .ok g') : g'.Sound :=
  h.of_nodes (h.wellFormed.disconnect hg) (nodes_disconnect hg)

theorem insertComment (h : g.Sound) (c : Comment) : (g.insertComment c).Sound :=
  h.of_nodes (h.wellFormed.insertComment c) rfl

theorem addComment (h : g.Sound) (text : String) (style : Comment.Style) (links : List NodeId) :
    (g.addComment text style links).2.Sound := by
  have hcount (n : Nat) : { g with lastComment := n }.Sound :=
    h.of_nodes (h.wellFormed.of_signatures rfl rfl rfl rfl) rfl
  exact (hcount _).insertComment _

theorem removeComment (h : g.Sound) {id : CommentId} {c : Comment} {g' : Graph α}
    (hg : g.removeComment id = .ok (c, g')) : g'.Sound :=
  h.of_nodes (h.wellFormed.removeComment hg) (nodes_removeComment hg)

theorem setCommentText (h : g.Sound) {id : CommentId} {text : String} {g' : Graph α}
    (hg : g.setCommentText id text = .ok g') : g'.Sound :=
  h.of_nodes (h.wellFormed.setCommentText hg) (nodes_setCommentText hg)

end Sound

end Graph

/-! ## Importing -/

namespace Document

/-- A record that fits becomes a node with a panel read from its data. -/
theorem made_of_nodeOf {record : NodeRecord} {node : Node α} (h : nodeOf record = .ok node) :
    node.panel.Made := by
  unfold nodeOf at h
  split at h
  next => cases h
  next =>
    split at h
    next => cases h
    next hpanel =>
      cases h
      exact .ofData hpanel

/-- A record is inserted when it describes a node whose name is free. -/
theorem importNode_fst (g : Graph α) (report : Report) (record : NodeRecord) :
    (importNode (g, report) record).1 =
      g.outcome (do (g.insert (← nodeOf record)).mapError NodeRecord.Fault.graph) := by
  simp only [importNode]
  generalize (nodeOf record >>= fun node => (g.insert node).mapError NodeRecord.Fault.graph) =
    inserted
  cases inserted <;> rfl

omit [Scalar α] in
theorem importConnection_fst (g : Graph α) (report : Report) (c : Connection) :
    (importConnection (g, report) c).1 = g.outcome (g.connect c) := by
  simp only [importConnection]
  cases g.connect c <;> rfl

/-- What holds of the empty graph and is kept by inserting nodes, by connecting and by inserting
comments holds of every imported graph. -/
theorem toGraph_induction {P : Graph α → Prop} (empty : P .empty)
    (insert : ∀ {g node g'}, P g → node.panel.Made → g.insert node = .ok g' → P g')
    (connect : ∀ {g c g'}, P g → g.connect c = .ok g' → P g')
    (insertComment : ∀ {g} c, P g → P (g.insertComment c)) (d : Document) : P d.toGraph.1 := by
  have hnodes : P (d.nodes.foldl importNode (Graph.empty, {})).1 := by
    refine List.foldlRecOn (motive := fun s : Graph α × Report => P s.1) _ _ empty ?_
    rintro ⟨g, report⟩ hg record _
    rw [importNode_fst]
    refine Graph.outcome_induction hg fun g' hg' => ?_
    obtain ⟨node, hnode, hinsert⟩ := bind_eq_ok.mp hg'
    exact insert hg (made_of_nodeOf hnode) (mapError_eq_ok.mp hinsert)
  have hconnections :
      P (d.connections.foldl importConnection (d.nodes.foldl importNode (Graph.empty, {}))).1 := by
    refine List.foldlRecOn (motive := fun s : Graph α × Report => P s.1) _ _ hnodes ?_
    rintro ⟨g, report⟩ hg c _
    rw [importConnection_fst]
    exact Graph.outcome_induction hg fun g' hg' => connect hg hg'
  exact List.foldlRecOn _ _ hconnections fun g hg c _ => insertComment c hg

theorem sound_toGraph [StandardsAccepted α] (d : Document) : (d.toGraph (α := α)).1.Sound :=
  toGraph_induction .empty (fun h made hg => h.insert made.accepted hg) (fun h hg => h.connect hg)
    (fun c h => h.insertComment c) d

end Document

/-! ## Runs of edits -/

namespace Graph

variable [StandardsAccepted α]

/-- Every edit, carried out or refused, keeps a graph sound. -/
theorem Sound.edit {g : Graph α} (h : g.Sound) (e : Edit α) : (g.edit e).Sound := by
  cases e with
  | addNode kind => exact h.addNode kind
  | addNodeNamed id kind =>
    exact outcome_induction h fun _ hg => h.insert (Panel.accepted_standard kind) hg
  | insert node made => exact outcome_induction h fun _ hg => h.insert made.accepted hg
  | removeNode id =>
    refine outcome_induction h fun g' hg => ?_
    obtain ⟨⟨n, _⟩, hremoved, rfl⟩ := map_eq_ok.mp hg
    exact h.removeNode hremoved
  | setControl id key value => exact outcome_induction h fun _ hg => h.setControl hg
  | connect c => exact outcome_induction h fun _ hg => h.connect hg
  | disconnect c => exact outcome_induction h fun _ hg => h.disconnect hg
  | addComment text style links => exact h.addComment text style links
  | insertComment c => exact h.insertComment c
  | removeComment id =>
    refine outcome_induction h fun g' hg => ?_
    obtain ⟨⟨c, _⟩, hremoved, rfl⟩ := map_eq_ok.mp hg
    exact h.removeComment hremoved
  | setCommentText id text => exact outcome_induction h fun _ hg => h.setCommentText hg
  | clearComments => exact h.of_nodes h.wellFormed.clearComments rfl
  | importDocument d => exact d.sound_toGraph
  | clear => exact .empty

theorem Sound.run {g : Graph α} (h : g.Sound) (edits : List (Edit α)) : (g.run edits).Sound := by
  induction edits generalizing g with
  | nil => exact h
  | cons e edits ih => exact ih (h.edit e)

omit [StandardsAccepted α] in
theorem Reachable.run {g : Graph α} (h : g.Reachable) (edits : List (Edit α)) :
    (g.run edits).Reachable := by
  obtain ⟨before, rfl⟩ := h
  exact ⟨before ++ edits, List.foldl_append⟩

theorem Reachable.sound {g : Graph α} (h : g.Reachable) : g.Sound := by
  obtain ⟨edits, rfl⟩ := h
  exact Sound.empty.run edits

end Graph

/-- What holds after any edits, refused ones included: the place of a name is where the node of that
name stands, names are given once, connections join sockets that are there and are made once, a
socket for one connection has at most one, comments have names of their own and link nodes that are
there, and every control of a node has one value, which it accepts. -/
theorem Graph.invariant_run (edits : List (Graph.Edit Float)) :
    let g := Graph.empty.run edits
    (∀ id i, g.position? id = some i ↔ (g.nodes[i]?).map (·.id) = some id) ∧
    (g.nodes.map (·.id)).Nodup ∧
    (∀ c ∈ g.connections,
      (∃ n ∈ g.nodes, n.id = c.source ∧ ∃ s ∈ n.kind.outputs, s.name = c.output) ∧
      ∃ n ∈ g.nodes, n.id = c.target ∧ ∃ s ∈ n.kind.inputs, s.name = c.input) ∧
    g.connections.Nodup ∧
    (∀ n ∈ g.nodes, ∀ s ∈ n.kind.inputs, s.multiplicity = .single →
      (g.connections.filter fun c => c.target == n.id && c.input == s.name).length ≤ 1) ∧
    (g.comments.map (·.id)).Nodup ∧
    (∀ c ∈ g.comments, ∀ id ∈ c.links, ∃ n ∈ g.nodes, n.id = id) ∧
    ∀ n ∈ g.nodes, List.Forall₂ (fun control value => control.domain.fault? value = none)
      n.kind.controls n.panel.values := by
  intro g
  have hg : g.Sound := Graph.Sound.empty.run edits
  obtain ⟨h, hpanels⟩ := hg
  refine ⟨h.places, h.names, fun c hc => ?_, h.distinct, fun n hn s hs hsingle => ?_,
    h.commentNames, fun c hc id hid => ?_, fun n hn => ?_⟩
  · obtain ⟨⟨k, hk, houtput⟩, ⟨k', hk', hinput⟩⟩ := h.joined c hc
    obtain ⟨n, hn, hid, rfl⟩ := Graph.has_iff.mp hk
    obtain ⟨m, hm, hid', rfl⟩ := Graph.has_iff.mp hk'
    obtain ⟨s, hs, hname⟩ := List.find?_isSome.mp houtput
    obtain ⟨s', hs', hname'⟩ := List.find?_isSome.mp hinput
    exact ⟨⟨n, hn, hid, s, hs, by simpa using hname⟩, m, hm, hid', s', hs', by simpa using hname'⟩
  · have hlength := h.single n.id n.kind s.name s (Graph.has_of_mem hn)
      (Kind.input?_eq_some_iff.mpr ⟨hs, rfl⟩) hsingle
    rw [Graph.feeding, Graph.connectionsInto, List.filter_filter] at hlength
    simpa only [Bool.and_comm] using hlength
  · obtain ⟨k, hk⟩ := h.linked c hc id hid
    obtain ⟨n, hn, hid, -⟩ := Graph.has_iff.mp hk
    exact ⟨n, hn, hid⟩
  · exact (hpanels n hn).imp fun _ _ hv => Control.Domain.accepts_iff.mp hv

end Patchbay
