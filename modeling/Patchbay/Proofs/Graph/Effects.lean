import Patchbay.Proofs.Graph.Reachable
/-!
# What edits change

The exact effect of every edit that succeeds on a reachable graph (`Reachable.effect_of_answer`):
what is added comes last, what is removed leaves the rest in its order, and what an edit is not
about stays. Nodes are looked up by their places, which a removal makes anew, so that what lookups
find is said of each edit too.

Both the nodes and the comments of a graph have names of their own; a part of a list that is told by
its name is taken out of it, or changed, where it stands (`exists_split`).

A removal leaves what does not have to do with the node (`Graph.without`), so that two removals give
the same graph in either order.
-/

namespace Patchbay

/-! ## Lists with names of their own -/

section

variable {σ κ : Type}

/-- What has a name stands at one place of a list, and nothing else there has the name. -/
theorem exists_split {key : σ → κ} {l : List σ} (h : (l.map key).Nodup) {a : σ} (ha : a ∈ l) :
    ∃ before after, l = before ++ a :: after ∧ (∀ b ∈ before, key b ≠ key a) ∧
      ∀ b ∈ after, key b ≠ key a := by
  obtain ⟨before, after, rfl⟩ := List.append_of_mem ha
  rw [List.map_append, List.map_cons, List.nodup_append, List.nodup_cons] at h
  obtain ⟨-, ⟨hafter, -⟩, hbefore⟩ := h
  exact ⟨before, after, rfl,
    fun b hb => hbefore _ (List.mem_map_of_mem hb) _ List.mem_cons_self,
    fun b hb heq => hafter (List.mem_map.mpr ⟨b, hb, heq⟩)⟩

variable [DecidableEq κ] {key : σ → κ} {before after : List σ} {a : σ}
  (hbefore : ∀ b ∈ before, key b ≠ key a)
  (hafter : ∀ b ∈ after, key b ≠ key a)

include hbefore hafter

theorem filter_of_split :
    (before ++ a :: after).filter (fun b => key b ≠ key a) = before ++ after := by
  rw [List.filter_append, List.filter_cons_of_neg (by simp),
    List.filter_eq_self.mpr fun b hb => decide_eq_true (hbefore b hb),
    List.filter_eq_self.mpr fun b hb => decide_eq_true (hafter b hb)]

theorem map_of_split (f : σ → σ) :
    (before ++ a :: after).map (fun b => if key b = key a then f b else b) =
      before ++ f a :: after := by
  have hrest : ∀ l : List σ, (∀ b ∈ l, key b ≠ key a) →
      l.map (fun b => if key b = key a then f b else b) = l := fun l hl =>
    (List.map_congr_left fun b hb => if_neg (hl b hb)).trans l.map_id'
  rw [List.map_append, List.map_cons, if_pos rfl, hrest before hbefore, hrest after hafter]

end

namespace Graph

variable {α : Type}

/-! ## Effects -/

/-- The nodes are the same, and are found under the same names and at the same places. -/
structure SameNodes (g g' : Graph α) : Prop where
  nodes : g'.nodes = g.nodes
  found : ∀ id, g'.node? id = g.node? id
  placed : ∀ id, g'.position? id = g.position? id

/-- No name was given. -/
structure SameCounts (g g' : Graph α) : Prop where
  lastNode : g'.lastNode = g.lastNode
  lastComment : g'.lastComment = g.lastComment

/-- A node of a new name was put behind the others. -/
structure Appends (g : Graph α) (n : Node α) (g' : Graph α) : Prop where
  new : g.node? n.id = none
  nodes : g'.nodes = g.nodes ++ [n]
  found : ∀ id, g'.node? id = if id = n.id then some n else g.node? id
  connections : g'.connections = g.connections
  comments : g'.comments = g.comments

/-- One node was taken out, with all that refers to it. -/
structure Removes (g : Graph α) (n : Node α) (g' : Graph α) : Prop where
  nodes : ∃ before after, g.nodes = before ++ n :: after ∧ g'.nodes = before ++ after
  found : ∀ id, g'.node? id = if id = n.id then none else g.node? id
  connections : g'.connections = g.connections.filter fun c => c.source ≠ n.id ∧ c.target ≠ n.id
  comments : g'.comments =
    g.comments.map fun c => { c with links := c.links.filter fun id => id ≠ n.id }

/-- One control of one node was given a value. -/
structure Sets [Scalar α] (g : Graph α) (n n' : Node α) (key : String) (value : Control.Value α)
    (g' : Graph α) : Prop where
  name : n'.id = n.id
  kind : n'.kind = n.kind
  values : ∀ other, n'.panel.get? other = if other = key then some value else n.panel.get? other
  count : n'.panel.values.length = n.panel.values.length
  nodes : ∃ before after, g.nodes = before ++ n :: after ∧ g'.nodes = before ++ n' :: after
  found : ∀ id, g'.node? id = if id = n.id then some n' else g.node? id
  connections : g'.connections = g.connections
  comments : g'.comments = g.comments

/-- The comments were changed and nothing else. -/
structure Annotates (g : Graph α) (comments : List Comment) (g' : Graph α) : Prop where
  sameNodes : g.SameNodes g'
  connections : g'.connections = g.connections
  comments : g'.comments = comments

/-- A comment with its links to the nodes that are there. -/
def linked (g : Graph α) (c : Comment) : Comment :=
  { c with links := c.links.filter fun id => (g.node? id).isSome }

variable [Scalar α]

/-- What an edit that gives an answer has done. -/
def Edit.Effect (g : Graph α) (a : Answer α) (g' : Graph α) : Edit α → Prop
  | .addNode kind => ∃ id, a = .named id ∧ g.Appends ⟨id, .standard kind⟩ g' ∧
      g'.lastComment = g.lastComment
  | .addNodeNamed id kind => g.Appends ⟨id, .standard kind⟩ g' ∧ g.SameCounts g'
  | .insert n _ => g.Appends n g' ∧ g.SameCounts g'
  | .removeNode id => ∃ n, a = .node n ∧ n.id = id ∧ g.Removes n g' ∧ g.SameCounts g'
  | .setControl id key value => ∃ n n', n.id = id ∧ g.Sets n n' key value g' ∧ g.SameCounts g'
  | .connect c => g.SameNodes g' ∧ c ∉ g.connections ∧ g'.connections = g.connections ++ [c] ∧
      g'.comments = g.comments ∧ g.SameCounts g'
  | .disconnect c => g.SameNodes g' ∧
      (∃ before after, g.connections = before ++ c :: after ∧ g'.connections = before ++ after ∧
        c ∉ before ++ after) ∧
      g'.comments = g.comments ∧ g.SameCounts g'
  | .addComment text style links => ∃ id, a = .named id ∧ (∀ c ∈ g.comments, c.id ≠ id) ∧
      g.Annotates (g.comments ++ [g.linked ⟨id, text, style, links⟩]) g' ∧
      g'.lastNode = g.lastNode
  | .insertComment c =>
      g.Annotates (g.comments.filter (fun d => d.id ≠ c.id) ++ [g.linked c]) g' ∧ g.SameCounts g'
  | .removeComment id => ∃ before c after, a = .comment c ∧ c.id = id ∧
      g.comments = before ++ c :: after ∧ g.Annotates (before ++ after) g' ∧ g.SameCounts g'
  | .setCommentText id text => ∃ before c after, c.id = id ∧ g.comments = before ++ c :: after ∧
      g.Annotates (before ++ { c with text } :: after) g' ∧ g.SameCounts g'
  | .clearComments => g.Annotates [] g' ∧ g.SameCounts g'
  | .importDocument d => g' = d.toGraph.1
  | .clear => g' = empty

/-! ## Lookups -/

section

omit [Scalar α]

variable {g g' : Graph α}

namespace WellFormed

/-- The place of a node is the first one where its name stands. -/
theorem position?_eq (hg : g.WellFormed) (id : NodeId) :
    g.position? id = g.nodes.findIdx? fun n => n.id = id := by
  refine Option.ext fun i => ?_
  rw [hg.places id i, List.findIdx?_eq_some_iff_getElem]
  constructor
  · intro hi
    obtain ⟨n, hn, rfl⟩ := Option.map_eq_some_iff.mp hi
    obtain ⟨hlt, rfl⟩ := List.getElem?_eq_some_iff.mp hn
    refine ⟨hlt, by simp, fun j hj => ?_⟩
    rw [decide_eq_true_eq]
    intro hid
    have hmapped : i < (g.nodes.map (·.id)).length := by simpa using hlt
    have hsame := (@List.Nodup.getElem_inj_iff _ _ hg.names j (hj.trans hmapped) i hmapped).mp
      (by simpa using hid)
    omega
  · rintro ⟨hlt, hid, -⟩
    rw [List.getElem?_eq_getElem hlt, Option.map_some, of_decide_eq_true hid]

theorem hasNode_eq (hg : g.WellFormed) (id : NodeId) : g.hasNode id = (g.node? id).isSome := by
  rw [Bool.eq_iff_iff, hg.hasNode_iff, Option.isSome_iff_exists, List.mem_map]
  exact exists_congr fun n => hg.node?_eq_some_iff.symm

theorem node?_eq_none_iff (hg : g.WellFormed) {id : NodeId} :
    g.node? id = none ↔ ∀ n ∈ g.nodes, n.id ≠ id := by
  rw [Option.eq_none_iff_forall_ne_some]
  exact ⟨fun h n hn hid => h n (hg.node?_eq_some_iff.mpr ⟨hn, hid⟩),
    fun h n hfound => (hg.node?_eq_some_iff.mp hfound).elim fun hn hid => h n hn hid⟩

/-- What a lookup finds when one node stands in another's place, or in no one's. -/
theorem found_of_split (hg : g.WellFormed) (hg' : g'.WellFormed)
    {before after old new : List (Node α)} (hnodes : g.nodes = before ++ old ++ after)
    (hnodes' : g'.nodes = before ++ new ++ after) {id : NodeId} (hold : ∀ n ∈ old, n.id ≠ id)
    (hnew : ∀ n ∈ new, n.id ≠ id) :
    g'.node? id = g.node? id := by
  refine Option.ext fun n => ?_
  rw [hg'.node?_eq_some_iff, hg.node?_eq_some_iff, hnodes, hnodes']
  refine and_congr_left fun hid => ?_
  have hold' : n ∉ old := fun hn => hold n hn hid
  have hnew' : n ∉ new := fun hn => hnew n hn hid
  simp [hold', hnew']

end WellFormed

theorem SameNodes.of_eq (hnodes : g'.nodes = g.nodes) (hplaces : g'.places = g.places) :
    g.SameNodes g' := by
  refine ⟨hnodes, fun id => ?_, fun id => ?_⟩
  · unfold node? located? position?
    rw [hnodes, hplaces]
  · unfold position?
    rw [hplaces]

/-! ## Nodes -/

theorem Appends.push (hg : g.WellFormed) {n : Node α} (hfree : g.hasNode n.id = false) :
    g.Appends n (g.push n) := by
  have hnone : g.node? n.id = none := by
    rw [hg.hasNode_eq] at hfree
    exact Option.isNone_iff_eq_none.mp (by simpa using hfree)
  refine ⟨hnone, rfl, fun id => ?_, rfl, rfl⟩
  have hg' := hg.push hfree
  split
  next hid =>
    exact hg'.node?_eq_some_iff.mpr
      ⟨List.mem_append_right _ (List.mem_singleton_self n), hid.symm⟩
  next hid =>
    have hnodes : g.nodes = g.nodes ++ [] ++ [] := by simp
    have hnodes' : (g.push n).nodes = g.nodes ++ [n] ++ [] := by simp [Graph.push]
    refine hg.found_of_split hg' hnodes hnodes' (fun _ hm => absurd hm List.not_mem_nil)
      fun m hm heq => ?_
    rw [List.mem_singleton.mp hm] at heq
    exact hid heq.symm

theorem Appends.insert (hg : g.WellFormed) {n : Node α} (h : g.insert n = .ok g') :
    g.Appends n g' ∧ g.SameCounts g' := by
  unfold Graph.insert at h
  split at h
  next => cases h
  next hfree =>
    cases h
    exact ⟨.push hg (Bool.not_eq_true _ ▸ hfree), rfl, rfl⟩

theorem Appends.addNode [Scalar α] (hg : g.WellFormed) (kind : Kind) :
    g.Appends ⟨(g.addNode kind).1, .standard kind⟩ (g.addNode kind).2 := by
  -- counting the name up first touches nothing that is looked at
  have hcount (n : Nat) : { g with lastNode := n }.WellFormed := hg.of_signatures rfl rfl rfl rfl
  have h := Appends.push (hcount (g.addNode kind).2.lastNode)
    (n := ⟨(g.addNode kind).1, .standard kind⟩) (hasNode_nodeName_nextFree hg)
  exact ⟨h.new, h.nodes, h.found, rfl, rfl⟩

/-- What is left of a graph without a node. -/
def without (g : Graph α) (id : NodeId) : Graph α :=
  let nodes := g.nodes.filter fun n => n.id ≠ id
  { g with
    nodes
    places := placesOf nodes
    connections := g.connections.filter fun c => c.source ≠ id ∧ c.target ≠ id
    comments := g.comments.map fun c => { c with links := c.links.filter fun link => link ≠ id } }

/-- It does not matter which of two nodes is taken out first. -/
theorem without_comm (g : Graph α) (x y : NodeId) :
    (g.without x).without y = (g.without y).without x := by
  unfold without
  simp only [List.filter_filter, List.map_map, Function.comp_def, mk.injEq, and_true]
  simp only [Bool.and_comm, and_self]

/-- A node that is there can be removed, and the graph is left without it. -/
theorem removeNode_of_node? (hg : g.WellFormed) {x : NodeId} {n : Node α}
    (hn : g.node? x = some n) : g.removeNode x = .ok (n, g.without x) := by
  obtain ⟨hmem, rfl⟩ := hg.node?_eq_some_iff.mp hn
  obtain ⟨place, hplace⟩ := List.mem_iff_getElem?.mp hmem
  obtain ⟨hlt, hat⟩ := List.getElem?_eq_some_iff.mp hplace
  have herase : g.nodes.eraseIdx place = g.nodes.filter fun m => m.id ≠ n.id := by
    have hsplit : g.nodes = g.nodes.take place ++ n :: g.nodes.drop (place + 1) := by
      rw [← hat, List.getElem_cons_drop, List.take_append_drop]
    have hnames := hg.names
    rw [hsplit, List.map_append, List.map_cons, List.nodup_append, List.nodup_cons] at hnames
    obtain ⟨-, ⟨hafter, -⟩, hbefore⟩ := hnames
    rw [List.eraseIdx_eq_take_drop_succ]
    conv_rhs => rw [hsplit]
    exact (filter_of_split
      (fun m hm => hbefore _ (List.mem_map_of_mem hm) _ List.mem_cons_self)
      fun m hm heq => hafter (List.mem_map.mpr ⟨m, hm, heq⟩)).symm
  unfold removeNode
  rw [hg.located?_eq_some_iff.mpr ⟨hplace, rfl⟩]
  dsimp only
  rw [herase]
  simp [without, Connection.touches, bne, beq_eq_decide]

theorem node?_of_removeNode {x : NodeId} {n : Node α} (h : g.removeNode x = .ok (n, g')) :
    g.node? x = some n := by
  unfold removeNode at h
  split at h
  next => cases h
  next hlocated =>
    cases h
    unfold node?
    rw [hlocated]
    rfl

theorem Removes.removeNode (hg : g.WellFormed) {x : NodeId} {n : Node α}
    (h : g.removeNode x = .ok (n, g')) : n.id = x ∧ g.Removes n g' ∧ g.SameCounts g' := by
  have hn := node?_of_removeNode h
  have hg' : g'.WellFormed := hg.removeNode h
  rw [removeNode_of_node? hg hn] at h
  cases h
  obtain ⟨hmem, rfl⟩ := hg.node?_eq_some_iff.mp hn
  obtain ⟨before, after, hnodes, hbefore, hafter⟩ := exists_split hg.names hmem
  have hnodes' : (g.without n.id).nodes = before ++ after := by
    show g.nodes.filter _ = _
    rw [hnodes]
    exact filter_of_split hbefore hafter
  refine ⟨rfl, ⟨⟨before, after, hnodes, hnodes'⟩, fun id => ?_, rfl, rfl⟩, rfl, rfl⟩
  split
  next hid =>
    refine hg'.node?_eq_none_iff.mpr fun m hm => ?_
    rw [hnodes', List.mem_append] at hm
    exact hid ▸ hm.elim (hbefore m) (hafter m)
  next hid =>
    have hsplit : g.nodes = before ++ [n] ++ after := by simpa using hnodes
    have hsplit' : (g.without n.id).nodes = before ++ [] ++ after := by simpa using hnodes'
    refine hg.found_of_split hg' hsplit hsplit' (fun m hm heq => ?_)
      fun _ hm => absurd hm List.not_mem_nil
    rw [List.mem_singleton.mp hm] at heq
    exact hid heq.symm

end

theorem Sets.setControl {g g' : Graph α} (hg : g.Sound) {id : NodeId} {key : String}
    {value : Control.Value α} (h : g.setControl id key value = .ok g') :
    ∃ n n', n.id = id ∧ g.Sets n n' key value g' ∧ g.SameCounts g' := by
  have hg' := hg.wellFormed.setControl h
  unfold Graph.setControl at h
  split at h
  next => cases h
  next place n hlocated =>
    split at h
    next => cases h
    next panel hpanel =>
      cases h
      obtain ⟨hplace, rfl⟩ := hg.wellFormed.located?_eq_some_iff.mp hlocated
      obtain ⟨hlt, hat⟩ := List.getElem?_eq_some_iff.mp hplace
      have haccepted : n.panel.Accepted := hg.panels n (List.mem_of_getElem? hplace)
      have hkind := Panel.kind_of_set hpanel
      have hnodes : g.nodes = g.nodes.take place ++ [n] ++ g.nodes.drop (place + 1) := by
        rw [List.append_assoc, List.singleton_append, ← hat, List.getElem_cons_drop,
          List.take_append_drop]
      have hnodes' : g.nodes.set place { n with panel } =
          g.nodes.take place ++ [{ n with panel }] ++ g.nodes.drop (place + 1) := by
        rw [List.append_assoc, List.singleton_append, List.set_eq_take_append_cons_drop,
          if_pos hlt]
      refine ⟨n, { n with panel }, rfl, ⟨rfl, hkind, fun other => ?_, ?_,
        ⟨g.nodes.take place, g.nodes.drop (place + 1), by simpa using hnodes,
          by simpa using hnodes'⟩, fun id => ?_, rfl, rfl⟩, rfl, rfl⟩
      · -- an accepted panel holds a value for the control that is set
        rw [Panel.get?_set hpanel other]
        split
        next hother =>
          obtain ⟨c, hc, hkey, -⟩ := Panel.accepts_of_set hpanel
          obtain ⟨v, hv, -⟩ := haccepted.exists_get? hc
          rw [hother, ← hkey, hv, Option.map_some]
        next => rfl
      · have hlength := (Panel.accepted_of_set haccepted hpanel).length_eq
        rw [hkind, haccepted.length_eq] at hlength
        exact hlength.symm
      · split
        next hid =>
          exact hg'.node?_eq_some_iff.mpr ⟨List.mem_set hlt _, hid.symm⟩
        next hid =>
          have hne : ∀ m : Node α, m.id = n.id → m.id ≠ id := fun m hm heq => hid (heq ▸ hm)
          exact hg.wellFormed.found_of_split hg' hnodes hnodes'
            (fun m hm => hne m (by rw [List.mem_singleton.mp hm]))
            fun m hm => hne m (by rw [List.mem_singleton.mp hm])

/-! ## Connections and comments -/

section

omit [Scalar α]

variable {g g' : Graph α}

theorem sameNodes_of_connect {c : Connection} (h : g.connect c = .ok g') :
    g.SameNodes g' ∧ c ∉ g.connections ∧ g'.connections = g.connections ++ [c] ∧
      g'.comments = g.comments ∧ g.SameCounts g' := by
  unfold connect at h
  split at h
  next => cases h
  next hfault =>
    cases h
    obtain ⟨_, -, -, _, -, _, -, hnew, -⟩ := connectionFault?_eq_none.mp hfault
    exact ⟨.of_eq rfl rfl, hnew, rfl, rfl, rfl, rfl⟩

theorem exists_of_disconnect (hg : g.WellFormed) {c : Connection} (h : g.disconnect c = .ok g') :
    g.SameNodes g' ∧ (∃ before after, g.connections = before ++ c :: after ∧
      g'.connections = before ++ after ∧ c ∉ before ++ after) ∧
      g'.comments = g.comments ∧ g.SameCounts g' := by
  unfold disconnect at h
  split at h
  next hc =>
    cases h
    refine ⟨.of_eq rfl rfl, ?_, rfl, rfl, rfl⟩
    obtain ⟨before, after, hnot, hconnections, herase⟩ := List.exists_erase_eq hc
    have hdistinct := hg.distinct
    rw [hconnections, List.nodup_middle, List.nodup_cons] at hdistinct
    exact ⟨before, after, hconnections, herase, hdistinct.1⟩
  next => cases h

theorem annotates_insertComment (hg : g.WellFormed) (c : Comment) :
    g.Annotates (g.comments.filter (fun d => d.id ≠ c.id) ++ [g.linked c]) (g.insertComment c) := by
  have hlinks : c.links.filter g.hasNode = c.links.filter fun id => (g.node? id).isSome :=
    List.filter_congr fun id _ => hg.hasNode_eq id
  refine ⟨.of_eq rfl rfl, rfl, ?_⟩
  show g.comments.filter _ ++ [{ c with links := c.links.filter g.hasNode }] = _
  rw [hlinks]
  simp [linked, bne, beq_eq_decide]

theorem commentName_injective : Function.Injective commentName := by
  intro m n h
  refine nodeName_injective ?_
  unfold commentName at h
  unfold nodeName
  rw [String.append_right_inj] at h ⊢
  exact h

/-- The name of a new comment is free. -/
theorem ne_of_addComment {c : Comment} (hc : c ∈ g.comments) (text : String) (style : Comment.Style)
    (links : List NodeId) : c.id ≠ (g.addComment text style links).1 := by
  let taken (n : Nat) : Bool := (g.comment? (commentName n)).isSome
  have htaken : ∀ n, taken n = true → commentName n ∈ g.comments.map (·.id) := by
    intro n hn
    obtain ⟨d, hd, hid⟩ := List.find?_isSome.mp hn
    exact List.mem_map.mpr ⟨d, hd, by simpa using hid⟩
  have hfree := nextFree_free commentName_injective (g.comments.map (·.id)) taken htaken
      g.lastComment
  rw [List.length_map] at hfree
  intro hid
  have hthere : taken (nextFree taken g.comments.length g.lastComment) = true :=
    List.find?_isSome.mpr ⟨c, hc, beq_iff_eq.mpr hid⟩
  exact Bool.false_ne_true (hfree.symm.trans hthere)

theorem annotates_addComment (hg : g.WellFormed) (text : String) (style : Comment.Style)
    (links : List NodeId) :
    g.Annotates (g.comments ++ [g.linked ⟨(g.addComment text style links).1, text, style, links⟩])
      (g.addComment text style links).2 := by
  -- counting the name up first touches nothing that is looked at
  have hcount (n : Nat) : { g with lastComment := n }.WellFormed := hg.of_signatures rfl rfl rfl rfl
  have h := annotates_insertComment (hcount (g.addComment text style links).2.lastComment)
    ⟨(g.addComment text style links).1, text, style, links⟩
  have hothers : g.comments.filter (fun c => c.id ≠ (g.addComment text style links).1) =
      g.comments :=
    List.filter_eq_self.mpr fun c hc => decide_eq_true (ne_of_addComment hc text style links)
  refine ⟨.of_eq rfl rfl, rfl, h.comments.trans ?_⟩
  show g.comments.filter _ ++ _ = _
  rw [hothers]
  rfl

theorem exists_of_comment? (hg : g.WellFormed) {id : CommentId} {c : Comment}
    (hc : g.comment? id = some c) : c.id = id ∧ ∃ before after, g.comments = before ++ c :: after ∧
      (∀ d ∈ before, d.id ≠ c.id) ∧ ∀ d ∈ after, d.id ≠ c.id := by
  have hid : c.id = id := by simpa using List.find?_some hc
  exact ⟨hid, exists_split hg.commentNames (List.mem_of_find?_eq_some hc)⟩

theorem exists_of_removeComment (hg : g.WellFormed) {id : CommentId} {c : Comment}
    (h : g.removeComment id = .ok (c, g')) : c.id = id ∧ ∃ before after,
      g.comments = before ++ c :: after ∧ g.Annotates (before ++ after) g' ∧ g.SameCounts g' := by
  unfold removeComment at h
  split at h
  next => cases h
  next hc =>
    cases h
    obtain ⟨rfl, before, after, hcomments, hbefore, hafter⟩ := exists_of_comment? hg hc
    refine ⟨rfl, before, after, hcomments, ⟨.of_eq rfl rfl, rfl, ?_⟩, rfl, rfl⟩
    show g.comments.filter _ = _
    rw [hcomments, ← filter_of_split hbefore hafter]
    simp [bne, beq_eq_decide]

theorem exists_of_setCommentText (hg : g.WellFormed) {id : CommentId} {text : String}
    (h : g.setCommentText id text = .ok g') : ∃ before c after, c.id = id ∧
      g.comments = before ++ c :: after ∧ g.Annotates (before ++ { c with text } :: after) g' ∧
      g.SameCounts g' := by
  unfold setCommentText at h
  split at h
  next hsome =>
    cases h
    obtain ⟨c, hc⟩ := Option.isSome_iff_exists.mp hsome
    obtain ⟨rfl, before, after, hcomments, hbefore, hafter⟩ := exists_of_comment? hg hc
    refine ⟨before, c, after, rfl, hcomments, ⟨.of_eq rfl rfl, rfl, ?_⟩, rfl, rfl⟩
    show g.comments.map _ = _
    rw [hcomments, ← map_of_split hbefore hafter fun d => { d with text }]
    simp
  next => cases h

end

/-! ## Edits -/

omit [Scalar α] in
/-- Two different nodes can be removed one after the other, and in either order the same nodes come
out and the same graph is left. -/
theorem WellFormed.removeNode_comm {g : Graph α} (hg : g.WellFormed) {x y : NodeId} (hxy : x ≠ y)
    {m n : Node α} (hm : g.node? x = some m) (hn : g.node? y = some n) :
    ∃ gx gy g', g.removeNode x = .ok (m, gx) ∧ gx.removeNode y = .ok (n, g') ∧
      g.removeNode y = .ok (n, gy) ∧ gy.removeNode x = .ok (m, g') := by
  have hx := removeNode_of_node? hg hm
  have hy := removeNode_of_node? hg hn
  obtain ⟨hmid, hremoves, -⟩ := Removes.removeNode hg hx
  obtain ⟨hnid, hremoves', -⟩ := Removes.removeNode hg hy
  have hn' : (g.without x).node? y = some n := by
    rw [hremoves.found, if_neg (hmid ▸ hxy.symm), hn]
  have hm' : (g.without y).node? x = some m := by
    rw [hremoves'.found, if_neg (hnid ▸ hxy), hm]
  refine ⟨g.without x, g.without y, (g.without x).without y, hx,
    removeNode_of_node? (hg.removeNode hx) hn', hy, ?_⟩
  rw [without_comm]
  exact removeNode_of_node? (hg.removeNode hy) hm'

theorem Sound.effect {g g' : Graph α} (hg : g.Sound) {e : Edit α} {a : Answer α}
    (h : g.answer e = .ok (a, g')) : e.Effect g a g' := by
  have hwell := hg.wellFormed
  cases e with
  | addNode kind =>
    cases h
    exact ⟨_, rfl, Appends.addNode hwell kind, rfl⟩
  | addNodeNamed id kind =>
    obtain ⟨_, h, hsame⟩ := map_eq_ok.mp h
    cases hsame
    exact Appends.insert hwell (mapError_eq_ok.mp h)
  | insert n made =>
    obtain ⟨_, h, hsame⟩ := map_eq_ok.mp h
    cases hsame
    exact Appends.insert hwell (mapError_eq_ok.mp h)
  | removeNode id =>
    obtain ⟨⟨n, _⟩, h, hsame⟩ := map_eq_ok.mp h
    cases hsame
    exact ⟨n, rfl, Removes.removeNode hwell (mapError_eq_ok.mp h)⟩
  | setControl id key value =>
    obtain ⟨_, h, hsame⟩ := map_eq_ok.mp h
    cases hsame
    exact Sets.setControl hg h
  | connect c =>
    obtain ⟨_, h, hsame⟩ := map_eq_ok.mp h
    cases hsame
    exact sameNodes_of_connect (mapError_eq_ok.mp h)
  | disconnect c =>
    obtain ⟨_, h, hsame⟩ := map_eq_ok.mp h
    cases hsame
    exact exists_of_disconnect hwell (mapError_eq_ok.mp h)
  | addComment text style links =>
    cases h
    exact ⟨_, rfl, fun c hc => ne_of_addComment hc text style links,
      annotates_addComment hwell text style links, rfl⟩
  | insertComment c =>
    cases h
    exact ⟨annotates_insertComment hwell c, rfl, rfl⟩
  | removeComment id =>
    obtain ⟨⟨c, _⟩, h, hsame⟩ := map_eq_ok.mp h
    cases hsame
    obtain ⟨hid, before, after, hrest⟩ := exists_of_removeComment hwell (mapError_eq_ok.mp h)
    exact ⟨before, c, after, rfl, hid, hrest⟩
  | setCommentText id text =>
    obtain ⟨_, h, hsame⟩ := map_eq_ok.mp h
    cases hsame
    exact exists_of_setCommentText hwell (mapError_eq_ok.mp h)
  | clearComments =>
    cases h
    exact ⟨⟨.of_eq rfl rfl, rfl, rfl⟩, rfl, rfl⟩
  | importDocument d =>
    cases h
    rfl
  | clear =>
    cases h
    rfl

/-- An edit that succeeds on a graph that edits have led to does what it says and leaves the rest as
it was and in its order, and the place of a name is then where the first node of that name stands.
Two different nodes that are there can be removed in either order, with the same graph left. -/
theorem Reachable.effect_of_answer [StandardsAccepted α] {g : Graph α} (hg : g.Reachable) :
    (∀ (e : Edit α) (a : Answer α) (g' : Graph α), g.answer e = .ok (a, g') →
      e.Effect g a g' ∧ ∀ id, g'.position? id = g'.nodes.findIdx? fun n => n.id = id) ∧
    ∀ (x y : NodeId) (m n : Node α), x ≠ y → g.node? x = some m → g.node? y = some n →
      ∃ gx gy g', g.removeNode x = .ok (m, gx) ∧ gx.removeNode y = .ok (n, g') ∧
        g.removeNode y = .ok (n, gy) ∧ gy.removeNode x = .ok (m, g') := by
  have hsound := hg.sound
  refine ⟨fun e a g' h => ⟨hsound.effect h, fun id => ?_⟩,
    fun x y m n hxy hm hn => hsound.wellFormed.removeNode_comm hxy hm hn⟩
  have hedited : g.edit e = g' := by
    rw [← outcome_answer, h]
    rfl
  exact (hedited ▸ hsound.edit e).wellFormed.position?_eq id

/-- A tone through a gain that also feeds itself, and a comment on both. -/
def Edit.lesson : List (Edit Float) :=
  [.addNode .oscillator, .addNode .gain, .addNode .audioOutput,
    .connect ⟨"n1", "signal", "n2", "signal"⟩, .connect ⟨"n2", "signal", "n2", "gain"⟩,
    .connect ⟨"n2", "signal", "n3", "signal"⟩, .addComment "loud" .frame ["n2", "n1", "n2"]]

/-- The gain is removed, or the tone and the gain in either order. -/
theorem effect_lesson :
    let g := empty.run Edit.lesson
    (∃ a g', g.answer (.removeNode "n2") = .ok (a, g') ∧
      Edit.Effect g a g' (.removeNode "n2") ∧
      ∀ id, g'.position? id = g'.nodes.findIdx? fun n => n.id = id) ∧
    ∃ m n gx gy g', g.node? "n1" = some m ∧ g.node? "n2" = some n ∧
      g.removeNode "n1" = .ok (m, gx) ∧ gx.removeNode "n2" = .ok (n, g') ∧
      g.removeNode "n2" = .ok (n, gy) ∧ gy.removeNode "n1" = .ok (m, g') := by
  intro g
  have hg : g.Reachable := ⟨Edit.lesson, rfl⟩
  obtain ⟨⟨a, g'⟩, hanswer⟩ : ∃ r, g.answer (.removeNode "n2") = .ok r :=
    exists_eq_ok (by decide)
  obtain ⟨m, hm⟩ : ∃ m, g.node? "n1" = some m := Option.isSome_iff_exists.mp (by decide)
  obtain ⟨n, hn⟩ : ∃ n, g.node? "n2" = some n := Option.isSome_iff_exists.mp (by decide)
  have hboth := hg.effect_of_answer.2 "n1" "n2" m n (by decide) hm hn
  obtain ⟨gx, gy, gxy, hremoved⟩ := hboth
  exact ⟨⟨a, g', hanswer, hg.effect_of_answer.1 _ a g' hanswer⟩, m, n, gx, gy, gxy, hm, hn,
    hremoved⟩

end Graph

end Patchbay
