import Patchbay.Proofs.Graph.Reachable
/-!
# What an import keeps

An import looks at the records of a document one after another and keeps those that fit
(`Document.import_keeps`). Whether a record fits depends on the document alone: on the record and on
what was kept before it, never on what the graph held before the import.

The same pattern serves nodes and connections (`Sifted`): an item is kept when it fits what was kept
before it, and is listed with a reason otherwise. Of these the first of several rivals wins.
Comments are different, since a later comment takes the place of an earlier one of its name
(`Document.lastComments`).
-/

namespace Patchbay

/-! ## Sifting -/

section

variable {β ε : Type}

/-- How a list was sifted, item by item: an item that fits what was kept before it is kept, any
other is left out for a reason. -/
inductive Sifted (fits : List β → β → Prop) (blames : List β → β → ε → Prop) :
    List β → List β → List (β × ε) → Prop
  | nil : Sifted fits blames [] [] []
  | keep {items kept left x} : Sifted fits blames items kept left → fits kept x →
    Sifted fits blames (items ++ [x]) (kept ++ [x]) left
  | leave {items kept left x reason} : Sifted fits blames items kept left → ¬fits kept x →
    blames kept x reason → Sifted fits blames (items ++ [x]) kept (left ++ [(x, reason)])

namespace Sifted

variable {fits : List β → β → Prop} {blames : List β → β → ε → Prop} {items kept : List β}
  {left : List (β × ε)}

/-- Every item is kept or left out. -/
theorem length_add_length (h : Sifted fits blames items kept left) :
    kept.length + left.length = items.length := by
  induction h with
  | nil => rfl
  | keep _ _ ih => simp only [List.length_append, List.length_singleton]; omega
  | leave _ _ _ ih => simp only [List.length_append, List.length_singleton]; omega

/-- When every item fits what comes before it nothing is left out. -/
theorem eq_of_fits (h : Sifted fits blames items kept left)
    (hfits : ∀ front x back, items = front ++ x :: back → fits front x) :
    kept = items ∧ left = [] := by
  induction h with
  | nil => exact ⟨rfl, rfl⟩
  | keep _ _ ih =>
    obtain ⟨rfl, rfl⟩ := ih fun front x back heq =>
      hfits front x (back ++ [_]) (by rw [heq, List.append_assoc, List.cons_append])
    exact ⟨rfl, rfl⟩
  | leave _ hnot _ ih =>
    obtain ⟨rfl, rfl⟩ := ih fun front x back heq =>
      hfits front x (back ++ [_]) (by rw [heq, List.append_assoc, List.cons_append])
    exact absurd (hfits _ _ [] rfl) hnot

/-- When nothing is left out every item is kept. -/
theorem eq_of_left_eq_nil (h : Sifted fits blames items kept left) (hleft : left = []) :
    kept = items := by
  induction h with
  | nil => rfl
  | keep _ _ ih => rw [ih hleft]
  | leave _ _ _ _ =>
    exact absurd hleft (List.append_ne_nil_of_right_ne_nil _ (List.cons_ne_nil _ _))

end Sifted

end

variable {α : Type} [Scalar α]

/-! ## Nodes -/

namespace NodeRecord

/-- The node is what the record says: of its name, of the kind of its tag, with a panel read from
its data. -/
structure Describes (record : NodeRecord) (node : Node α) : Prop where
  id : node.id = record.id
  tag : Kind.ofTag? record.name = some node.kind
  data : Panel.ofData node.kind record.data = .ok node.panel

variable (α) in
/-- The tag of a record is known, its data is accepted, and no record that was kept has its name. -/
structure Fits (kept : List NodeRecord) (record : NodeRecord) : Prop where
  readable : ∃ kind, Kind.ofTag? record.name = some kind ∧
    ∃ panel : Panel α, Panel.ofData kind record.data = .ok panel
  free : record.id ∉ kept.map (·.id)

variable (α) in
/-- What is said of a record that is left out. The tag is looked at before the data, and the data
before the name. -/
inductive Blamed (kept : List NodeRecord) (record : NodeRecord) : Fault → Prop
  | unsupported : Kind.ofTag? record.name = none → Blamed kept record (.unsupported record.name)
  | rejected {kind rejection} : Kind.ofTag? record.name = some kind →
    (Panel.ofData kind record.data : Except _ (Panel α)) = .error rejection →
    Blamed kept record (.rejected rejection)
  | duplicate {kind} {panel : Panel α} : Kind.ofTag? record.name = some kind →
    Panel.ofData kind record.data = .ok panel → record.id ∈ kept.map (·.id) →
    Blamed kept record (.graph (.duplicateNode record.id))

end NodeRecord

namespace Panel

theorem kind_of_ofData {kind : Kind} {data : Json} {panel : Panel α}
    (h : ofData kind data = .ok panel) : panel.kind = kind := by
  cases data with
  | null => cases h; rfl
  | record fields =>
    obtain ⟨values, -, hpanel⟩ := bind_eq_ok.mp h
    cases hpanel
    rfl
  | _ => cases h

end Panel

namespace Document

theorem describes_of_nodeOf {record : NodeRecord} {node : Node α} (h : nodeOf record = .ok node) :
    record.Describes node := by
  unfold nodeOf at h
  split at h
  next => cases h
  next kind htag =>
    split at h
    next => cases h
    next panel hpanel =>
      cases h
      obtain rfl : panel.kind = kind := Panel.kind_of_ofData hpanel
      exact ⟨rfl, htag, hpanel⟩

/-- A record that describes no node does not fit, and is blamed for what is wrong with it. -/
theorem not_fits_of_nodeOf {record : NodeRecord} {fault : NodeRecord.Fault}
    (h : nodeOf (α := α) record = .error fault) (kept : List NodeRecord) :
    ¬record.Fits α kept ∧ record.Blamed α kept fault := by
  unfold nodeOf at h
  split at h
  next htag =>
    cases h
    refine ⟨fun hfits => ?_, .unsupported htag⟩
    obtain ⟨kind, hkind, -⟩ := hfits.readable
    rw [htag] at hkind
    cases hkind
  next kind htag =>
    split at h
    next rejection hdata =>
      cases h
      refine ⟨fun hfits => ?_, .rejected htag hdata⟩
      obtain ⟨kind', hkind, panel, hpanel⟩ := hfits.readable
      obtain rfl := Option.some.inj (htag.symm.trans hkind)
      rw [hdata] at hpanel
      cases hpanel
    next => cases h

theorem importNode_of_error (state : Graph α × Report) {record : NodeRecord}
    {fault : NodeRecord.Fault} (h : nodeOf (α := α) record = .error fault) :
    importNode state record =
      (state.1, { state.2 with failed := state.2.failed ++ [(record.id, fault)] }) := by
  simp [importNode, h, bind, Except.bind]

theorem importNode_of_taken {state : Graph α × Report} {record : NodeRecord} {node : Node α}
    (h : nodeOf record = .ok node) (htaken : state.1.hasNode node.id = true) :
    importNode state record = (state.1, { state.2 with
      failed := state.2.failed ++ [(record.id, .graph (.duplicateNode node.id))] }) := by
  simp [importNode, h, bind, Except.bind, Graph.insert, htaken, Except.mapError]

theorem importNode_of_free {state : Graph α × Report} {record : NodeRecord} {node : Node α}
    (h : nodeOf record = .ok node) (hfree : state.1.hasNode node.id = false) :
    importNode state record =
      (state.1.push node, { state.2 with nodes := state.2.nodes + 1 }) := by
  simp [importNode, h, bind, Except.bind, Graph.insert, hfree, Except.mapError]

/-- How far an import has come with the nodes: it has looked at `records` and kept `kept`. -/
structure NodesImported (records kept : List NodeRecord)
    (left : List (NodeRecord × NodeRecord.Fault)) (state : Graph α × Report) : Prop where
  sifted : Sifted (NodeRecord.Fits α) (NodeRecord.Blamed α) records kept left
  described : List.Forall₂ NodeRecord.Describes kept state.1.nodes
  wellFormed : state.1.WellFormed
  connections : state.1.connections = []
  comments : state.1.comments = []
  report : state.2 = { nodes := kept.length, failed := left.map fun (r, fault) => (r.id, fault) }

namespace NodesImported

variable {records kept : List NodeRecord} {left : List (NodeRecord × NodeRecord.Fault)}
  {state : Graph α × Report} {record : NodeRecord}

/-- The names that are taken are those of the records that were kept. -/
theorem hasNode_iff (h : NodesImported records kept left state) {id : NodeId} :
    state.1.hasNode id = true ↔ id ∈ kept.map (·.id) := by
  have hids : List.Forall₂ (fun record node => record.id = node.id) kept state.1.nodes :=
    h.described.imp fun _ _ hdescribes => hdescribes.id.symm
  rw [h.wellFormed.hasNode_iff, map_eq_map_of_forall₂ hids]

/-- One record more. -/
theorem step (h : NodesImported records kept left state) (record : NodeRecord) :
    ∃ kept' left', NodesImported (records ++ [record]) kept' left' (importNode state record) := by
  have hleave : ∀ {fault}, ¬record.Fits α kept → record.Blamed α kept fault →
      NodesImported (records ++ [record]) kept (left ++ [(record, fault)])
        (state.1, { state.2 with failed := state.2.failed ++ [(record.id, fault)] }) := by
    intro fault hnot hblamed
    refine ⟨h.sifted.leave hnot hblamed, h.described, h.wellFormed, h.connections, h.comments, ?_⟩
    rw [h.report, List.map_append]
    rfl
  cases hnode : nodeOf (α := α) record with
  | error fault =>
    rw [importNode_of_error state hnode]
    obtain ⟨hnot, hblamed⟩ := not_fits_of_nodeOf hnode kept
    exact ⟨kept, _, hleave hnot hblamed⟩
  | ok node =>
    obtain ⟨hid, htag, hdata⟩ := describes_of_nodeOf hnode
    cases hhas : state.1.hasNode node.id with
    | true =>
      rw [importNode_of_taken hnode hhas, hid]
      have htaken : record.id ∈ kept.map (·.id) := hid ▸ h.hasNode_iff.mp hhas
      exact ⟨kept, _, hleave (fun hfits => hfits.free htaken) (.duplicate htag hdata htaken)⟩
    | false =>
      rw [importNode_of_free hnode hhas]
      have hfree : record.id ∉ kept.map (·.id) := fun htaken => by
        rw [h.hasNode_iff.mpr (hid ▸ htaken)] at hhas
        cases hhas
      refine ⟨kept ++ [record], left, h.sifted.keep ⟨⟨_, htag, _, hdata⟩, hfree⟩,
        List.rel_append h.described (.cons ⟨hid, htag, hdata⟩ .nil), h.wellFormed.push hhas,
        h.connections, h.comments, ?_⟩
      rw [h.report, List.length_append]
      rfl

end NodesImported

variable (α) in
theorem exists_nodesImported (records : List NodeRecord) : ∃ kept left,
    NodesImported records kept left (records.foldl importNode (Graph.empty (α := α), {})) := by
  induction records using List.reverseRecOn with
  | nil => exact ⟨[], [], .nil, .nil, .empty, rfl, rfl, rfl⟩
  | append_singleton records record ih =>
    obtain ⟨kept, left, h⟩ := ih
    rw [List.foldl_concat]
    exact h.step record

/-! ## Connections -/

end Document

/-- The ends of a connection are sockets of the nodes, it is not there yet, and an input for a
single connection has none yet. -/
structure Connection.Fits (nodes : List (Node α)) (kept : List Connection) (c : Connection) :
    Prop where
  source : ∃ n ∈ nodes, n.id = c.source ∧ (n.kind.output? c.output).isSome
  target : ∃ n ∈ nodes, n.id = c.target ∧ ∃ socket, n.kind.input? c.input = some socket ∧
    (socket.multiplicity = .single → ∀ d ∈ kept, ¬(d.target = c.target ∧ d.input = c.input))
  fresh : c ∉ kept

omit [Scalar α] in
/-- A connection is accepted exactly when it fits the nodes and the connections that are there. -/
theorem Graph.WellFormed.connectionFault?_eq_none_iff {g : Graph α} (h : g.WellFormed)
    {c : Connection} : g.connectionFault? c = none ↔ c.Fits g.nodes g.connections := by
  have hconnected : g.isConnected c.target c.input = true ↔
      ∃ d ∈ g.connections, d.target = c.target ∧ d.input = c.input := by
    simp [isConnected, connectionsInto]
  rw [connectionFault?_eq_none]
  constructor
  · rintro ⟨source, hsource, houtput, target, htarget, socket, hsocket, hfresh, hroom⟩
    obtain ⟨hsource, hsid⟩ := h.node?_eq_some_iff.mp hsource
    obtain ⟨htarget, htid⟩ := h.node?_eq_some_iff.mp htarget
    refine ⟨⟨source, hsource, hsid, houtput⟩, ⟨target, htarget, htid, socket, hsocket, ?_⟩, hfresh⟩
    intro hsingle d hd hsame
    exact hroom ⟨hsingle, hconnected.mpr ⟨d, hd, hsame⟩⟩
  · rintro ⟨⟨source, hsource, hsid, houtput⟩, ⟨target, htarget, htid, socket, hsocket, hroom⟩,
      hfresh⟩
    refine ⟨source, h.node?_eq_some_iff.mpr ⟨hsource, hsid⟩, houtput, target,
      h.node?_eq_some_iff.mpr ⟨htarget, htid⟩, socket, hsocket, hfresh, ?_⟩
    rintro ⟨hsingle, hfull⟩
    obtain ⟨d, hd, hsame⟩ := hconnected.mp hfull
    exact hroom hsingle d hd hsame

namespace Document

/-- How far an import has come with the connections, `start` being the graph with all nodes
imported: it has looked at `connections` and kept `kept`. -/
structure ConnectionsImported (start : Graph α) (report : Report)
    (connections kept : List Connection) (left : List (Connection × Graph.Fault))
    (state : Graph α × Report) : Prop where
  sifted : Sifted (Connection.Fits start.nodes)
    (fun kept c fault => { start with connections := kept }.connectionFault? c = some fault)
    connections kept left
  wellFormed : { start with connections := kept }.WellFormed
  state : state = ({ start with connections := kept },
    { report with connections := kept.length, skipped := left })

omit [Scalar α] in
/-- One connection more. -/
theorem ConnectionsImported.step {start : Graph α} {report : Report}
    {connections kept : List Connection} {left : List (Connection × Graph.Fault)}
    {state : Graph α × Report}
    (h : ConnectionsImported start report connections kept left state) (c : Connection) :
    ∃ kept' left', ConnectionsImported start report (connections ++ [c]) kept' left'
      (importConnection state c) := by
  have hfits := h.wellFormed.connectionFault?_eq_none_iff (c := c)
  rw [h.state]
  cases hfault : { start with connections := kept }.connectionFault? c with
  | none =>
    have hconnect : { start with connections := kept }.connect c =
        .ok { start with connections := kept ++ [c] } := by rw [Graph.connect, hfault]
    refine ⟨kept ++ [c], left, h.sifted.keep (hfits.mp hfault), h.wellFormed.connect hconnect, ?_⟩
    simp [importConnection, hconnect]
  | some fault =>
    have hconnect : { start with connections := kept }.connect c = .error fault := by
      rw [Graph.connect, hfault]
    refine ⟨kept, left ++ [(c, fault)], h.sifted.leave (fun hc => ?_) hfault, h.wellFormed, ?_⟩
    · rw [hfits.mpr hc] at hfault
      cases hfault
    · simp [importConnection, hconnect]

omit [Scalar α] in
theorem exists_connectionsImported {start : Graph α} (hstart : start.WellFormed)
    (hconnections : start.connections = []) {report : Report} (hcount : report.connections = 0)
    (hskipped : report.skipped = []) (connections : List Connection) :
    ∃ kept left, ConnectionsImported start report connections kept left
      (connections.foldl importConnection (start, report)) := by
  induction connections using List.reverseRecOn with
  | nil =>
    have hsame : { start with connections := [] } = start := by rw [← hconnections]
    refine ⟨[], [], .nil, hsame ▸ hstart, ?_⟩
    rw [hsame, List.foldl_nil, List.length_nil, ← hcount, ← hskipped]
  | append_singleton connections c ih =>
    obtain ⟨kept, left, h⟩ := ih
    rw [List.foldl_concat]
    exact h.step c

/-! ## Comments -/

/-- Of the comments of one name the last one, in the order of these. -/
def lastComments : List Comment → List Comment
  | [] => []
  | c :: rest => if c.id ∈ rest.map (·.id) then lastComments rest else c :: lastComments rest

theorem lastComments_concat (comments : List Comment) (c : Comment) :
    lastComments (comments ++ [c]) = (lastComments comments).filter (·.id != c.id) ++ [c] := by
  induction comments with
  | nil => rfl
  | cons d rest ih =>
    rw [List.cons_append, lastComments, lastComments, ih]
    by_cases hlater : d.id ∈ rest.map (·.id)
    · have hlater' : d.id ∈ (rest ++ [c]).map (·.id) := by
        rw [List.map_append]
        exact List.mem_append_left _ hlater
      rw [if_pos hlater', if_pos hlater]
    · rw [if_neg hlater]
      by_cases hsame : d.id = c.id
      · simp [hsame]
      · have hlater' : d.id ∉ (rest ++ [c]).map (·.id) := by simpa [hsame] using hlater
        rw [if_neg hlater', List.filter_cons, if_pos (by simpa using hsame), List.cons_append]

theorem lastComments_eq_self {comments : List Comment} (h : (comments.map (·.id)).Nodup) :
    lastComments comments = comments := by
  induction comments with
  | nil => rfl
  | cons c rest ih =>
    rw [List.map_cons, List.nodup_cons] at h
    rw [lastComments, if_neg h.1, ih h.2]

/-- A comment as a graph with the nodes of these names keeps it. -/
def linkedAmong (ids : List NodeId) (c : Comment) : Comment :=
  { c with links := c.links.filter (· ∈ ids) }

omit [Scalar α] in
theorem foldl_insertComment {g : Graph α} (h : g.WellFormed) (hcomments : g.comments = [])
    (comments : List Comment) :
    comments.foldl Graph.insertComment g =
      { g with comments := (lastComments comments).map (linkedAmong (g.nodes.map (·.id))) } := by
  induction comments using List.reverseRecOn with
  | nil => rw [List.foldl_nil, lastComments, List.map_nil, ← hcomments]
  | append_singleton comments c ih =>
    have hlinks : c.links.filter g.hasNode = c.links.filter (· ∈ g.nodes.map (·.id)) :=
      List.filter_congr fun id _ =>
        Bool.eq_iff_iff.mpr (h.hasNode_iff.trans (decide_eq_true_iff).symm)
    rw [List.foldl_concat, ih, lastComments_concat, List.map_append, List.map_singleton,
      linkedAmong, ← hlinks]
    show { g with comments := (List.map _ _).filter _ ++ [_] } = _
    rw [List.filter_map]
    rfl

/-! ## Documents -/

/-- An import in full: what was kept and left out of the nodes and of the connections, and the graph
and the report with it. -/
theorem exists_imported (d : Document) : ∃ (start : Graph α) (kept : List NodeRecord)
    (left : List (NodeRecord × NodeRecord.Fault)) (links : List Connection)
    (skipped : List (Connection × Graph.Fault)),
    Sifted (NodeRecord.Fits α) (NodeRecord.Blamed α) d.nodes kept left ∧
    List.Forall₂ NodeRecord.Describes kept start.nodes ∧
    Sifted (Connection.Fits start.nodes)
      (fun kept c fault => { start with connections := kept }.connectionFault? c = some fault)
      d.connections links skipped ∧
    d.toGraph = ({ start with
        connections := links
        comments := (lastComments d.comments).map (linkedAmong (start.nodes.map (·.id))) },
      { nodes := kept.length
        connections := links.length
        failed := left.map fun (record, fault) => (record.id, fault)
        skipped := skipped }) := by
  -- the nodes, then the connections among them, then the comments
  obtain ⟨kept, left, hnodes⟩ := exists_nodesImported α d.nodes
  have htoGraph : d.toGraph (α := α) =
      (d.comments.foldl Graph.insertComment (d.connections.foldl importConnection
        (d.nodes.foldl importNode (Graph.empty (α := α), {}))).1,
      (d.connections.foldl importConnection
        (d.nodes.foldl importNode (Graph.empty (α := α), {}))).2) := rfl
  generalize d.nodes.foldl importNode (Graph.empty (α := α), {}) = state at hnodes htoGraph
  obtain ⟨start, nodeReport⟩ := state
  obtain ⟨links, skipped, hconnections⟩ :=
    exists_connectionsImported hnodes.wellFormed hnodes.connections
      (congrArg (·.connections) hnodes.report) (congrArg (·.skipped) hnodes.report) d.connections
  rw [hconnections.state, show nodeReport = _ from hnodes.report] at htoGraph
  dsimp only at htoGraph
  rw [foldl_insertComment hconnections.wellFormed hnodes.comments] at htoGraph
  exact ⟨start, kept, left, links, skipped, hnodes.sifted, hnodes.described, hconnections.sifted,
    htoGraph⟩

/-- Whatever a graph held before, an import keeps exactly what fits of the document.

The nodes are, in order, the records whose tag is known, whose data is accepted and whose name no
record kept before has; the others are reported in order, the tag being looked at before the data
and the data before the name. The connections are, in order, those between sockets of these nodes
that were not kept before and find room; the others are reported in order. Of the comments of one
name the last is kept, with its links to nodes. -/
theorem import_keeps (prior : Graph α) (d : Document) :
    let g := prior.edit (.importDocument d)
    let report := (d.toGraph (α := α)).2
    d.toGraph = (g, report) ∧
    (∃ kept left, Sifted (NodeRecord.Fits α) (NodeRecord.Blamed α) d.nodes kept left ∧
      List.Forall₂ NodeRecord.Describes kept g.nodes ∧
      report.failed = left.map fun (record, fault) => (record.id, fault)) ∧
    Sifted (Connection.Fits g.nodes)
      (fun kept c fault => { g with connections := kept }.connectionFault? c = some fault)
      d.connections g.connections report.skipped ∧
    g.comments = (lastComments d.comments).map (linkedAmong (g.nodes.map (·.id))) ∧
    report.nodes = g.nodes.length ∧ report.nodes + report.failed.length = d.nodes.length ∧
    report.connections = g.connections.length ∧
    report.connections + report.skipped.length = d.connections.length := by
  intro g report
  obtain ⟨start, kept, left, links, skipped, hnodes, hdescribed, hconnections, htoGraph⟩ :=
    d.exists_imported (α := α)
  have hg : g = _ := congrArg Prod.fst htoGraph
  have hreport : report = _ := congrArg Prod.snd htoGraph
  refine ⟨rfl, ⟨kept, left, hnodes, ?_, ?_⟩, ?_, ?_, ?_, ?_, ?_, ?_⟩
  · rw [hg]
    exact hdescribed
  · rw [hreport]
  · rw [hg, hreport]
    exact hconnections
  · rw [hg]
  · rw [hg, hreport]
    exact hdescribed.length_eq
  · rw [hreport, List.length_map]
    exact hnodes.length_add_length
  · rw [hg, hreport]
  · rw [hreport]
    exact hconnections.length_add_length

end Document

end Patchbay
