import Patchbay.Proofs.Document.Import
import Patchbay.Proofs.Document.Panel
/-!
# Graphs written and read back

Importing the document of a reachable graph gives the graph back, and the same document again
(`Graph.toGraph_toDocument`). That nothing is refused on the way is what the invariant of reachable
graphs is for: every name is given once, and whatever part of the connections has been imported, the
next one fits it, because it is made once and an input for a single connection has no other.
-/

namespace Patchbay

/-! ## Nodes -/

/-- The same name, kind and values. -/
structure Node.Same (n n' : Node Float) : Prop where
  id : n'.id = n.id
  panel : n.panel.Same n'.panel

theorem Kind.ofTag?_tag (k : Kind) : Kind.ofTag? k.tag = some k := by
  cases k <;> decide

namespace Graph

/-- The record of a node. -/
def recordOf (n : Node Float) : NodeRecord := ⟨n.id, n.kind.tag, n.panel.toData⟩

/-- A record of a node describes that node. -/
theorem same_of_describes {n n' : Node Float} (h : n.panel.Accepted)
    (hn' : (recordOf n).Describes n') : n.Same n' ∧ recordOf n = recordOf n' := by
  obtain ⟨hid, htag, hdata⟩ := hn'
  have hkind : n.kind = n'.kind := Option.some.inj ((Kind.ofTag?_tag n.kind).symm.trans htag)
  obtain ⟨panel, hpanel, hsame, hwritten⟩ := Panel.ofData_toData h
  have hdata : Panel.ofData n.kind n.panel.toData = .ok n'.panel := hkind ▸ hdata
  obtain rfl : panel = n'.panel := Except.ok.inj (hpanel.symm.trans hdata)
  refine ⟨⟨hid, hsame⟩, ?_⟩
  rw [recordOf, recordOf, hwritten, hid, ← hkind]
  rfl

theorem readable_recordOf {n : Node Float} (h : n.panel.Accepted) :
    ∃ kind, Kind.ofTag? (recordOf n).name = some kind ∧
      ∃ panel : Panel Float, Panel.ofData kind (recordOf n).data = .ok panel := by
  obtain ⟨panel, hpanel, -⟩ := Panel.ofData_toData h
  exact ⟨n.kind, Kind.ofTag?_tag n.kind, panel, hpanel⟩

/-- Of a list without repeats no item is among those before it. -/
theorem notMem_front_of_nodup {β : Type} {l front back : List β} {x : β} (h : l.Nodup)
    (hl : l = front ++ x :: back) : x ∉ front := by
  rw [hl, List.nodup_append] at h
  exact fun hx => h.2.2 x hx x List.mem_cons_self rfl

variable {g : Graph Float}

/-- Every record of the document fits those before it. -/
theorem Sound.fits_record (h : g.Sound) {front back : List NodeRecord} {record : NodeRecord}
    (hnodes : g.toDocument.nodes = front ++ record :: back) : record.Fits Float front := by
  have hmem : record ∈ g.nodes.map recordOf := by
    show record ∈ g.toDocument.nodes
    rw [hnodes]
    exact List.mem_append_right _ List.mem_cons_self
  obtain ⟨n, hn, rfl⟩ := List.mem_map.mp hmem
  refine ⟨readable_recordOf (h.panels n hn), ?_⟩
  have hids : g.toDocument.nodes.map (·.id) = g.nodes.map (·.id) := by
    simp [toDocument, Function.comp_def]
  have hsplit := congrArg (List.map (·.id)) hnodes
  rw [List.map_append, List.map_cons] at hsplit
  exact notMem_front_of_nodup (hids ▸ h.wellFormed.names) hsplit

/-- What is there is there in the other list too. -/
theorem has_of_same {nodes : List (Node Float)} (h : List.Forall₂ Node.Same g.nodes nodes)
    {id : NodeId} {k : Kind} (hk : g.Has id k) : ∃ n ∈ nodes, n.id = id ∧ n.kind = k := by
  obtain ⟨n, hn, rfl, rfl⟩ := has_iff.mp hk
  obtain ⟨n', hn', hsame⟩ := exists_of_mem_forall₂ h hn
  exact ⟨n', hn', hsame.id, hsame.panel.kind⟩

/-- An input for a single connection has none before its own. -/
theorem Sound.free_before (h : g.Sound) {front back : List Connection} {c : Connection}
    (hconnections : g.connections = front ++ c :: back) {k : Kind} {socket : Socket}
    (hk : g.Has c.target k) (hsocket : k.input? c.input = some socket)
    (hsingle : socket.multiplicity = .single) {d : Connection} (hd : d ∈ front) :
    ¬(d.target = c.target ∧ d.input = c.input) := by
  rintro ⟨htarget, hinput⟩
  have hlength := h.wellFormed.single _ k _ socket hk hsocket hsingle
  rw [feeding, connectionsInto, hconnections, List.filter_append, List.filter_append,
    List.length_append] at hlength
  have hcounts : ∀ {l : List Connection} {e : Connection}, e ∈ l → e.target = c.target →
      e.input = c.input →
      0 < ((l.filter (·.target == c.target)).filter (·.input == c.input)).length := by
    intro l e he htarget hinput
    refine List.length_pos_of_mem (a := e) (List.mem_filter.mpr ⟨?_, beq_iff_eq.mpr hinput⟩)
    exact List.mem_filter.mpr ⟨he, beq_iff_eq.mpr htarget⟩
  have hbefore := hcounts hd htarget hinput
  have hown := hcounts (List.mem_cons_self (a := c) (l := back)) rfl rfl
  omega

/-- Every connection fits the ones before it, on nodes of the same names and kinds. -/
theorem Sound.fits_connection (h : g.Sound) {nodes : List (Node Float)}
    (hsame : List.Forall₂ Node.Same g.nodes nodes) {front back : List Connection} {c : Connection}
    (hconnections : g.connections = front ++ c :: back) : c.Fits nodes front := by
  have hc : c ∈ g.connections := hconnections ▸ List.mem_append_right _ List.mem_cons_self
  obtain ⟨⟨k, hk, houtput⟩, ⟨k', hk', hinput⟩⟩ := h.wellFormed.joined c hc
  obtain ⟨socket, hsocket⟩ := Option.isSome_iff_exists.mp hinput
  obtain ⟨source, hsource, hsid, rfl⟩ := has_of_same hsame hk
  obtain ⟨target, htarget, htid, rfl⟩ := has_of_same hsame hk'
  exact ⟨⟨source, hsource, hsid, houtput⟩, ⟨target, htarget, htid, socket, hsocket,
    fun hsingle d hd => h.free_before hconnections hk' hsocket hsingle hd⟩,
    notMem_front_of_nodup h.wellFormed.distinct hconnections⟩

/-- Comments that link what is there are kept as they are. -/
theorem Sound.comments_eq (h : g.Sound) {nodes : List (Node Float)}
    (hsame : List.Forall₂ Node.Same g.nodes nodes) :
    (Document.lastComments g.comments).map (Document.linkedAmong (nodes.map (·.id))) =
      g.comments := by
  rw [Document.lastComments_eq_self h.wellFormed.commentNames]
  conv_rhs => rw [← List.map_id g.comments]
  refine List.map_congr_left fun c hc => ?_
  have hlinks : c.links.filter (· ∈ nodes.map (·.id)) = c.links := by
    refine List.filter_eq_self.mpr fun id hid => decide_eq_true ?_
    obtain ⟨k, hk⟩ := h.wellFormed.linked c hc id hid
    obtain ⟨n, hn, rfl, -⟩ := has_of_same hsame hk
    exact List.mem_map_of_mem hn
  rw [Document.linkedAmong, hlinks]
  rfl

theorem toDocument_nodes (g : Graph Float) : g.toDocument.nodes = g.nodes.map recordOf := rfl

/-- Exporting a graph and importing the document gives the graph back: the same nodes in the same
order, with the same kinds and values, the same connections and the same comments. Nothing is left
out on the way, and exporting again gives the same document. -/
theorem toGraph_toDocument (h : g.Reachable) :
    ∃ (g' : Graph Float) (report : Document.Report), g.toDocument.toGraph = (g', report) ∧
      report.failed = [] ∧ report.skipped = [] ∧ List.Forall₂ Node.Same g.nodes g'.nodes ∧
      g'.connections = g.connections ∧ g'.comments = g.comments ∧ g'.toDocument = g.toDocument := by
  obtain ⟨start, kept, left, links, skipped, hnodes, hdescribed, hconnections, htoGraph⟩ :=
    g.toDocument.exists_imported (α := Float)
  obtain ⟨rfl, rfl⟩ := hnodes.eq_of_fits fun _ _ _ => h.sound.fits_record
  have hread : List.Forall₂ (fun n n' => n.Same n' ∧ recordOf n = recordOf n') g.nodes
      start.nodes := by
    rw [toDocument_nodes, List.forall₂_map_left_iff] at hdescribed
    refine ((List.forall₂_and_left _ _).mpr ⟨h.sound.panels, hdescribed⟩).imp ?_
    exact fun n n' ⟨haccepted, hn'⟩ => same_of_describes haccepted hn'
  have hsame : List.Forall₂ Node.Same g.nodes start.nodes := hread.imp fun _ _ hn => hn.1
  obtain ⟨rfl, rfl⟩ := hconnections.eq_of_fits fun _ _ _ => h.sound.fits_connection hsame
  have hcomments := h.sound.comments_eq hsame
  have hrecords : start.nodes.map recordOf = g.nodes.map recordOf :=
    map_eq_map_of_forall₂ (hread.imp fun _ _ hn => hn.2)
  refine ⟨_, _, htoGraph, rfl, rfl, hsame, rfl, hcomments, ?_⟩
  show (⟨start.nodes.map recordOf, _, _⟩ : Document) = ⟨g.nodes.map recordOf, _, _⟩
  rw [hrecords, show g.toDocument.comments = g.comments from rfl, hcomments]
  rfl

/-- A gain at negative zero into a loudspeaker, and a comment about both. -/
def negativeZero : Graph Float :=
  empty.run [.addNode .gain, .addNode .audioOutput, .setControl "n1" "gain" (.number (-0.0)),
    .connect ⟨"n1", "signal", "n2", "signal"⟩, .addComment "silent" .inline ["n2", "n1"]]

theorem kept_negativeZero :
    negativeZero.Reachable ∧
    ∃ (g' : Graph Float) (report : Document.Report),
      negativeZero.toDocument.toGraph = (g', report) ∧ report.failed = [] ∧ report.skipped = [] ∧
      g'.toDocument = negativeZero.toDocument := by
  have hg : negativeZero.Reachable := ⟨_, rfl⟩
  obtain ⟨g', report, himported, hfailed, hskipped, -, -, -, hagain⟩ := toGraph_toDocument hg
  exact ⟨hg, g', report, himported, hfailed, hskipped, hagain⟩

end Graph

end Patchbay
