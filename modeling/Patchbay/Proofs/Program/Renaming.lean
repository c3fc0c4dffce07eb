import Patchbay.Proofs.Document.Import
import Patchbay.Proofs.Program.Acceptance
import Patchbay.Proofs.Program.Comments
/-!
# Names of nodes in programs

A program is the same whatever the nodes of its document are called, apart from the comments that
head the blocks (`Graph.Renamed.agree_ofGraph`). In the text such a comment reaches to the end of
its line, so it matters what ends a line: a quoted name has no line feed and no carriage return, but
it keeps U+2028 and U+2029, at which a comment of the script language ends too. Where no name holds
one of these, the texts without their comments are equal (`Document.erased_rename`).
-/

namespace Patchbay

open Script Program

variable {α : Type}

/-! ## Renaming -/

def Node.rename (f : NodeId → NodeId) (n : Node α) : Node α := { n with id := f n.id }

def Connection.rename (f : NodeId → NodeId) (c : Connection) : Connection :=
  { c with source := f c.source, target := f c.target }

/-- A document with other names of nodes, in its nodes, connections and comments. -/
def Document.rename (d : Document) (f : NodeId → NodeId) : Document where
  nodes := d.nodes.map fun r => { r with id := f r.id }
  connections := d.connections.map (Connection.rename f)
  comments := d.comments.map fun c => { c with links := c.links.map f }

/-- Two graphs that are alike but for the names of their nodes. -/
structure Graph.Renamed (f : NodeId → NodeId) (g g' : Graph α) : Prop where
  wellFormed : g.WellFormed
  wellFormed' : g'.WellFormed
  nodes : g'.nodes = g.nodes.map (Node.rename f)
  connections : g'.connections = g.connections.map (Connection.rename f)

namespace Graph.Renamed

variable {f : NodeId → NodeId} {g g' : Graph α}

/-- Nodes of different names have different new names. -/
theorem inj (h : Renamed f g g') {m n : Node α} (hm : m ∈ g.nodes) (hn : n ∈ g.nodes)
    (hid : f m.id = f n.id) : m.id = n.id := by
  have hnodup : (g.nodes.map fun n => f n.id).Nodup := by
    have hnames := h.wellFormed'.names
    rw [h.nodes, List.map_map] at hnames
    exact hnames
  rw [List.inj_on_of_nodup_map hnodup hm hn hid]

/-- A node that a connection leads to. -/
theorem exists_target (h : Renamed f g g') {c : Connection} (hc : c ∈ g.connections) :
    ∃ n ∈ g.nodes, n.id = c.target := by
  obtain ⟨k, hk, -⟩ := (h.wellFormed.joined c hc).target
  obtain ⟨n, hn, hid, -⟩ := has_iff.mp hk
  exact ⟨n, hn, hid⟩

theorem target_eq_iff (h : Renamed f g g') {c : Connection} (hc : c ∈ g.connections) {n : Node α}
    (hn : n ∈ g.nodes) : f c.target = f n.id ↔ c.target = n.id := by
  obtain ⟨m, hm, hid⟩ := h.exists_target hc
  rw [← hid]
  exact ⟨h.inj hm hn, congrArg f⟩

/-- The same sockets are connected. -/
theorem isConnected_eq (h : Renamed f g g') {n : Node α} (hn : n ∈ g.nodes) (input : String) :
    g'.isConnected (f n.id) input = g.isConnected n.id input := by
  rw [Bool.eq_iff_iff, isConnected_iff, isConnected_iff, h.connections]
  constructor
  · rintro ⟨c', hc', htarget, hinput⟩
    obtain ⟨c, hc, rfl⟩ := List.mem_map.mp hc'
    exact ⟨c, hc, (h.target_eq_iff hc hn).mp htarget, hinput⟩
  · rintro ⟨c, hc, htarget, hinput⟩
    exact ⟨c.rename f, List.mem_map_of_mem hc, congrArg f htarget, hinput⟩

/-- The nodes with their places. -/
theorem zipIdx_eq (h : Renamed f g g') :
    g'.nodes.zipIdx = g.nodes.zipIdx.map (Prod.map (Node.rename f) id) := by
  rw [h.nodes, List.zipIdx_map]

theorem alreadyReplaced_eq (h : Renamed f g g') {done : List Connection}
    (hdone : done ⊆ g.connections) {c : Connection} (hc : c ∈ g.connections) :
    alreadyReplaced (done.map (Connection.rename f)) (c.rename f) = alreadyReplaced done c := by
  obtain ⟨n, hn, hid⟩ := h.exists_target hc
  unfold alreadyReplaced
  rw [List.any_map, Bool.eq_iff_iff, List.any_eq_true, List.any_eq_true]
  refine exists_congr fun d => and_congr_right fun hd => ?_
  have htarget : f d.target = f c.target ↔ d.target = c.target := by
    rw [← hid]
    exact h.target_eq_iff (hdone hd) hn
  simp only [Function.comp_apply, Connection.rename, Bool.and_eq_true, beq_iff_eq, htarget]

theorem preamble_eq (h : Renamed f g g') (options : Options α) :
    preamble g' options = preamble g options := by
  unfold preamble
  rw [h.nodes, h.connections, List.length_map, List.length_map]

theorem hasKind_eq (h : Renamed f g g') (kind : Kind) : hasKind g' kind = hasKind g kind := by
  unfold hasKind
  rw [h.nodes, List.any_map]
  rfl

/-! ## Programs of renamed graphs -/

variable [Scalar α] (options : Options α)

theorem noiseColors_eq (h : Renamed f g g') : noiseColors g' = noiseColors g := by
  unfold noiseColors
  rw [h.nodes, List.filter_map, List.map_map]
  rfl

theorem helpers_eq (h : Renamed f g g') : helpers g' = helpers g := by
  unfold helpers
  rw [h.noiseColors_eq, h.hasKind_eq, h.hasKind_eq]

/-- The same inline values are set. -/
theorem inlineValues_eq (h : Renamed f g g') {n : Node α} (hn : n ∈ g.nodes) (block : Block α) :
    inlineValues g' (n.rename f) block = inlineValues g n block := by
  refine List.filterMap_congr fun socket _ => ?_
  have hconnected : g'.isConnected (n.rename f).id socket.name = g.isConnected n.id socket.name :=
    h.isConnected_eq hn socket.name
  rw [hconnected]
  rfl

/-- The statements of two blocks differ in their headings only. -/
theorem agree_blockOf (h : Renamed f g g') {allowed : String → Prop} {n : Node α}
    (hn : n ∈ g.nodes) (hold : allowed (n.kind.tag ++ " " ++ Json.quoted n.id))
    (hnew : allowed (n.kind.tag ++ " " ++ Json.quoted (f n.id))) (seconds : α) (place : Nat) :
    List.Forall₂ (Stmt.Agree allowed) (blockOf g seconds n place).statements
      (blockOf g' seconds (n.rename f) place).statements := by
  unfold blockOf
  dsimp only
  rw [h.inlineValues_eq hn]
  exact .cons (.comment hold hnew) (agree_refl allowed _)

theorem agree_blocks (h : Renamed f g g') {allowed : String → Prop}
    (hold : ∀ n ∈ g.nodes, allowed (n.kind.tag ++ " " ++ Json.quoted n.id))
    (hnew : ∀ n ∈ g.nodes, allowed (n.kind.tag ++ " " ++ Json.quoted (f n.id))) :
    Paragraphs.Agree allowed ((blocks g options).map (·.2.statements))
      ((blocks g' options).map (·.2.statements)) := by
  unfold Paragraphs.Agree blocks
  rw [h.zipIdx_eq, List.map_map, List.map_map, List.map_map, List.forall₂_map_left_iff,
    List.forall₂_map_right_iff, List.forall₂_same]
  rintro ⟨n, place⟩ hmem
  have hn : n ∈ g.nodes := List.fst_mem_of_mem_zipIdx hmem
  exact h.agree_blockOf hn (hold n hn) (hnew n hn) options.noiseSeconds place

/-- A connection has the same statements. -/
theorem wiring_eq (h : Renamed f g g') {done : List Connection} (hdone : done ⊆ g.connections)
    {c : Connection} (hc : c ∈ g.connections) :
    Program.wiring (blocks g' options) (done.map (Connection.rename f)) (c.rename f) =
      Program.wiring (blocks g options) done c := by
  obtain ⟨⟨m, pm, hm, hsource, -⟩, n, pn, hn, htarget, -⟩ := exists_ends h.wellFormed hc
  have hplace : ∀ {n : Node α} {place}, (n, place) ∈ g.nodes.zipIdx →
      (n.rename f, place) ∈ g'.nodes.zipIdx := by
    intro n place hmem
    rw [h.zipIdx_eq]
    exact List.mem_map_of_mem hmem
  have hm' : (m.rename f).id = (c.rename f).source := congrArg f hsource
  have hn' : (n.rename f).id = (c.rename f).target := congrArg f htarget
  unfold Program.wiring
  dsimp only
  rw [h.alreadyReplaced_eq hdone hc, ← hm', ← hn', ← hsource, ← htarget,
    block?_eq h.wellFormed' options (hplace hm), block?_eq h.wellFormed' options (hplace hn),
    block?_eq h.wellFormed options hm, block?_eq h.wellFormed options hn]
  rfl

theorem wirings_eq (h : Renamed f g g') {rest : List Connection} :
    ∀ {done : List Connection}, done ⊆ g.connections → rest ⊆ g.connections →
      wirings (blocks g' options) (done.map (Connection.rename f))
        (rest.map (Connection.rename f)) = wirings (blocks g options) done rest := by
  induction rest with
  | nil => intro done _ _; rfl
  | cons c rest ih =>
    intro done hdone hrest
    obtain ⟨hc, hrest⟩ := List.cons_subset.mp hrest
    have hdone' : done ++ [c] ⊆ g.connections :=
      List.append_subset.mpr ⟨hdone, List.cons_subset.mpr ⟨hc, List.nil_subset _⟩⟩
    have htail := ih hdone' hrest
    rw [List.map_append] at htail
    rw [List.map_cons, wirings, wirings, h.wiring_eq options hdone hc, ← htail]
    rfl

/-- The programs of renamed graphs differ in the headings of their blocks only. -/
theorem agree_ofGraph (h : Renamed f g g') {allowed : String → Prop}
    (hold : ∀ n ∈ g.nodes, allowed (n.kind.tag ++ " " ++ Json.quoted n.id))
    (hnew : ∀ n ∈ g.nodes, allowed (n.kind.tag ++ " " ++ Json.quoted (f n.id))) :
    (ofGraph g options).Agree allowed (ofGraph g' options) := by
  have hwirings : wirings (blocks g' options) [] g'.connections =
      wirings (blocks g options) [] g.connections := by
    rw [h.connections]
    exact h.wirings_eq options (List.nil_subset _) (List.Subset.refl _)
  have hsame : ∀ p : Paragraphs α, p.Agree allowed p :=
    fun p => List.forall₂_same.mpr fun l _ => agree_refl allowed l
  unfold ofGraph
  dsimp only
  rw [h.preamble_eq, h.helpers_eq, hwirings]
  exact List.rel_append (List.rel_append (List.rel_append (hsame _)
    (h.agree_blocks options hold hnew)) (hsame _)) (hsame _)

end Graph.Renamed

/-! ## Imports of renamed documents -/

theorem NodeRecord.Describes.rename [Scalar α] {record : NodeRecord} {n n' : Node α}
    {f : NodeId → NodeId} (h : record.Describes n)
    (h' : NodeRecord.Describes { record with id := f record.id } n') : n' = n.rename f := by
  obtain ⟨id, panel⟩ := n
  obtain ⟨id', panel'⟩ := n'
  have hid : id = record.id := h.id
  have hid' : id' = f record.id := h'.id
  have hkind : panel'.kind = panel.kind := Option.some.inj (h'.tag.symm.trans h.tag)
  have hdata : Panel.ofData panel'.kind record.data = .ok panel' := h'.data
  rw [hkind] at hdata
  obtain rfl : panel' = panel := Except.ok.inj (hdata.symm.trans h.data)
  rw [hid', ← hid]
  rfl

theorem nodes_rename [Scalar α] {records : List NodeRecord} {f : NodeId → NodeId} :
    ∀ {nodes nodes' : List (Node α)}, List.Forall₂ NodeRecord.Describes records nodes →
      List.Forall₂ NodeRecord.Describes
        (records.map fun r => { r with id := f r.id }) nodes' →
      nodes' = nodes.map (Node.rename f) := by
  induction records with
  | nil =>
    rintro _ _ (_ | _) (_ | _)
    rfl
  | cons r records ih =>
    rintro _ _ (_ | ⟨h, hrest⟩) (_ | ⟨h', hrest'⟩)
    rw [h.rename h', ih hrest hrest', List.map_cons]

namespace Document

variable [Scalar α]

/-- What is kept of a document of which nothing is left out. -/
theorem imported_of_clean {d : Document} (hfailed : (d.toGraph (α := α)).2.failed = [])
    (hskipped : (d.toGraph (α := α)).2.skipped = []) :
    List.Forall₂ NodeRecord.Describes d.nodes (d.toGraph (α := α)).1.nodes ∧
      (d.toGraph (α := α)).1.connections = d.connections := by
  obtain ⟨start, kept, left, links, skipped, hnodes, hdescribed, hconnections, htoGraph⟩ :=
    d.exists_imported (α := α)
  rw [htoGraph] at hfailed hskipped ⊢
  obtain rfl : kept = d.nodes := hnodes.eq_of_left_eq_nil (List.map_eq_nil_iff.mp hfailed)
  obtain rfl : links = d.connections := hconnections.eq_of_left_eq_nil hskipped
  exact ⟨hdescribed, rfl⟩

/-- When two documents are alike but for the names of nodes and nothing of them is left out, then so
are their graphs. -/
theorem renamed_toGraph [StandardsAccepted α] {d : Document} {f : NodeId → NodeId}
    (hfailed : (d.toGraph (α := α)).2.failed = []) (hskipped : (d.toGraph (α := α)).2.skipped = [])
    (hfailed' : ((d.rename f).toGraph (α := α)).2.failed = [])
    (hskipped' : ((d.rename f).toGraph (α := α)).2.skipped = []) :
    Graph.Renamed f (d.toGraph (α := α)).1 ((d.rename f).toGraph (α := α)).1 := by
  obtain ⟨hnodes, hconnections⟩ := imported_of_clean hfailed hskipped
  obtain ⟨hnodes', hconnections'⟩ := imported_of_clean hfailed' hskipped'
  refine ⟨d.sound_toGraph.wellFormed, (d.rename f).sound_toGraph.wellFormed,
    nodes_rename hnodes hnodes', ?_⟩
  rw [hconnections', hconnections]
  rfl

end Document

/-! ## Quoted names -/

/-- A text without the ends of lines that quoting keeps. -/
def Unbroken (s : String) : Prop := '\u2028' ∉ s.toList ∧ '\u2029' ∉ s.toList

/-- An escaped character ends no line, unless it is one of the two ends that quoting keeps. -/
theorem any_escapedChar {d : Char} (hd : d ≠ '\u2028' ∧ d ≠ '\u2029') :
    (Json.escapedChar d).toList.any isLineEnd = false := by
  have hcontrol : ∀ n < 0x20, (Json.controlEscape n).toList.any isLineEnd = false := by
    decide +kernel
  unfold Json.escapedChar
  split
  case h_8 _ _ _ _ hfeed hreturn _ =>
    split
    next hlow => exact hcontrol _ hlow
    next =>
      have hfeed' : d ≠ '\n' := hfeed
      have hreturn' : d ≠ '\r' := hreturn
      simp [isLineEnd, hd.1, hd.2, hfeed', hreturn']
  all_goals decide

/-- A quoted text is on one line. -/
theorem oneLine_quoted {s : String} (h : Unbroken s) : OneLine (Json.quoted s) := by
  have hchars : (s.toList.map Json.escapedChar).any (·.toList.any isLineEnd) = false := by
    rw [List.any_map, List.any_eq_false]
    intro d hd
    rw [Function.comp_apply,
      any_escapedChar ⟨ne_of_mem_of_not_mem hd h.1, ne_of_mem_of_not_mem hd h.2⟩]
    exact Bool.false_ne_true
  rw [OneLine, Json.quoted, String.toList_append, String.toList_append, String.toList_join,
    List.any_append, List.any_append, List.any_flatMap, hchars]
  decide

/-- The heading of a block is on one line. -/
theorem oneLine_heading (kind : Kind) {id : NodeId} (h : Unbroken id) :
    OneLine (kind.tag ++ " " ++ Json.quoted id) := by
  have htag : (kind.tag ++ " ").toList.any isLineEnd = false := by
    cases kind <;> decide
  rw [OneLine, String.toList_append, List.any_append, htag, oneLine_quoted h]
  rfl

/-! ## Documents -/

/-- When a document becomes a program under any two namings of its nodes, then the programs have the
same statements, one after another, but for comments. Where neither U+2028 nor U+2029 is in a name,
the texts are the same without their comments. -/
theorem Document.erased_rename [Scalar α] [StandardsAccepted α] {d : Document}
    {f : NodeId → NodeId} {options : Options α} {text text' : String}
    (htext : textOfDocument d options = .ok text)
    (htext' : textOfDocument (d.rename f) options = .ok text') :
    (∃ program program', ofDocument d options = .ok program ∧ Script.toText program = text ∧
      ofDocument (d.rename f) options = .ok program' ∧ Script.toText program' = text' ∧
      program.Agree (fun _ => True) program') ∧
    ((∀ record ∈ d.nodes, Unbroken record.id ∧ Unbroken (f record.id)) →
      eraseComments text = eraseComments text') := by
  obtain ⟨program, hprogram, rfl⟩ := map_eq_ok.mp htext
  obtain ⟨program', hprogram', rfl⟩ := map_eq_ok.mp htext'
  obtain ⟨hnone, rfl⟩ := ofDocument_eq_ok_iff.mp hprogram
  obtain ⟨hnone', rfl⟩ := ofDocument_eq_ok_iff.mp hprogram'
  obtain ⟨hfailed, hskipped⟩ := fault?_eq_none_iff.mp hnone
  obtain ⟨hfailed', hskipped'⟩ := fault?_eq_none_iff.mp hnone'
  have hrenamed := renamed_toGraph hfailed hskipped hfailed' hskipped'
  refine ⟨⟨_, _, hprogram, rfl, hprogram', rfl, ?_⟩, fun hunbroken => eraseComments_eq ?_⟩
  · exact hrenamed.agree_ofGraph options (fun _ _ => trivial) fun _ _ => trivial
  -- the name of every node is that of a record
  have hnames : ∀ n ∈ (d.toGraph (α := α)).1.nodes, Unbroken n.id ∧ Unbroken (f n.id) := by
    intro n hn
    obtain ⟨record, hrecord, hdescribes⟩ :=
      exists_of_mem_forall₂ (imported_of_clean hfailed hskipped).1.flip hn
    rw [hdescribes.id]
    exact hunbroken record hrecord
  exact hrenamed.agree_ofGraph options (fun n hn => oneLine_heading n.kind (hnames n hn).1)
    fun n hn => oneLine_heading n.kind (hnames n hn).2

/-- A tone that is heard. -/
def Document.heardTone : Document where
  nodes := [⟨"tone", "Oscillator", .null⟩, ⟨"out", "Audio Output", .null⟩]
  connections := [⟨"tone", "signal", "out", "signal"⟩]
  comments := []

/-- Neither quotes nor line feeds nor slashes in a name are seen outside of comments. -/
theorem Document.erased_heardTone : ∃ text text',
    textOfDocument (α := Float) heardTone .standard = .ok text ∧
    textOfDocument (α := Float) (heardTone.rename (· ++ "\"\n//")) .standard = .ok text' ∧
    eraseComments text = eraseComments text' := by
  have hclean : (heardTone.toGraph (α := Float)).2.isClean = true ∧
      ((heardTone.rename (· ++ "\"\n//")).toGraph (α := Float)).2.isClean = true := by
    decide +kernel
  have hunbroken : ∀ record ∈ heardTone.nodes,
      Unbroken record.id ∧ Unbroken (record.id ++ "\"\n//") := by
    unfold Unbroken
    decide
  have htext := textOfDocument_of_isClean .standard hclean.1
  have htext' := textOfDocument_of_isClean .standard hclean.2
  exact ⟨_, _, htext, htext', (erased_rename htext htext').2 hunbroken⟩

/-- A node of that name alone. -/
def Document.lone (id : NodeId) : Document := ⟨[⟨id, "Audio Output", .null⟩], [], []⟩

/-- A line separator in a name ends the comment that the name stands in, and what follows it is
code. -/
theorem Document.not_erased_lone :
    Function.Injective (fun id : NodeId => id ++ "\u2028alert(1)//") ∧ ∃ text text',
    textOfDocument (α := Float) (lone "out") .standard = .ok text ∧
    textOfDocument (α := Float) ((lone "out").rename (· ++ "\u2028alert(1)//")) .standard =
      .ok text' ∧ eraseComments text ≠ eraseComments text' := by
  have hinjective : Function.Injective (fun id : NodeId => id ++ "\u2028alert(1)//") := by
    intro a b hab
    have hchars := congrArg String.toList hab
    rw [String.toList_append, String.toList_append, List.append_left_inj,
      String.toList_inj] at hchars
    exact hchars
  have hclean : ((lone "out").toGraph (α := Float)).2.isClean = true ∧
      (((lone "out").rename (· ++ "\u2028alert(1)//")).toGraph (α := Float)).2.isClean = true := by
    decide +kernel
  have htext := textOfDocument_of_isClean .standard hclean.1
  have htext' := textOfDocument_of_isClean .standard hclean.2
  refine ⟨hinjective, _, _, htext, htext', fun herased => ?_⟩
  -- what is left has not even the same length
  have hlength := congrArg (·.toList.length) herased
  simp only [eraseComments, String.toList_ofList, toList_toText] at hlength
  revert hlength
  decide +kernel

end Patchbay
