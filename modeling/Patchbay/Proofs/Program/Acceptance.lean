import Patchbay.Proofs.Patch.Outcome
import Patchbay.Proofs.Program.Wirings
/-!
# Which documents become programs

A document becomes a program exactly when all of it can be imported (`exists_textOfDocument_iff`);
what an import leaves out first, nodes before connections, is the reason given otherwise
(`ofDocument_eq_error_iff`). The blocks of an imported graph have a handle for every end of every
connection (`exists_handles`), so that the wiring leaves nothing out.

Building asks for more. What a graph lacks for being built is not seen by its program: a program
wires nodes that feed each other in a circle as it wires any others, and building refuses them
(`Document.accepted_iff`).
-/

namespace Patchbay

open Relation (TransGen)

variable {α : Type} [Scalar α]

namespace Program

/-! ## Reasons -/

omit [Scalar α] in
/-- Nothing is wrong with an import exactly when it leaves nothing out. -/
theorem fault?_eq_none_iff {report : Document.Report} :
    fault? report = none ↔ report.failed = [] ∧ report.skipped = [] := by
  obtain ⟨nodes, connections, failed, skipped⟩ := report
  cases failed <;> cases skipped <;> simp [fault?]

omit [Scalar α] in
/-- The first node left out is what is wrong with an import, and the first connection left out only
where no node is. -/
theorem fault?_eq_some_iff {report : Document.Report} {fault : Fault} :
    fault? report = some fault ↔
      (∃ id f rest, report.failed = (id, f) :: rest ∧ fault = .node f) ∨
      report.failed = [] ∧ ∃ c f rest, report.skipped = (c, f) :: rest ∧ fault = .connection f := by
  obtain ⟨nodes, connections, failed, skipped⟩ := report
  constructor
  · intro h
    cases failed with
    | cons first rest =>
      cases h
      exact .inl ⟨first.1, first.2, rest, rfl, rfl⟩
    | nil =>
      cases skipped with
      | cons first rest =>
        cases h
        exact .inr ⟨rfl, first.1, first.2, rest, rfl, rfl⟩
      | nil => cases h
  · rintro (⟨id, f, rest, hfailed, rfl⟩ | ⟨hfailed, c, f, rest, hskipped, rfl⟩)
    · cases hfailed
      rfl
    · cases hfailed
      cases hskipped
      rfl

section

variable {d : Document} {options : Options α}

theorem ofDocument_eq_error_iff {fault : Fault} :
    ofDocument d options = .error fault ↔ fault? (d.toGraph (α := α)).2 = some fault := by
  unfold ofDocument
  dsimp only
  cases fault? (d.toGraph (α := α)).2 <;> simp

/-- The program of a document is that of its graph. -/
theorem ofDocument_eq_ok_iff {program : Script.Paragraphs α} :
    ofDocument d options = .ok program ↔
      fault? (d.toGraph (α := α)).2 = none ∧ ofGraph (d.toGraph (α := α)).1 options = program := by
  unfold ofDocument
  dsimp only
  cases fault? (d.toGraph (α := α)).2 <;> simp

/-- A document becomes a program exactly when nothing of it is left out. -/
theorem exists_textOfDocument_iff :
    (∃ text, textOfDocument d options = .ok text) ↔
      (d.toGraph (α := α)).2.failed = [] ∧ (d.toGraph (α := α)).2.skipped = [] := by
  rw [← fault?_eq_none_iff]
  constructor
  · rintro ⟨text, htext⟩
    obtain ⟨program, hprogram, -⟩ := map_eq_ok.mp htext
    exact (ofDocument_eq_ok_iff.mp hprogram).1
  · intro hnone
    have hprogram : ofDocument d options = .ok (ofGraph (d.toGraph (α := α)).1 options) :=
      ofDocument_eq_ok_iff.mpr ⟨hnone, rfl⟩
    exact ⟨_, map_eq_ok.mpr ⟨_, hprogram, rfl⟩⟩

variable (options) in
/-- The program of a clean import. -/
theorem ofDocument_of_isClean (hclean : (d.toGraph (α := α)).2.isClean = true) :
    ofDocument d options = .ok (ofGraph (d.toGraph (α := α)).1 options) := by
  rw [Document.Report.isClean, Bool.and_eq_true, List.isEmpty_iff, List.isEmpty_iff,
    ← fault?_eq_none_iff] at hclean
  exact ofDocument_eq_ok_iff.mpr ⟨hclean, rfl⟩

variable (options) in
/-- The text of the program of a clean import. -/
theorem textOfDocument_of_isClean (hclean : (d.toGraph (α := α)).2.isClean = true) :
    textOfDocument d options = .ok (Script.toText (ofGraph (d.toGraph (α := α)).1 options)) :=
  map_eq_ok.mpr ⟨_, ofDocument_of_isClean options hclean, rfl⟩

theorem textOfDocument_eq_error_iff {fault : Fault} :
    textOfDocument d options = .error fault ↔ fault? (d.toGraph (α := α)).2 = some fault := by
  have hsame : textOfDocument d options = .error fault ↔ ofDocument d options = .error fault := by
    unfold textOfDocument
    cases ofDocument d options <;> simp [Except.map]
  rw [hsame, ofDocument_eq_error_iff]

end

/-! ## Handles -/

/-- A block has a variable for every output socket of its kind. -/
theorem exists_output? (name : String) (seconds : α) {panel : Panel α} {o : Socket}
    (ho : o ∈ panel.kind.outputs) :
    ∃ x, (nodeBlock name seconds panel).output? o.name = some (.name x) := by
  obtain ⟨kind, values⟩ := panel
  cases kind
  all_goals
    simp only [Kind.outputs] at ho
    fin_cases ho
  all_goals exact ⟨_, rfl⟩

/-- A block has a wire for every input socket of its kind. -/
theorem exists_wire? (name : String) (seconds : α) {panel : Panel α} {i : Socket}
    (hi : i ∈ panel.kind.inputs) : ∃ w, (nodeBlock name seconds panel).wire? i.name = some w := by
  obtain ⟨kind, values⟩ := panel
  cases kind
  all_goals
    simp only [Kind.inputs] at hi
    fin_cases hi
  all_goals exact ⟨_, rfl⟩

/-- The block of a name among blocks, as the wiring looks it up. -/
def block? (blocks : List (NodeId × Block α)) (id : NodeId) : Option (Block α) :=
  (blocks.find? (·.1 == id)).map (·.2)

/-- Both ends of a connection have handles among the blocks of its graph. -/
theorem exists_handles {g : Graph α} (hg : g.WellFormed) (options : Options α) {c : Connection}
    (hc : c ∈ g.connections) :
    (∃ e, (block? (blocks g options) c.source).bind (·.output? c.output) = some e) ∧
      ∃ w, (block? (blocks g options) c.target).bind (·.wire? c.input) = some w := by
  obtain ⟨⟨m, pm, hm, hsource, o, ho, houtput⟩, n, pn, hn, htarget, socket, hsocket⟩ :=
    Script.exists_ends hg hc
  obtain ⟨hmem, hinput⟩ := Kind.input?_eq_some_iff.mp hsocket
  unfold block?
  rw [← hsource, ← htarget, Script.block?_eq hg options hm, Script.block?_eq hg options hn,
    ← houtput, ← hinput]
  obtain ⟨x, hx⟩ := exists_output? (Script.blockName pm) options.noiseSeconds ho
  exact ⟨⟨_, hx⟩, exists_wire? _ _ hmem⟩

end Program

/-! ## Programs and patches -/

namespace Graph

variable {g : Graph α} {master : PrimitiveId} {noise : Noise.Source α} {rack : Rack α}
  {voicing : Voicing α}

/-- On a rack that refuses nothing a sound graph is built, or what stops it is a circle upstream of
the sinks. -/
theorem Sound.built_or_circle (hg : g.Sound) (hrefused : rack.refused = []) :
    (∃ patch, (g.build master noise rack voicing).outcome = .ok patch) ∨
      ∃ id, (g.build master noise rack voicing).outcome = .error (.cycle id) ∧ g.Upstream id ∧
        TransGen g.Feeds id id := by
  cases houtcome : (g.build master noise rack voicing).outcome with
  | ok patch => exact .inl ⟨patch, rfl⟩
  | error fault =>
    rcases hg.fault_of_buildWithin (Nat.le_refl _) houtcome with ⟨id, rfl, hid⟩ | ⟨f, -, hf, -⟩
    · exact .inr ⟨id, rfl, hid⟩
    · rw [hrefused] at hf
      exact absurd hf List.not_mem_nil

/-- What was built has no circle upstream of its sinks. -/
theorem Sound.acyclic_of_built (hg : g.Sound) {patch : Patch α}
    (hbuilt : (g.build master noise rack voicing).outcome = .ok patch) {id : NodeId}
    (hid : g.Upstream id) : ¬TransGen g.Feeds id id := by
  obtain ⟨a, hresolve, -⟩ := outcome_buildWithin_eq_ok.mp hbuilt
  obtain ⟨order, htrail, hall⟩ := Assembly.exists_trail_of_resolveSinks hg.wellFormed hresolve
  exact htrail.acyclic hg.wellFormed hall hid

end Graph

open Program in
/-- A document becomes a program exactly when nothing of it is left out by an import and building
the imported graph, on a rack that refuses nothing, gives a patch or stops at a circle. It gives a
patch exactly when no node upstream of a sink lies on a circle. The program has a handle for both
ends of every connection. When something is left out, the reason given is that of the first node,
or, where no node is left out, that of the first connection. -/
theorem Document.accepted_iff [StandardsAccepted α] (d : Document) (options : Options α)
    (master : PrimitiveId) (noise : Noise.Source α) {rack : Rack α} (hrefused : rack.refused = [])
    (voicing : Voicing α) :
    let g := (d.toGraph (α := α)).1
    let report := (d.toGraph (α := α)).2
    let built := (g.build master noise rack voicing).outcome
    ((∃ text, textOfDocument d options = .ok text) ↔
      (report.failed = [] ∧ report.skipped = []) ∧
        ((∃ patch, built = .ok patch) ∨ ∃ id, built = .error (.cycle id))) ∧
    ((∃ patch, built = .ok patch) ↔ ∀ id, g.Upstream id → ¬TransGen g.Feeds id id) ∧
    (∀ id, built = .error (.cycle id) → g.Upstream id ∧ TransGen g.Feeds id id) ∧
    (∀ c ∈ g.connections,
      (∃ e, (block? (blocks g options) c.source).bind (·.output? c.output) = some e) ∧
      ∃ w, (block? (blocks g options) c.target).bind (·.wire? c.input) = some w) ∧
    ∀ fault, textOfDocument d options = .error fault ↔
      (∃ id f rest, report.failed = (id, f) :: rest ∧ fault = .node f) ∨
      report.failed = [] ∧
        ∃ c f rest, report.skipped = (c, f) :: rest ∧ fault = .connection f := by
  intro g report built
  have hg : g.Sound := d.sound_toGraph
  have hstops : (∃ patch, built = .ok patch) ∨
      ∃ id, built = .error (.cycle id) ∧ g.Upstream id ∧ TransGen g.Feeds id id :=
    hg.built_or_circle hrefused
  refine ⟨?_, ⟨?_, ?_⟩, ?_, fun c hc => exists_handles hg.wellFormed options hc, fun fault => ?_⟩
  · rw [exists_textOfDocument_iff]
    refine (and_iff_left ?_).symm
    rcases hstops with hpatch | ⟨id, hcycle, -⟩
    · exact .inl hpatch
    · exact .inr ⟨id, hcycle⟩
  · rintro ⟨patch, hpatch⟩ id hid
    exact hg.acyclic_of_built hpatch hid
  · intro hacyclic
    rcases hstops with hpatch | ⟨id, -, hid, hcircle⟩
    · exact hpatch
    · exact absurd hcircle (hacyclic id hid)
  · intro id hcycle
    rcases hstops with ⟨patch, hpatch⟩ | ⟨id', hcycle', hid⟩
    · rw [hpatch] at hcycle
      cases hcycle
    · rw [hcycle'] at hcycle
      cases hcycle
      exact hid
  · rw [textOfDocument_eq_error_iff, fault?_eq_some_iff]

/-- A gain that feeds itself and is heard. -/
def Document.selfFed : Document where
  nodes := [⟨"loop", "Gain", .null⟩, ⟨"out", "Audio Output", .null⟩]
  connections := [⟨"loop", "signal", "loop", "signal"⟩, ⟨"loop", "signal", "out", "signal"⟩]
  comments := []

/-- All of it can be imported. -/
theorem Document.clean_selfFed : (selfFed.toGraph (α := Float)).2.failed = [] ∧
    (selfFed.toGraph (α := Float)).2.skipped = [] := by
  have hempty : (selfFed.toGraph (α := Float)).2.failed.isEmpty = true ∧
      (selfFed.toGraph (α := Float)).2.skipped.isEmpty = true := by decide
  exact ⟨List.isEmpty_iff.mp hempty.1, List.isEmpty_iff.mp hempty.2⟩

/-- What feeds itself is upstream of the output. -/
theorem Document.circle_selfFed : (selfFed.toGraph (α := Float)).1.Upstream "loop" ∧
    TransGen (selfFed.toGraph (α := Float)).1.Feeds "loop" "loop" := by
  have hconnections : (selfFed.toGraph (α := Float)).1.connections = selfFed.connections := by
    decide
  have hsinks : (selfFed.toGraph (α := Float)).1.sinks.map (·.id) = ["out"] := by decide
  obtain ⟨sink, hsink, hid⟩ :
      ∃ sink ∈ (selfFed.toGraph (α := Float)).1.sinks, sink.id = "out" := by
    rw [← List.mem_map, hsinks]
    exact List.mem_singleton_self _
  have hself : (selfFed.toGraph (α := Float)).1.Feeds "loop" "loop" := by
    refine ⟨⟨"loop", "signal", "loop", "signal"⟩, ?_, rfl, rfl⟩
    rw [hconnections]
    exact List.mem_cons_self
  have hheard : (selfFed.toGraph (α := Float)).1.Feeds "loop" sink.id := by
    refine ⟨⟨"loop", "signal", "out", "signal"⟩, ?_, rfl, hid.symm⟩
    rw [hconnections]
    exact List.mem_cons_of_mem _ List.mem_cons_self
  exact ⟨⟨sink, hsink, .single hheard⟩, .single hself⟩

open Program in
/-- It becomes a program and is not built. -/
theorem Document.selfFed_not_built :
    ¬((∃ text, textOfDocument (α := Float) selfFed .standard = .ok text) ↔
      ((selfFed.toGraph (α := Float)).2.failed = [] ∧
        (selfFed.toGraph (α := Float)).2.skipped = []) ∧
      ∃ patch, ((selfFed.toGraph (α := Float)).1.build 0 ⟨2.0, 1⟩ (.new 48000.0) .empty).outcome =
        .ok patch) := by
  intro hiff
  obtain ⟨-, patch, hpatch⟩ := hiff.mp (exists_textOfDocument_iff.mpr clean_selfFed)
  obtain ⟨hid, hcircle⟩ := circle_selfFed
  exact (sound_toGraph selfFed).acyclic_of_built hpatch hid hcircle

open Program in
/-- Its program is written, and the circle is what stops its building. -/
theorem Document.accepted_selfFed :
    (∃ text, textOfDocument (α := Float) selfFed .standard = .ok text) ∧
    ¬∃ patch, ((selfFed.toGraph (α := Float)).1.build 0 ⟨2.0, 1⟩ (.new 48000.0) .empty).outcome =
      .ok patch := by
  have hrefused : (Rack.new (48000.0 : Float)).refused = [] := rfl
  obtain ⟨htext, hbuilt, -⟩ := accepted_iff selfFed .standard 0 ⟨2.0, 1⟩ hrefused .empty
  obtain ⟨hid, hcircle⟩ := circle_selfFed
  have hnot : ¬∃ patch, ((selfFed.toGraph (α := Float)).1.build 0 ⟨2.0, 1⟩ (.new 48000.0)
      .empty).outcome = .ok patch := fun hpatch => hbuilt.mp hpatch "loop" hid hcircle
  exact ⟨exists_textOfDocument_iff.mpr clean_selfFed, hnot⟩

end Patchbay
