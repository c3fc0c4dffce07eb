import Patchbay.Proofs.Graph.Reachable
import Patchbay.Proofs.Program.Performed
/-!
# Programs sound like what is built

A document that is imported without loss can be played in two ways: its graph is built on a rack, or
its program is run on a page. Where nothing goes in a circle both succeed, and of all that is heard
there is the same on both racks (`Document.alike_of_program`).
-/

namespace Patchbay

open Relation (TransGen ReflTransGen)

/-! ## Orders that hold all that is heard -/

namespace Graph

variable {α : Type} {g : Graph α} {order : List (Node α)}

/-- The nodes upstream of the sinks cover the graph. -/
theorem covers_of_upstream (hnodup : (order.map (·.id)).Nodup)
    (horder : ∀ n, n ∈ order ↔ n ∈ g.nodes ∧ g.Upstream n.id) : g.Covers order where
  nodes n hn := ((horder n).mp hn).1
  nodup := hnodup
  closed n hn m hm hfeeds := by
    obtain ⟨sink, hsink, hreach⟩ := ((horder n).mp hn).2
    exact (horder m).mpr ⟨hm, sink, hsink, .head hfeeds hreach⟩
  audible n hn haudible := (horder n).mpr ⟨hn, haudible.upstream⟩

/-- The nodes of a program cover the graph. -/
theorem WellFormed.covers_heard (hg : g.WellFormed) : g.Covers g.heard where
  nodes n hn := (List.mem_filter.mp hn).1
  nodup := (List.filter_sublist.map _).nodup hg.names
  closed n _ m hm hfeeds := List.mem_filter.mpr ⟨hm, by simp [hg.not_isMonitor hm hfeeds]⟩
  audible n hn haudible := List.mem_filter.mpr ⟨hn, by simp [haudible.not_isMonitor hg hn]⟩

/-- Where every connection leads up, nothing goes in a circle. -/
theorem not_feeds_self_of_rank {rank : NodeId → Nat}
    (h : ∀ c ∈ g.connections, rank c.source < rank c.target) (id : NodeId) :
    ¬TransGen g.Feeds id id := by
  have hup : ∀ {a b}, TransGen g.Feeds a b → rank a < rank b := by
    intro a b hab
    induction hab with
    | single hfeeds =>
      obtain ⟨c, hc, rfl, rfl⟩ := hfeeds
      exact h c hc
    | tail _ hfeeds ih =>
      obtain ⟨c, hc, rfl, rfl⟩ := hfeeds
      exact Nat.lt_trans ih (h c hc)
  exact fun hcircle => Nat.lt_irrefl _ (hup hcircle)

end Graph

/-! ## Agreement -/

open Program Script in
/-- Of a document that is imported without loss and whose nodes upstream of the sinks lie on no
circle, the graph is built on every rack that refuses nothing, and the program runs. Building leaves
on the rack the nodes upstream of the sinks, one after another, and the program leaves on its page
the master chain and all nodes but the monitors; and of all that is heard there is the same on
both. -/
theorem Document.alike_of_program {d : Document} {g : Graph Float} {report : Report}
    (himport : d.toGraph = (g, report)) (hfailed : report.failed = [])
    (hskipped : report.skipped = [])
    (hacyclic : ∀ id, g.Upstream id → ¬TransGen g.Feeds id id)
    {rack : Rack Float} (hrefused : rack.refused = []) {master : PrimitiveId}
    (hmaster : master < rack.primitives.size) (noise : Noise.Source Float) (page : Page Float)
    (options : Options Float) :
    ∃ (patch : Patch Float) (order : List (Node Float)) (program : Paragraphs Float)
      (stage : Stage Float) (m : PrimitiveId),
      (g.build master noise rack .empty).outcome = .ok patch ∧
      (∀ n, n ∈ order ↔ n ∈ g.nodes ∧ g.Upstream n.id) ∧
      patch.primitives = (order.flatMap fun n =>
        numbered (firstIn order rack.primitives.size n.id) n.kind.outfit) ∧
      ofDocument d options = .ok program ∧ Script.run page program = some stage ∧
      stage.scope "master" = some (.object m) ∧
      stage.rack.families =
        [.gain, .dynamicsCompressor] ++ g.heard.flatMap (·.kind.outfit) ∧
      g.Alike (rack.clock ≤ ·)
        ⟨(g.build master noise rack .empty).rack, (g.build master noise rack .empty).voicing,
          master, firstIn order rack.primitives.size⟩
        ⟨stage.rack, stage.voicing, m, firstIn g.heard 2⟩ := by
  have hsound : g.Sound := by
    have hsound := Document.sound_toGraph (α := Float) d
    rwa [himport] at hsound
  obtain ⟨patch, order, hpatch, horder, hprimitives, hbuilt, hwires⟩ := hsound.built hacyclic
    (fun n hn hkind => (hsound.panels n hn).greatest_amp hkind) master noise hrefused
    (Binary64.lt_irrefl _)
  obtain ⟨stage, hrun, hscope, hfamilies, hperformed, hwires'⟩ :=
    hsound.exists_performed page options
  have hprogram : ofDocument d options = .ok (ofGraph g options) := by
    unfold ofDocument
    rw [himport]
    simp [fault?, hfailed, hskipped]
  exact ⟨patch, order, _, stage, 0, hpatch, horder, hprimitives, hprogram, hrun, hscope, hfamilies,
    Graph.alike_of_arranged hsound.wellFormed (fun _ _ => trivial)
      (Graph.covers_of_upstream hbuilt.nodup horder) hsound.wellFormed.covers_heard hbuilt
      hperformed hmaster Nat.zero_lt_two hwires hwires'⟩

/-- A tone as high as a constant says, played by a key, and shown on its way to the loudspeakers. -/
def Document.playedTone : Document where
  nodes := [⟨"pitch", "Constant", .record [("value", .number (.float 330.0))]⟩,
    ⟨"tone", "Oscillator", .null⟩, ⟨"key", "Keyboard ADSR", .null⟩,
    ⟨"show", "Time Domain Visualizer", .null⟩, ⟨"out", "Audio Output", .null⟩]
  connections := [⟨"pitch", "value", "tone", "baseFrequency"⟩, ⟨"tone", "signal", "key", "signal"⟩,
    ⟨"tone", "signal", "show", "signal"⟩, ⟨"key", "signal", "out", "signal"⟩]
  comments := []

open Program Script in
theorem Document.performed_playedTone :
    ∃ program stage, ofDocument (α := Float) playedTone .standard = .ok program ∧
      Script.run ⟨48000.0, id⟩ program = some stage ∧
      stage.rack.families = [.gain, .dynamicsCompressor, .constantSource, .oscillator, .gain] := by
  let rank (id : NodeId) : Nat := ["pitch", "tone", "key", "show", "out"].idxOf id
  let rack : Rack Float := (Rack.new 48000.0).add (.gain 1.0)
  have hrefused : rack.refused = [] := rfl
  have hmaster : 0 < rack.primitives.size := by decide
  have hclean : (playedTone.toGraph (α := Float)).2.failed.isEmpty = true ∧
      (playedTone.toGraph (α := Float)).2.skipped.isEmpty = true := by decide +kernel
  have hup : ∀ c ∈ (playedTone.toGraph (α := Float)).1.connections,
      rank c.source < rank c.target := by decide +kernel
  have hheard : (playedTone.toGraph (α := Float)).1.heard.flatMap (·.kind.outfit) =
      [.constantSource, .oscillator, .gain] := by decide +kernel
  obtain ⟨-, -, program, stage, -, -, -, -, hprogram, hrun, -, hfamilies, -⟩ :=
    alike_of_program Prod.mk.eta.symm (List.isEmpty_iff.mp hclean.1)
      (List.isEmpty_iff.mp hclean.2) (fun id _ => Graph.not_feeds_self_of_rank hup id) hrefused
      hmaster ⟨2.0, 1⟩ ⟨48000.0, id⟩ .standard
  exact ⟨program, stage, hprogram, hrun, hfamilies.trans (congrArg _ hheard)⟩

end Patchbay
