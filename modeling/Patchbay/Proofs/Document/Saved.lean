import Patchbay.Proofs.Document.RoundTrip
import Patchbay.Proofs.Json.Keeping
import Patchbay.Proofs.Keyboard.Envelope
/-!
# Documents written and read back

A document whose data can be read and nest no deeper than the reader goes is read from its text as
itself, apart from the floats in it (`Document.ofText_toText`). The data of a reachable graph are
such: its records are ordered by key, and its values are texts, finite numbers and profiles of these
(`Panel.readable_toData`). So a graph can always be saved and loaded, and nothing but a float with a
long text can be another one afterwards (`Graph.loaded_saved`). One that is another
(`Graph.not_loaded_longConstant`) has seventeen digits, more than a float holds as an integer.
-/

namespace Patchbay

/-! ## Records of a document -/

namespace Document

open Json

theorem readNode_ofJson {n : NodeRecord} (h : n.data.Keepable 3) :
    readNode .text 2 (.ofJson (nodeToJson n)) = .ok n := by
  have hdata : (do return (⟨some n.id, some n.name, some (← keep .text 3 (.ofJson n.data))⟩ :
      NodeDraft)) = .ok ⟨some n.id, some n.name, some n.data⟩ :=
    bind_eq_ok.mpr ⟨n.data, keep_ofJson n.data h, rfl⟩
  refine bind_eq_ok.mpr
    ⟨⟨some n.id, some n.name, some n.data⟩, asRecord_text (by decide) ?_ rfl, rfl⟩
  refine (readEntriesInto_cons rfl rfl rfl _).trans ?_
  refine (readEntriesInto_cons rfl rfl rfl _).trans ?_
  exact readEntriesInto_cons rfl rfl hdata _

theorem readConnection_ofJson (c : Connection) :
    readConnection .text 2 (.ofJson (connectionToJson c)) = .ok c := rfl

/-- A list that is a member is read when each of its items is. -/
theorem read_listMember {σ β : Type} {name : String} {read : Nat → Outline → Except Fault β}
    {get : σ → Option (List β)} {put : σ → List β → σ} {depth : Nat} {items : List Json}
    {values : List β} (hdepth : depth < deepest) (partly : σ)
    (hitems : List.Forall₂ (fun item value => read (depth + 1) (.ofJson item) = .ok value) items
      values) : (listMember .text name read get put).read depth (.ofJson (.list items)) partly =
        .ok (put partly values) := by
  refine bind_eq_ok.mpr ⟨values, ?_, rfl⟩
  rw [Outline.ofJson, Outline.ofItems_eq_map]
  exact asList_text hdepth (List.forall₂_map_left_iff.mpr hitems)

theorem readComment_ofJson (c : Comment) :
    readComment .text 2 (.ofJson (commentToJson c)) = .ok c := by
  have hlinks : List.Forall₂ (fun item value => asText (.ofJson item) = .ok value)
      (c.links.map .text) c.links :=
    List.forall₂_map_left_iff.mpr (List.forall₂_same.mpr fun _ _ => rfl)
  refine bind_eq_ok.mpr ⟨⟨some c.id, some c.links, some c.text, some c.style⟩,
    asRecord_text (by decide) ?_ rfl, rfl⟩
  refine (readEntriesInto_cons rfl rfl rfl _).trans ?_
  refine (readEntriesInto_cons rfl rfl (read_listMember (by decide) _ hlinks) _).trans ?_
  refine (readEntriesInto_cons rfl rfl rfl _).trans ?_
  refine readEntriesInto_cons rfl rfl ?_ _
  cases c.style <;> rfl

/-- A document is read as it was written when the data of its nodes are kept. -/
theorem ofOutline_ofJson {d : Document} (h : ∀ n ∈ d.nodes, n.data.Keepable 3) :
    ofOutline .text (.ofJson d.toJson) = .ok d := by
  have hnodes : List.Forall₂ (fun item value => readNode .text 2 (.ofJson item) = .ok value)
      (d.nodes.map nodeToJson) d.nodes :=
    List.forall₂_map_left_iff.mpr (List.forall₂_same.mpr fun n hn => readNode_ofJson (h n hn))
  have hconnections : List.Forall₂
      (fun item value => readConnection .text 2 (.ofJson item) = .ok value)
      (d.connections.map connectionToJson) d.connections :=
    List.forall₂_map_left_iff.mpr (List.forall₂_same.mpr fun c _ => readConnection_ofJson c)
  have hcomments : List.Forall₂ (fun item value => readComment .text 2 (.ofJson item) = .ok value)
      (d.comments.map commentToJson) d.comments :=
    List.forall₂_map_left_iff.mpr (List.forall₂_same.mpr fun c _ => readComment_ofJson c)
  refine bind_eq_ok.mpr ⟨⟨some d.nodes, some d.connections, some d.comments⟩,
    asRecord_text (by decide) ?_ rfl, rfl⟩
  refine (readEntriesInto_cons rfl rfl (read_listMember (by decide) _ hnodes) _).trans ?_
  refine (readEntriesInto_cons rfl rfl (read_listMember (by decide) _ hconnections) _).trans ?_
  exact (readEntriesInto_cons rfl rfl (read_listMember (by decide) _ hcomments) _).trans rfl

/-- A document with every number as it is read back. -/
def reread (d : Document) : Document :=
  { d with nodes := d.nodes.map fun n => { n with data := n.data.reread } }

theorem reread_eq_self_iff (d : Document) :
    d.reread = d ↔ ∀ n ∈ d.nodes, ∀ x ∈ n.data.floats, rereadFloat x = x := by
  have hnode : ∀ n : NodeRecord, ({ n with data := n.data.reread } : NodeRecord) = n ↔
      n.data.reread = n.data := fun n => ⟨congrArg NodeRecord.data, fun h => by rw [h]⟩
  have hnodes : d.reread = d ↔
      (d.nodes.map fun n => { n with data := n.data.reread }) = d.nodes.map id := by
    rw [List.map_id]
    exact ⟨congrArg Document.nodes, fun h => by rw [reread, h]⟩
  rw [hnodes, List.map_inj_left]
  exact forall₂_congr fun n _ => (hnode n).trans (Json.reread_eq_self_iff n.data)

theorem reread_toJson (d : Document) : d.toJson.reread = d.reread.toJson := by
  have hnodes : (d.nodes.map nodeToJson).map Json.reread = d.reread.nodes.map nodeToJson := by
    rw [reread, List.map_map, List.map_map]
    rfl
  have hconnections : (d.connections.map connectionToJson).map Json.reread =
      d.connections.map connectionToJson := by
    rw [List.map_map]
    rfl
  have hcomments : (d.comments.map commentToJson).map Json.reread =
      d.comments.map commentToJson := by
    rw [List.map_map]
    refine List.map_congr_left fun c _ => ?_
    have hlinks : (c.links.map Json.text).map Json.reread = c.links.map Json.text := by
      rw [List.map_map]
      rfl
    rw [Function.comp_apply, commentToJson]
    simp only [Json.reread, rereadFields, rereadItems_eq_map, hlinks]
  simp only [toJson, Json.reread, rereadFields, rereadItems_eq_map, hnodes, hconnections, hcomments]
  rfl

theorem readable_toJson {d : Document} (h : ∀ n ∈ d.nodes, n.data.Readable) :
    d.toJson.Readable := by
  have hnodes : ItemsReadable (d.nodes.map nodeToJson) :=
    itemsReadable_iff.mpr (List.forall_mem_map.mpr fun n hn => ⟨trivial, trivial, h n hn, trivial⟩)
  have hconnections : ItemsReadable (d.connections.map connectionToJson) :=
    itemsReadable_iff.mpr (List.forall_mem_map.mpr fun c _ =>
      ⟨trivial, trivial, trivial, trivial, trivial⟩)
  have hcomments : ItemsReadable (d.comments.map commentToJson) :=
    itemsReadable_iff.mpr (List.forall_mem_map.mpr fun c _ =>
      ⟨trivial, itemsReadable_iff.mpr (List.forall_mem_map.mpr fun _ _ => trivial), trivial,
        trivial, trivial⟩)
  exact ⟨hnodes, hconnections, hcomments, trivial⟩

/-- The text of a document is read as the document. -/
theorem ofText_toText {d : Document} (hread : ∀ n ∈ d.nodes, n.data.Readable)
    (hkeep : ∀ n ∈ d.nodes, n.data.Keepable 3) : ofText d.toText = .ok d.reread := by
  have hkept : ∀ n ∈ d.reread.nodes, n.data.Keepable 3 :=
    List.forall_mem_map.mpr fun n hn => Keepable.reread n.data (hkeep n hn)
  rw [ofText, toText, outline_pretty (readable_toJson hread), reread_toJson]
  exact bind_eq_ok.mpr ⟨d.reread, ofOutline_ofJson hkept, rfl⟩

end Document

/-! ## Graphs -/

/-- The numbers of a profile that can be played are finite. -/
theorem Profile.readable_toJson {p : Profile Float} (h : p.fault? = none) :
    p.toJson.Readable ∧ p.toJson.Keepable 4 := by
  obtain ⟨hfinite, -⟩ := Profile.fault?_eq_none_iff.mp h
  have hfields : ∀ field ∈ Profile.names.zip (p.toList.map fun v => Json.number (.float v)),
      ∃ x : Float, field.2 = .number (.float x) ∧ x.isFinite = true := by
    intro field hfield
    obtain ⟨x, hx, heq⟩ := List.mem_map.mp (List.of_mem_zip hfield).2
    refine ⟨x, heq.symm, ?_⟩
    simp only [Profile.levels, Profile.lengths, List.cons_append, List.nil_append,
      List.forall_mem_cons] at hfinite
    simp only [Profile.toList, List.mem_cons, List.not_mem_nil, or_false] at hx
    rcases hx with rfl | rfl | rfl | rfl | rfl | rfl | rfl <;> tauto
  refine ⟨Json.readable_ofFields fun field hfield => ?_,
    Json.keepable_ofFields (by decide) fun field hfield => ?_⟩
  · obtain ⟨x, heq, hx⟩ := hfields field hfield
    rw [heq]
    exact hx
  · obtain ⟨x, heq, -⟩ := hfields field hfield
    rw [heq]
    trivial

namespace Control

theorem Value.readable_numberToJson {x : Float} (hx : x.isFinite = true) :
    (numberToJson x).Readable ∧ ∀ {depth}, (numberToJson x).Keepable depth := by
  unfold numberToJson
  split
  next n _ =>
    split
    next hn =>
      have hbound : 9 * Nat.pow 10 15 < 2 ^ 63 := by decide
      exact ⟨⟨by omega, by omega⟩, trivial⟩
    next => exact ⟨hx, trivial⟩
  next =>
    rw [if_pos hx]
    exact ⟨hx, trivial⟩

/-- What an accepted value is written as can be read and is kept. -/
theorem Domain.readable_toJson {d : Domain Float} {v : Value Float} (h : d.Accepts v) :
    v.toJson.Readable ∧ v.toJson.Keepable 4 := by
  cases v with
  | number x =>
    cases d with
    | number standard range =>
      obtain ⟨hread, hkeep⟩ := Value.readable_numberToJson (accepts_number_iff.mp h).1
      exact ⟨hread, hkeep⟩
    | choice | key | profile => cases h
  | choice name => exact ⟨trivial, trivial⟩
  | profile p =>
    cases d with
    | profile =>
      have hfault : p.fault? = none := Option.map_eq_none_iff.mp (accepts_iff.mp h)
      exact Profile.readable_toJson hfault
    | number | choice | key => cases h

end Control

theorem Panel.readable_toData {p : Panel Float} (h : p.Accepted) :
    p.toData.Readable ∧ p.toData.Keepable 3 := by
  have hfields : ∀ field ∈ ((p.kind.controls (α := Float)).map (·.key)).zip
      (p.values.map Control.Value.toJson), field.2.Readable ∧ field.2.Keepable 4 := by
    intro field hfield
    obtain ⟨v, hv, heq⟩ := List.mem_map.mp (List.of_mem_zip hfield).2
    obtain ⟨c, -, haccepts⟩ := exists_of_mem_forall₂ h.flip hv
    rw [← heq]
    exact Control.Domain.readable_toJson haccepts
  rw [toData_eq]
  exact ⟨Json.readable_ofFields fun field hfield => (hfields field hfield).1,
    Json.keepable_ofFields (by decide) fun field hfield => (hfields field hfield).2⟩

namespace Graph

variable {g : Graph Float}

/-- The text of an exported graph is read. -/
theorem ofText_toDocument (h : g.Reachable) :
    Document.ofText g.toDocument.toText = .ok g.toDocument.reread := by
  have hpanels : ∀ n ∈ g.toDocument.nodes, n.data.Readable ∧ n.data.Keepable 3 :=
    List.forall_mem_map.mpr fun n hn => Panel.readable_toData (h.sound.panels n hn)
  exact Document.ofText_toText (fun n hn => (hpanels n hn).1) fun n hn => (hpanels n hn).2

/-- A graph that is saved as text can be loaded, and nothing but a float can be another one
afterwards. The document is the one that was saved exactly when each of its floats is read as
itself, as those with a brief text are. -/
theorem loaded_saved (h : g.Reachable) : ∃ d, Document.ofText g.toDocument.toText = .ok d ∧
    d = g.toDocument.reread ∧
    (d = g.toDocument ↔
      ∀ n ∈ g.toDocument.nodes, ∀ x ∈ n.data.floats, Json.rereadFloat x = x) ∧
    ((∀ n ∈ g.toDocument.nodes, ∀ x ∈ n.data.floats, Json.isBrief x = true) →
      d = g.toDocument) := by
  refine ⟨_, ofText_toDocument h, rfl, Document.reread_eq_self_iff _, fun hbrief => ?_⟩
  exact (Document.reread_eq_self_iff _).mpr fun n hn x hx =>
    Json.rereadFloat_of_isBrief (hbrief n hn x hx)

/-- A constant with seventeen digits. -/
def longConstant : Graph Float :=
  empty.run [.addNode .constant, .setControl "n1" "value" (.number 1.6500000000000001)]

/-- A constant with two decimal places, and the brief text it is saved as. -/
def briefConstant : Graph Float :=
  empty.run [.addNode .constant, .setControl "n1" "value" (.number 1.65)]

theorem loaded_briefConstant : briefConstant.Reachable ∧
    Document.ofText briefConstant.toDocument.toText = .ok briefConstant.toDocument := by
  have hg : briefConstant.Reachable := ⟨_, rfl⟩
  obtain ⟨d, hread, -, -, hbrief⟩ := loaded_saved hg
  have hfloats : ∀ n ∈ briefConstant.toDocument.nodes, ∀ x ∈ n.data.floats,
      Json.isBrief x = true := by decide +kernel
  rw [hbrief hfloats] at hread
  exact ⟨hg, hread⟩

/-- The constant is another one when it is loaded. -/
theorem not_loaded_longConstant : longConstant.Reachable ∧
    ∃ d, Document.ofText longConstant.toDocument.toText = .ok d ∧ d ≠ longConstant.toDocument ∧
      longConstant.toDocument.nodes.map (·.data.floats) = [[1.6500000000000001]] ∧
      d.nodes.map (·.data.floats) = [[1.65]] := by
  have hg : longConstant.Reachable := ⟨_, rfl⟩
  refine ⟨hg, _, ofText_toDocument hg, fun hsame => ?_, by decide +kernel, by decide +kernel⟩
  rw [Document.reread_eq_self_iff] at hsame
  revert hsame
  decide +kernel

end Graph

end Patchbay
