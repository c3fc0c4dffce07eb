import Patchbay.Proofs.Graph.Reachable
import Patchbay.Proofs.Session.History
/-!
# What calls do

Most calls edit the graph. Such a call gives what the edit of the graph gives, and asks for a
rebuild if the edit can be heard (`Session.answer?_eq`); all else in the session stays as it is
(`Session.call_of_edit`). The others leave the graph alone (`Session.graph_call`). A live change, if
it does anything, moves a knob of what sounds (`Session.updateLive_cases`).
-/

namespace Patchbay.Session

variable {α : Type} [Scalar α] {s s' : Session α}

/-! ## Live changes -/

/-- A live change moves a knob of what sounds, or does nothing. -/
theorem updateLive_cases {id : NodeId} {key : String} {value : α} {update : LiveUpdate α}
    (h : s.updateLive id key value = .ok (update, s')) :
    (s' = s ∧ ∀ v, update ≠ .applied v) ∨
      ∃ node knob v, s.graph.node? id = some node ∧ s.knob? id key = some knob ∧
        update = .applied v ∧
        s' = s.mapRack (·.rampTo knob.dial v (Scalar.ofMilliseconds s.settings.ramp)) := by
  unfold updateLive at h
  split at h
  next => cases h
  next node hnode =>
    obtain ⟨control, -, h⟩ := bind_eq_ok.mp h
    split at h
    next => cases h; exact Or.inl ⟨rfl, fun v hv => by cases hv⟩
    next =>
      split at h
      next => cases h; exact Or.inl ⟨rfl, fun v hv => by cases hv⟩
      next knob hknob => cases h; exact Or.inr ⟨node, knob, _, hnode, hknob, rfl, rfl⟩

omit [Scalar α] in
/-- A knob is found on a part of the node in what sounds. -/
theorem exists_part_of_knob? {id : NodeId} {key : String} {knob : Knob α}
    (h : s.knob? id key = some knob) :
    ∃ patch part, s.live = some patch ∧ (id, part) ∈ patch.parts ∧ knob ∈ part.knobs := by
  simp only [knob?, Option.bind_eq_bind, Option.bind_eq_some_iff] at h
  obtain ⟨patch, hlive, part, hpart, hknob⟩ := h
  obtain ⟨entry, hentry, rfl⟩ := Option.map_eq_some_iff.mp hpart
  have hid : entry.1 = id := by simpa using List.find?_some hentry
  exact ⟨patch, entry.2, hlive, hid ▸ List.mem_of_find?_eq_some hentry,
    List.mem_of_find?_eq_some hknob⟩

/-! ## Edits -/

/-- The edit that a call makes. -/
def Call.edit? : Call α → Option (Graph.Edit α)
  | .addNode kind => some (.addNode kind)
  | .removeNode id => some (.removeNode id)
  | .connect c => some (.connect c)
  | .disconnect c => some (.disconnect c)
  | .setControl id key value => some (.setControl id key value)
  | .importDocument d => some (.importDocument d)
  | .addComment text style links => some (.addComment text style links)
  | .removeComment id => some (.removeComment id)
  | .setCommentText id text => some (.setCommentText id text)
  | .setPlaying _ | .requestRebuild | .updateLive _ _ _ | .keyDown _ _ | .keyUp _ _
  | .changeRack _ | .setTime _ => none

/-- A session with an edited graph, a rebuild being asked for if the edit can be heard. -/
def edited (s : Session α) (e : Graph.Edit α) (g : Graph α) : Session α :=
  if e.audible then s.withGraph g else { s with graph := g }

theorem edited_eq (s : Session α) (e : Graph.Edit α) (g : Graph α) :
    s.edited e g = { s with
      graph := g
      scheduler := if e.audible then s.scheduler.request.2 else s.scheduler } := by
  unfold edited
  cases e.audible <;> rfl

/-- What a call that edits the graph gives. -/
def answer? (s : Session α) : Call α → Option (Except Graph.SetFault (Graph.Answer α × Session α))
  | .addNode kind => some (.ok (.named (s.addNode kind).1, (s.addNode kind).2))
  | .removeNode id => some (((s.removeNode id).mapError .graph).map fun (n, s) => (.node n, s))
  | .connect c => some (((s.connect c).mapError .graph).map (.done, ·))
  | .disconnect c => some (((s.disconnect c).mapError .graph).map (.done, ·))
  | .setControl id key value => some ((s.setControl id key value).map (.done, ·))
  | .importDocument d => some (.ok (.report (s.importDocument d).1, (s.importDocument d).2))
  | .addComment text style links =>
    some (.ok (.named (s.addComment text style links).1, (s.addComment text style links).2))
  | .removeComment id =>
    some (((s.removeComment id).mapError .graph).map fun (c, s) => (.comment c, s))
  | .setCommentText id text => some (((s.setCommentText id text).mapError .graph).map (.done, ·))
  | .setPlaying _ | .requestRebuild | .updateLive _ _ _ | .keyDown _ _ | .keyUp _ _
  | .changeRack _ | .setTime _ => none

/-- A call gives what its edit gives, with the session around it. -/
theorem answer?_eq (s : Session α) {c : Call α} {e : Graph.Edit α} (h : c.edit? = some e) :
    s.answer? c = some ((s.graph.answer e).map fun (a, g) => (a, s.edited e g)) := by
  cases c with
  | addNode | importDocument | addComment =>
    cases h
    rfl
  | removeNode id =>
    cases h
    simp only [answer?, removeNode, Graph.answer]
    rcases s.graph.removeNode id with _ | ⟨_, _⟩ <;> rfl
  | connect c =>
    cases h
    simp only [answer?, connect, Graph.answer]
    cases s.graph.connect c <;> rfl
  | disconnect c =>
    cases h
    simp only [answer?, disconnect, Graph.answer]
    cases s.graph.disconnect c <;> rfl
  | setControl id key value =>
    cases h
    simp only [answer?, setControl, Graph.answer]
    cases s.graph.setControl id key value <;> rfl
  | removeComment id =>
    cases h
    simp only [answer?, removeComment, Graph.answer]
    rcases s.graph.removeComment id with _ | ⟨_, _⟩ <;> rfl
  | setCommentText id text =>
    cases h
    simp only [answer?, setCommentText, Graph.answer]
    cases s.graph.setCommentText id text <;> rfl
  | setPlaying | requestRebuild | updateLive | keyDown | keyUp | changeRack | setTime => cases h

/-- A call leaves the session that its answer gives, or the session that was there. -/
theorem call_of_answer? (s : Session α) {c : Call α}
    {given : Except Graph.SetFault (Graph.Answer α × Session α)} (h : s.answer? c = some given) :
    s.call c = s.outcome (given.map (·.2)) := by
  cases c with
  | addNode | importDocument | addComment =>
    cases h
    rfl
  | removeNode id =>
    cases h
    simp only [call]
    rcases s.removeNode id with _ | ⟨_, _⟩ <;> rfl
  | connect c =>
    cases h
    simp only [call]
    cases s.connect c <;> rfl
  | disconnect c =>
    cases h
    simp only [call]
    cases s.disconnect c <;> rfl
  | setControl id key value =>
    cases h
    simp only [call]
    cases s.setControl id key value <;> rfl
  | removeComment id =>
    cases h
    simp only [call]
    rcases s.removeComment id with _ | ⟨_, _⟩ <;> rfl
  | setCommentText id text =>
    cases h
    simp only [call]
    cases s.setCommentText id text <;> rfl
  | setPlaying | requestRebuild | updateLive | keyDown | keyUp | changeRack | setTime => cases h

/-- A call that makes an edit changes nothing but the graph and the scheduler. -/
theorem call_of_edit (s : Session α) {c : Call α} {e : Graph.Edit α} (h : c.edit? = some e) :
    ∃ scheduler, s.call c = { s with graph := s.graph.edit e, scheduler } := by
  have hgraph := s.graph.outcome_answer e
  rw [s.call_of_answer? (s.answer?_eq h)]
  rcases hgiven : s.graph.answer e with fault | ⟨a, g⟩
  · rw [hgiven] at hgraph
    exact ⟨s.scheduler, hgraph ▸ rfl⟩
  · rw [hgiven] at hgraph
    exact ⟨if e.audible then s.scheduler.request.2 else s.scheduler, hgraph ▸ s.edited_eq e g⟩

theorem graph_call (s : Session α) (c : Call α) :
    (s.call c).graph = s.graph.run c.edit?.toList := by
  cases hedit : c.edit? with
  | some e =>
    obtain ⟨scheduler, hcall⟩ := s.call_of_edit hedit
    rw [hcall]
    rfl
  | none =>
    cases c with
    | addNode | removeNode | connect | disconnect | setControl | importDocument
    | addComment | removeComment | setCommentText => cases hedit
    | setPlaying | requestRebuild | keyDown | keyUp | changeRack | setTime => rfl
    | updateLive id key value =>
      show (s.outcome _).graph = s.graph
      cases hcalled : s.updateLive id key value with
      | error fault => rfl
      | ok updated =>
        rcases updateLive_cases hcalled with ⟨hsame, -⟩ | ⟨_, _, _, -, -, -, hmoved⟩
        · exact congrArg Session.graph hsame
        · exact (congrArg Session.graph hmoved).trans rfl

end Patchbay.Session
