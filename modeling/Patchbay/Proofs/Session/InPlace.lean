import Patchbay.Proofs.Graph.InPlace
import Patchbay.Proofs.Session.Calls
import Patchbay.Proofs.Session.Origin
/-!
# Edits of sessions in place

A session edits its graph in place and then, if the edit can be heard, asks for a rebuild
(`Attended.edit`). When the edit is refused the session is as it was, and nothing was asked for.
When it is not, one rebuild was asked for, or none if the edit is of comments
(`Observed.edit_or_unchanged`).
-/

namespace Patchbay

open InPlace

namespace Session

variable {α : Type} [Scalar α]

/-- A session that is worked on, and how often it was asked for a rebuild. -/
structure Attended (α : Type) where
  session : Session α
  requests : Nat

namespace Attended

/-- Works on the graph of a session. -/
def onGraph {β : Type} (w : Graph.Work α β) : InPlace (Attended α) β := do
  let (result, graph) := w.on (← get).session.graph
  modify fun a => { a with session := { a.session with graph } }
  match result with
  | .ok b => return b
  | .error halt => throw halt

/-- Asks for a rebuild. -/
def requestRebuild : InPlace (Attended α) Unit :=
  modify fun a => ⟨a.session.requestRebuild, a.requests + 1⟩

/-- An edit of the graph of a session, carried out in place. -/
def edit (e : Graph.Edit α) : InPlace (Attended α) (Graph.Answer α) := do
  let answer ← onGraph e.work
  if e.audible then requestRebuild
  return answer

omit [Scalar α] in
@[simp]
theorem on_onGraph {β : Type} (w : Graph.Work α β) (a : Attended α) :
    (onGraph w).on a = ((w.on a.session.graph).1,
      { a with session := { a.session with graph := (w.on a.session.graph).2 } }) := by
  unfold onGraph
  simp only [on_bind, on_get, on_modify]
  cases (w.on a.session.graph).1 <;> rfl

end Attended

/-- In place, an edit is made as a whole and a rebuild asked for if it can be heard, or nothing is
done. -/
theorem on_edit {s : Session α} (hs : s.graph.Sound) (e : Graph.Edit α) (n : Nat) :
    (Attended.edit e).on ⟨s, n⟩ = allOrNothing ⟨s, n⟩ ((s.graph.answer e).map fun (a, g) =>
      (a, ⟨s.edited e g, n + if e.audible then 1 else 0⟩)) := by
  unfold Attended.edit edited Attended.requestRebuild
  rw [on_bind, Attended.on_onGraph, hs.work_eq]
  rcases s.graph.answer e with fault | ⟨a, g⟩
  · rfl
  · cases e.audible <;> rfl

namespace Observed

variable [StandardsAccepted α]

/-- An edit that is refused, of a graph or of a session, leaves everything as it was. One that is
not refused leaves the graph that it gives, and in a session nothing else changes but the scheduler,
which was asked for one rebuild if the edit can be heard and for none if it cannot. -/
theorem edit_or_unchanged :
    (∀ g : Graph α, g.Reachable → ∀ e : Graph.Edit α,
      (∀ halt left, e.work.on g = (.error halt, left) →
        (∃ fault, halt = .refused fault ∧ g.answer e = .error fault) ∧ left = g) ∧
      ∀ a left, e.work.on g = (.ok a, left) → g.answer e = .ok (a, left) ∧ left = g.edit e) ∧
    ∀ o : Observed α, o.Reachable → ∀ c e, c.edit? = some e → ∀ n,
      (∀ halt left, (Attended.edit e).on ⟨o.session, n⟩ = (.error halt, left) →
        (∃ fault, halt = .refused fault ∧ o.session.answer? c = some (.error fault)) ∧
        left = ⟨o.session, n⟩ ∧ o.session.call c = o.session) ∧
      ∀ a left, (Attended.edit e).on ⟨o.session, n⟩ = (.ok a, left) →
        o.session.answer? c = some (.ok (a, left.session)) ∧
        left.session = o.session.call c ∧
        left.requests = n + (if e.audible then 1 else 0) ∧
        left.session = { o.session with
          graph := o.session.graph.edit e
          scheduler :=
            if e.audible then o.session.scheduler.request.2 else o.session.scheduler } := by
  refine ⟨fun g hg e => ?_, fun o ho c e hedit n => ?_⟩
  · rw [hg.sound.work_eq]
    refine ⟨fun halt left hleft => ?_, fun a left hleft => ?_⟩
    · obtain ⟨fault, hfault, rfl, rfl⟩ := allOrNothing_eq_error.mp hleft
      exact ⟨⟨fault, rfl, hfault⟩, rfl⟩
    · have hgiven := allOrNothing_eq_ok.mp hleft
      refine ⟨hgiven, ?_⟩
      rw [← Graph.outcome_answer, hgiven]
      rfl
  · obtain ⟨rack, settings, s, events, hnew, rfl⟩ := ho
    have hanswer := (run ⟨s, none, false⟩ events).session.answer?_eq hedit
    have hcall := (run ⟨s, none, false⟩ events).session.call_of_answer? hanswer
    have hgraph := (run ⟨s, none, false⟩ events).session.graph.outcome_answer e
    rw [on_edit (sound_of_new hnew events)]
    -- of what led to the session, no more is used than that its graph is sound
    generalize (run ⟨s, none, false⟩ events).session = s at hanswer hcall hgraph ⊢
    rw [hanswer, hcall]
    rcases hgiven : s.graph.answer e with fault | ⟨a, g⟩
    · refine ⟨fun halt left hleft => ?_, fun a left hleft => (by cases hleft)⟩
      cases hleft
      exact ⟨⟨fault, rfl, rfl⟩, rfl, rfl⟩
    · refine ⟨fun halt left hleft => (by cases hleft), fun a left hleft => ?_⟩
      cases hleft
      rw [hgiven] at hgraph
      exact ⟨rfl, rfl, rfl, hgraph ▸ s.edited_eq e g⟩

/-- An oscillator is added. -/
def addedTone : List (Event Float) := [.call (.addNode .oscillator)]

/-- A node that is not there cannot be removed, and a word is no frequency. A comment asks for no
rebuild, and removing the oscillator asks for one. -/
theorem unchanged_addedTone : ∃ s, Session.new (Rack.new 48000.0) {} = .ok s ∧
    let now := (run ⟨s, none, false⟩ addedTone).session
    (∃ fault, (Graph.Edit.removeNode "n2").work.on now.graph =
      (.error (.refused fault), now.graph)) ∧
    (∃ fault, (Attended.edit (.setControl "n1" "baseFreq" (.choice "high"))).on ⟨now, 0⟩ =
      (.error (.refused fault), ⟨now, 0⟩)) ∧
    (∃ a left, (Attended.edit (.addComment "a tone" .inline ["n1"])).on ⟨now, 0⟩ = (.ok a, left) ∧
      left.requests = 0) ∧
    ∃ a left, (Attended.edit (.removeNode "n1")).on ⟨now, 0⟩ = (.ok a, left) ∧
      left.requests = 1 := by
  obtain ⟨s, hs⟩ : ∃ s, Session.new (Rack.new 48000.0) {} = .ok s := ⟨_, rfl⟩
  refine ⟨s, hs, ?_⟩
  have ho : (run ⟨s, none, false⟩ addedTone).Reachable := ⟨_, _, s, addedTone, hs, rfl⟩
  have hg : (run ⟨s, none, false⟩ addedTone).session.graph.Reachable := by
    cases hs
    exact ⟨[.addNode .oscillator], rfl⟩
  obtain ⟨hgraph, hsession⟩ := edit_or_unchanged (α := Float)
  refine ⟨?_, ?_, ?_, ?_⟩
  · obtain ⟨halt, left, hleft⟩ : ∃ halt left, (Graph.Edit.removeNode "n2").work.on
        (run ⟨s, none, false⟩ addedTone).session.graph = (.error halt, left) := by
      cases hs
      exact ⟨_, _, rfl⟩
    obtain ⟨⟨fault, rfl, -⟩, rfl⟩ := (hgraph _ hg _).1 halt left hleft
    exact ⟨fault, hleft⟩
  · obtain ⟨halt, left, hleft⟩ : ∃ halt left, (Attended.edit
        (.setControl "n1" "baseFreq" (.choice "high"))).on
        ⟨(run ⟨s, none, false⟩ addedTone).session, 0⟩ = (.error halt, left) := by
      cases hs
      exact ⟨_, _, rfl⟩
    obtain ⟨⟨fault, rfl, -⟩, rfl, -⟩ :=
      (hsession _ ho (.setControl _ _ _) _ rfl 0).1 halt left hleft
    exact ⟨fault, hleft⟩
  · obtain ⟨a, left, hleft⟩ : ∃ a left, (Attended.edit
        (.addComment "a tone" .inline ["n1"])).on
        ⟨(run ⟨s, none, false⟩ addedTone).session, 0⟩ = (.ok a, left) := by
      cases hs
      exact ⟨_, _, rfl⟩
    exact ⟨a, left, hleft,
      ((hsession _ ho (.addComment _ _ _) _ rfl 0).2 a left hleft).2.2.1⟩
  · obtain ⟨a, left, hleft⟩ : ∃ a left, (Attended.edit (.removeNode "n1")).on
        ⟨(run ⟨s, none, false⟩ addedTone).session, 0⟩ = (.ok a, left) := by
      cases hs
      exact ⟨_, _, rfl⟩
    exact ⟨a, left, hleft, ((hsession _ ho (.removeNode _) _ rfl 0).2 a left hleft).2.2.1⟩

end Observed

end Session

end Patchbay
