import Patchbay.Proofs.Patch.Atomic
import Patchbay.Proofs.Session.Playing
/-!
# What automation leaves alone

Keys, live changes and the master fade schedule cues. Whatever is scheduled, and on whatever
primitive, only the courses of parameters change: what the primitives are made with, what they are
patched into, and whether they have been started, stopped or released is as before
(`Rack.Automated`). No call of a session does more to the primitives (`Session.automated_call`).
-/

namespace Patchbay

variable {α : Type}

/-- A primitive without the courses of its parameters. -/
def Primitive.fixed (p : Primitive α) : Primitive α := { p with timelines := [] }

namespace Rack

/-- The primitives differ in the courses of their parameters at most. -/
def Automated (rack rack' : Rack α) : Prop :=
  rack'.primitives.toList.map Primitive.fixed = rack.primitives.toList.map Primitive.fixed

namespace Automated

variable {rack rack' rack'' : Rack α}

theorem of_primitives (h : rack'.primitives = rack.primitives) : Automated rack rack' := by
  unfold Automated
  rw [h]

theorem refl (rack : Rack α) : Automated rack rack := rfl

theorem trans (h : Automated rack rack') (h' : Automated rack' rack'') : Automated rack rack'' :=
  Eq.trans h' h

theorem of_update (rack : Rack α) (id : PrimitiveId) {f : Primitive α → Primitive α}
    (hf : ∀ p, (f p).fixed = p.fixed) : Automated rack (rack.update id f) := by
  refine List.ext_getElem? fun i => ?_
  simp only [update, List.getElem?_map, Array.getElem?_toList, Array.getElem?_modify]
  split
  next => rw [Option.map_map]; exact Option.map_congr fun p _ => hf p
  next => rfl

/-- Automating one thing after another. -/
theorem foldl {τ : Type} {f : Rack α → τ → Rack α} (hf : ∀ rack x, Automated rack (f rack x))
    (l : List τ) (rack : Rack α) : Automated rack (l.foldl f rack) := by
  induction l generalizing rack with
  | nil => exact .refl rack
  | cons x l ih => exact (hf rack x).trans (ih (f rack x))

/-- All but the courses can be looked up as before. -/
theorem fixed_eq (h : Automated rack rack') (id : PrimitiveId) :
    (rack'.primitive? id).map (·.fixed) = (rack.primitive? id).map (·.fixed) := by
  have hplace := congrArg (·[id]?) h
  simpa only [primitive?, List.getElem?_map, Array.getElem?_toList] using hplace

theorem size_eq (h : Automated rack rack') : rack'.primitives.size = rack.primitives.size := by
  simpa using congrArg List.length h

theorem families_eq (h : Automated rack rack') : rack'.families = rack.families := by
  have hfamilies := congrArg (List.map Primitive.family) h
  rwa [List.map_map, List.map_map] at hfamilies

theorem exists_primitive? (h : Automated rack rack') {id : PrimitiveId} {p : Primitive α}
    (hp : rack'.primitive? id = some p) :
    ∃ q, rack.primitive? id = some q ∧ p.fixed = q.fixed := by
  have hfixed := h.fixed_eq id
  rw [hp] at hfixed
  obtain ⟨q, hq, hsame⟩ := Option.map_eq_some_iff.mp hfixed.symm
  exact ⟨q, hq, hsame.symm⟩

variable [Scalar α]

theorem schedule (rack : Rack α) (dial : Dial) (cue : Cue α) :
    Automated rack (rack.schedule dial cue) :=
  of_update rack dial.primitive fun _ => rfl

theorem rampTo (rack : Rack α) (dial : Dial) (value duration : α) :
    Automated rack (rack.rampTo dial value duration) :=
  (schedule rack dial _).trans (schedule _ dial _)

end Automated

end Rack

/-! ## Keys -/

namespace Keyboard

variable [Scalar α]

theorem automated_onVoices (kb : Keyboard α) (cues : Profile α → α → α → List (Cue α)) (key : Key)
    (rack : Rack α) : rack.Automated (kb.onVoices cues key rack) := by
  unfold onVoices Envelope.schedule
  exact .foldl (fun rack (voice : Voice) =>
    .foldl (fun rack cue => .schedule rack voice.gain cue) _ rack) _ rack

theorem automated_letGoAll (kb : Keyboard α) (rack : Rack α) (keys : List Key) :
    rack.Automated (kb.letGoAll rack keys).2 := by
  induction keys generalizing kb rack with
  | nil => exact .refl rack
  | cons key keys ih =>
    exact (kb.automated_onVoices Envelope.release key rack).trans
      (ih (kb.setState key .idle) (kb.onVoices Envelope.release key rack))

theorem automated_down (kb : Keyboard α) (rack : Rack α) (code : String) (shift : Bool) :
    rack.Automated (kb.down rack code shift).2.2 := by
  unfold down
  split
  next => exact kb.automated_onVoices _ _ rack
  next => exact .refl rack

theorem automated_up (kb : Keyboard α) (rack : Rack α) (code : String) (shift : Bool) :
    rack.Automated (kb.up rack code shift).2 := by
  unfold up
  split
  next =>
    split
    next => exact .refl rack
    next => exact kb.automated_onVoices _ _ rack
  next =>
    split
    next => exact .refl rack
    next => exact automated_letGoAll _ rack _

end Keyboard

/-! ## Calls -/

namespace Session

variable [Scalar α]

/-- Whatever a call does to the primitives is automation. -/
theorem automated_call (s : Session α) {c : Call α} (hc : c.Spares) :
    s.mixer.rack.Automated (s.call c).mixer.rack := by
  cases hedit : c.edit? with
  | some e =>
    obtain ⟨scheduler, hcall⟩ := s.call_of_edit hedit
    rw [hcall]
    exact .refl _
  | none =>
    cases c with
    | addNode | removeNode | connect | disconnect | setControl | importDocument
    | addComment | removeComment | setCommentText => cases hedit
    | setPlaying | requestRebuild | setTime => exact .refl _
    | updateLive id key value =>
      show s.mixer.rack.Automated (s.outcome _).mixer.rack
      cases hcalled : s.updateLive id key value with
      | error fault => exact .refl _
      | ok updated =>
        rcases updateLive_cases hcalled with ⟨hsame, -⟩ | ⟨_, knob, v, -, -, -, hmoved⟩
        · show s.mixer.rack.Automated updated.2.mixer.rack
          rw [hsame]
          exact .refl _
        · show s.mixer.rack.Automated updated.2.mixer.rack
          rw [hmoved]
          exact .rampTo _ knob.dial v _
    | keyDown code shift => exact s.keyboard.automated_down s.mixer.rack code shift
    | keyUp code shift => exact s.keyboard.automated_up s.mixer.rack code shift
    | changeRack f => exact .of_primitives (hc s.mixer.rack)

end Session

end Patchbay
