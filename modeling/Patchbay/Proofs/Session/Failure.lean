import Patchbay.Proofs.Patch.Frame
import Patchbay.Proofs.Session.Playing
/-!
# Rebuilds that fail

A rebuild whose graph cannot be built ends at the checkpoint at which it begins. Wherever the
building stopped and whatever it had patched into the master chain by then, what sounds, the keys
and every primitive that was there are as before; what was created for it is released; and all else
that changed is that the failure is on record and the scheduler goes on (`Observed.step_of_fault`).
-/

namespace Patchbay

variable {α : Type} [Scalar α]

/-- Building changes a mixer by adding primitives to its rack. -/
theorem Mixer.build_mixer (m : Mixer α) (g : Graph α) (voicing : Voicing α) :
    (m.build g voicing).2.1 = { m with rack := { m.rack with
      primitives := (m.build g voicing).2.1.rack.primitives } } := by
  have hextends : m.rack.Extends (m.build g voicing).2.1.rack := Graph.extends_build
  show ({ m with rack := (m.build g voicing).2.1.rack } : Mixer α) = _
  rw [← hextends.rest]

namespace Session

/-- A session of which a rebuild has begun and failed. -/
def failed (s : Session α) (fault : Patch.Fault) : Session α :=
  { s with mixer := (s.mixer.build s.graph .empty).2.1 }.conclude s.scheduler.passes (.error fault)

theorem begin_of_fault {s : Session α} {fault : Patch.Fault}
    (h : (s.mixer.build s.graph .empty).1 = .error fault) : s.begin = s.failed fault := by
  rcases s.begin_cases with ⟨fault', hfault, hbegin⟩ | ⟨patch, hpatch, -⟩
  · rw [h] at hfault
    cases hfault
    exact hbegin
  · rw [h] at hpatch
    cases hpatch

/-- When a rebuild is due and its graph cannot be built, the checkpoint at which it begins leaves
everything as it was but for three things: the failure is reported, the scheduler goes on, and the
rack has further primitives. Those that were there are unchanged, and those that were added are
released and patched into nothing. -/
theorem Observed.step_of_fault {o : Observed α} {fault : Patch.Fault}
    (hpass : o.session.pass = none) (hbusy : o.session.scheduler.isBusy = true)
    (hfault : (o.session.mixer.build o.session.graph .empty).1 = .error fault) :
    (o.step .checkpoint).session = { o.session with
      mixer := { o.session.mixer with rack := { o.session.mixer.rack with
        primitives := (o.step .checkpoint).session.mixer.rack.primitives } }
      scheduler := o.session.scheduler.complete.2
      reports := o.session.reports ++ [⟨o.session.scheduler.passes, .error fault⟩] } ∧
    o.session.mixer.rack.primitives.size ≤
      (o.step .checkpoint).session.mixer.rack.primitives.size ∧
    (∀ id < o.session.mixer.rack.primitives.size,
      (o.step .checkpoint).session.mixer.rack.primitive? id =
        o.session.mixer.rack.primitive? id) ∧
    ∀ id p, o.session.mixer.rack.primitives.size ≤ id →
      (o.step .checkpoint).session.mixer.rack.primitive? id = some p →
      p.released = true ∧ p.outputs = [] := by
  have hstep : (o.step .checkpoint).session = o.session.failed fault := by
    simp only [step, upcoming?, hpass, hbusy, if_true, begin_of_fault hfault]
  have hextends : o.session.mixer.rack.Extends (o.session.failed fault).mixer.rack :=
    Graph.extends_build
  rw [hstep]
  refine ⟨?_, hextends.size, hextends.kept, fun id p hid hp => ?_⟩
  · have hmixer := o.session.mixer.build_mixer o.session.graph .empty
    show Session.conclude _ _ _ = _
    unfold conclude
    dsimp only
    rw [hmixer, hpass]
    rfl
  · exact Graph.released_of_build hfault hid hp

/-- A tone goes through a key that is held down; then a gain that feeds itself is connected to what
is heard, and a rebuild is due. -/
def heldAndLooped (s : Session Float) : Observed Float :=
  Observed.run ⟨s, none, false⟩ <|
    [.call (.addNode .oscillator), .call (.addNode .keyboardAdsr), .call (.addNode .audioOutput),
      .call (.connect ⟨"n1", "signal", "n2", "signal"⟩),
      .call (.connect ⟨"n2", "signal", "n3", "signal"⟩)] ++ List.replicate 10 .checkpoint ++
    [.call (.keyDown "KeyA" false), .call (.addNode .gain),
      .call (.connect ⟨"n4", "signal", "n4", "signal"⟩),
      .call (.connect ⟨"n4", "signal", "n3", "signal"⟩)]

/-- The rebuild has built the tone and the key anew when it finds that the gain feeds itself; all
the same the key stays held, and what sounds stays as it is. -/
theorem kept_heldAndLooped : ∃ s fault, Session.new (Rack.new 48000.0) {} = .ok s ∧
    (heldAndLooped s).session.pass = none ∧
    (heldAndLooped s).session.scheduler.isBusy = true ∧
    ((heldAndLooped s).session.mixer.build (heldAndLooped s).session.graph .empty).1 =
      .error fault ∧
    (heldAndLooped s).session.mixer.rack.primitives.size = 6 ∧
    ((heldAndLooped s).step .checkpoint).session.mixer.rack.primitives.size = 8 ∧
    ((heldAndLooped s).step .checkpoint).session.keyboard.states .a = .held ∧
    ∀ id < 6, ((heldAndLooped s).step .checkpoint).session.mixer.rack.primitive? id =
      (heldAndLooped s).session.mixer.rack.primitive? id := by
  obtain ⟨s, hs⟩ : ∃ s, Session.new (Rack.new 48000.0) {} = .ok s := ⟨_, rfl⟩
  have hpass : (heldAndLooped s).session.pass.isNone = true := by cases hs; decide +kernel
  have hbusy : (heldAndLooped s).session.scheduler.isBusy = true := by cases hs; decide +kernel
  have hsize : (heldAndLooped s).session.mixer.rack.primitives.size = 6 := by
    cases hs; decide +kernel
  have hheld : (heldAndLooped s).session.keyboard.states .a = .held := by cases hs; decide +kernel
  have hmore : ((heldAndLooped s).step .checkpoint).session.mixer.rack.primitives.size = 8 := by
    cases hs; decide +kernel
  have hfails : ((heldAndLooped s).session.mixer.build
      (heldAndLooped s).session.graph .empty).1.toOption.isNone = true := by
    cases hs; decide +kernel
  rw [Option.isNone_iff_eq_none] at hpass
  cases hfault :
    ((heldAndLooped s).session.mixer.build (heldAndLooped s).session.graph .empty).1 with
  | ok patch =>
    rw [hfault] at hfails
    cases hfails
  | error fault =>
    obtain ⟨hsame, -, hkept, -⟩ := Observed.step_of_fault hpass hbusy hfault
    refine ⟨s, fault, hs, hpass, hbusy, hfault, hsize, hmore, ?_, fun id hid => ?_⟩
    · rw [hsame]
      exact hheld
    · exact hkept id (hsize ▸ hid)

end Session

end Patchbay
