import Patchbay.Proofs.Noise.Samples
import Patchbay.Proofs.Patch.Frame
/-!
# Buffers that are built

Only noise nodes make buffers, and all buffers of a rack are as long as the length of the noise and
the rate of the rack say (`Graph.fits_build`). A noise node makes one
(`Kind.exists_blueprint_noise`).
-/

namespace Patchbay

variable {α : Type} {length : Nat}

/-! ## Steps that make buffers -/

/-- A buffer, if one is made, has so many samples. -/
def Setup.Fits (length : Nat) : Setup α → Prop
  | .bufferSource samples _ => samples.size = length
  | _ => True

namespace Step

def Fits (length : Nat) : Step α → Prop
  | .create setup => setup.Fits length
  | _ => True

/-- All buffers that a list of steps makes have so many samples. -/
def AllFit (length : Nat) (steps : List (Step α)) : Prop := ∀ step ∈ steps, step.Fits length

variable {step : Step α} {l l' : List (Step α)}

@[simp]
theorem allFit_nil : AllFit length ([] : List (Step α)) := List.forall_mem_nil _

@[simp]
theorem allFit_cons : AllFit length (step :: l) ↔ step.Fits length ∧ AllFit length l :=
  List.forall_mem_cons

@[simp]
theorem allFit_append : AllFit length (l ++ l') ↔ AllFit length l ∧ AllFit length l' :=
  List.forall_mem_append

@[simp]
theorem allFit_connects (sources : List PrimitiveId) (inlet : Inlet) :
    AllFit length (sources.map fun source => (connect source inlet : Step α)) :=
  List.forall_mem_map.mpr fun _ _ => trivial

@[simp]
theorem allFit_patch (sources : List PrimitiveId) (into : PrimitiveId) :
    AllFit length (patch sources into : List (Step α)) :=
  allFit_connects sources _

end Step

variable [Scalar α]

@[simp]
theorem Socket.allFit_drive (s : Socket) (dial : Dial) (v : α) (sources : List PrimitiveId) :
    Step.AllFit length (s.drive dial v sources) := by
  unfold drive
  split
  next => split <;> simp [Step.Fits]
  next => cases s.combine <;> simp [Step.Fits]

namespace Kind

theorem allFit_keySteps (waveform : Waveform) (frequency : α) (sources : List PrimitiveId)
    (profile : Nat) (out osc : PrimitiveId) (key : Key) :
    Step.AllFit length (keySteps waveform frequency sources profile out osc key) := by
  simp [keySteps, Step.Fits, Setup.Fits]

/-- The buffer of a node is as long as the place where it is built says. -/
theorem allFit_of_blueprint {panel : Panel α} {site : Site α} {plan : Blueprint α}
    (h : blueprint panel site = .ok plan) :
    Step.AllFit (site.noise.length site.sampleRate) plan.steps := by
  obtain ⟨kind, values⟩ := panel
  cases kind
  case keyboardNote =>
    cases h
    simp only [Step.allFit_append, Step.allFit_cons]
    refine ⟨⟨trivial, trivial, Step.allFit_nil⟩, fun step hstep => ?_⟩
    obtain ⟨⟨⟨key, base⟩, i⟩, -, hstep⟩ := List.mem_flatMap.mp hstep
    exact allFit_keySteps _ _ _ _ _ _ _ step hstep
  case keyboardAdsr =>
    obtain ⟨key, rfl⟩ := steps_keyboardAdsr h
    simp [Step.Fits, Setup.Fits]
  case noise =>
    cases h
    simp [Step.Fits, Setup.Fits, Noise.size_generate]
  all_goals
    cases h
    simp [Step.Fits, Setup.Fits, driven, compressorDials]

/-- A noise node is built as one source with a buffer of that length. -/
theorem exists_blueprint_noise (values : List (Control.Value α)) (site : Site α) :
    ∃ samples, (blueprint ⟨.noise, values⟩ site).map (·.steps) =
      .ok [.create (.bufferSource samples true)] ∧
      samples.size = site.noise.length site.sampleRate :=
  ⟨_, rfl, Noise.size_generate _ _ _⟩

end Kind

/-! ## Buffers on a rack -/

/-- The buffers from a place on have so many samples. -/
def Rack.Fits (rack : Rack α) (first : PrimitiveId) (length : Nat) : Prop :=
  ∀ id p, first ≤ id → rack.primitive? id = some p → p.setup.Fits length

namespace Rack.Fits

variable {rack : Rack α} {first : PrimitiveId}

omit [Scalar α] in
theorem update (h : rack.Fits first length) (id : PrimitiveId) {f : Primitive α → Primitive α}
    (hf : ∀ p, (f p).setup = p.setup) : (rack.update id f).Fits first length := by
  intro other p hother hp
  rw [Rack.primitive?_update] at hp
  split at hp
  next =>
    obtain ⟨q, hq, rfl⟩ := Option.map_eq_some_iff.mp hp
    exact (hf q).symm ▸ h other q hother hq
  next => exact h other p hother hp

theorem add (h : rack.Fits first length) {setup : Setup α} (hsetup : setup.Fits length) :
    (rack.add setup).Fits first length := by
  intro id p hid hp
  rw [Rack.primitive?_add] at hp
  split at hp
  next =>
    cases hp
    exact hsetup
  next => exact h id p hid hp

omit [Scalar α] in
theorem releaseAll (h : rack.Fits first length) (ids : List PrimitiveId) :
    (rack.releaseAll ids).Fits first length := by
  unfold Rack.releaseAll
  induction ids generalizing rack with
  | nil => exact h
  | cons id ids ih => exact ih (h.update id fun _ => rfl)

end Rack.Fits

/-! ## Building -/

namespace Assembly

/-- The buffers that were made have the length that the noise has at the rate of the rack. -/
structure Fitting (rate : α) (first : PrimitiveId) (length : Nat) (a : Assembly α) : Prop where
  rate : a.rack.sampleRate = rate
  fits : a.rack.Fits first length

variable {rate : α} {first : PrimitiveId} {a : Assembly α}

theorem Fitting.runStep (h : Fitting rate first length a) {step : Step α}
    (hstep : step.Fits length) : Fitting rate first length (reached (a.runStep step)) := by
  cases step with
  | create setup =>
    unfold Assembly.runStep Rack.create
    -- what a backend refuses to make leaves the rack as it is
    by_cases hrefused : setup.family ∈ a.rack.refused
    · simpa only [hrefused, if_true, reached_error] using h
    · simpa only [hrefused, if_false, reached_ok] using ⟨h.rate, h.fits.add hstep⟩
  | connect source inlet => exact ⟨h.rate, h.fits.update source fun _ => rfl⟩
  | setValue dial value => exact ⟨h.rate, h.fits.update dial.primitive fun _ => rfl⟩
  | register profile => exact ⟨h.rate, h.fits⟩
  | bind key voice => exact ⟨h.rate, h.fits⟩

theorem Fitting.keeps_buildNode (g : Graph α) (master : PrimitiveId) (noise : Noise.Source α)
    (n : Node α) : Keeps (Fitting rate first (noise.length rate)) (buildNode g master noise n) := by
  intro a ha
  unfold buildNode
  split
  next => exact ha
  next plan hplan =>
    have hfit : Step.AllFit (noise.length rate) plan.steps := by
      have hsite := Kind.allFit_of_blueprint hplan
      rwa [show (a.site master noise (a.feeds g n.id)).sampleRate = rate from ha.rate] at hsite
    have hsteps : Keeps (Fitting rate first (noise.length rate))
        (plan.steps.foldlM Assembly.runStep) :=
      Keeps.foldlM fun step hstep b hb => hb.runStep (hfit step hstep)
    refine hsteps.bind (fun b hb => ?_) a ha
    exact ⟨hb.rate, hb.fits⟩

end Assembly

/-- The buffers that building adds to a rack, in the end or before a fault, are as long as the noise
is at the rate of the rack. -/
theorem Graph.fits_build (g : Graph α) (master : PrimitiveId) (noise : Noise.Source α)
    (rack : Rack α) (voicing : Voicing α) :
    (g.build master noise rack voicing).rack.Fits rack.primitives.size
      (noise.length rack.sampleRate) := by
  have hbegun : Assembly.Fitting rack.sampleRate rack.primitives.size
      (noise.length rack.sampleRate) ⟨rack, voicing, [], []⟩ :=
    ⟨rfl, fun id p hid hp => absurd (Rack.lt_size_of_primitive? hp) (Nat.not_lt_of_le hid)⟩
  obtain ⟨a, ha, hbuild | ⟨fault, hbuild⟩⟩ := g.build_of_keeps master noise rack voicing hbegun
    fun n _ => Assembly.Fitting.keeps_buildNode g master noise n
  · rw [hbuild]
    exact ha.fits
  · rw [hbuild]
    exact ha.fits.releaseAll _

end Patchbay
