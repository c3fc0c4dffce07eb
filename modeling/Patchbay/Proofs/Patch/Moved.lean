import Mathlib.Tactic.Simps.Basic
import Patchbay.Proofs.Program.Moving
/-!
# Moving what names primitives

Steps, parts, patches and voices name primitives by their places on the rack. Here these places are
changed by a function. A blueprint changes along with the site that it is for
(`Kind.blueprint_move`), as long as primitives in a row stay in a row: it names what it creates by
counting on from the first.
-/

namespace Patchbay

variable {α : Type} {f : PrimitiveId → PrimitiveId}

/-! ## Places changed -/

section

variable (f : PrimitiveId → PrimitiveId)

def Dial.move (d : Dial) : Dial := { d with primitive := f d.primitive }

def Voice.move (v : Voice) : Voice := { v with gain := v.gain.move f }

def Primitive.move (p : Primitive α) : Primitive α :=
  { p with outputs := p.outputs.map (·.move f) }

def Voicing.move (v : Voicing α) : Voicing α :=
  { v with bindings := v.bindings.map fun (key, voice) => (key, voice.move f) }

def Knob.move (k : Knob α) : Knob α := { k with dial := k.dial.move f }

def Part.move (p : Part α) : Part α where
  outputs := p.outputs.map fun (socket, id) => (socket, f id)
  knobs := p.knobs.map (·.move f)
  scopes := p.scopes.map fun (domain, id) => (domain, f id)

def Patch.move (p : Patch α) : Patch α where
  parts := p.parts.map fun (id, part) => (id, part.move f)
  primitives := p.primitives.map fun (id, family) => (f id, family)

def Step.move : Step α → Step α
  | .create setup => .create setup
  | .connect source inlet => .connect (f source) (inlet.move f)
  | .setValue dial value => .setValue (dial.move f) value
  | .register profile => .register profile
  | .bind key voice => .bind key (voice.move f)

def Blueprint.move (b : Blueprint α) : Blueprint α where
  steps := b.steps.map (·.move f)
  part := b.part.move f

@[simps]
def Site.move (s : Site α) : Site α :=
  { s with
    next := f s.next
    master := f s.master
    inputs := fun socket => (s.inputs socket).map f }

@[simp]
theorem Inlet.move_input (id : PrimitiveId) : (input id).move f = input (f id) := rfl

@[simp]
theorem Inlet.move_dial (d : Dial) : (dial d).move f = dial (d.move f) := rfl

@[simp]
theorem Dial.move_mk (id : PrimitiveId) (param : Param) :
    (⟨id, param⟩ : Dial).move f = ⟨f id, param⟩ := rfl

@[simp]
theorem Voice.move_mk (gain : Dial) (profile : Nat) :
    (⟨gain, profile⟩ : Voice).move f = ⟨gain.move f, profile⟩ := rfl

@[simp]
theorem Step.move_create (setup : Setup α) : (create setup).move f = create setup := rfl

@[simp]
theorem Step.move_connect (source : PrimitiveId) (inlet : Inlet) :
    (connect source inlet : Step α).move f = connect (f source) (inlet.move f) := rfl

@[simp]
theorem Step.move_setValue (dial : Dial) (value : α) :
    (setValue dial value).move f = setValue (dial.move f) value := rfl

@[simp]
theorem Step.move_register (profile : Profile α) : (register profile).move f = register profile :=
  rfl

@[simp]
theorem Step.move_bind (key : Key) (voice : Voice) :
    (bind key voice : Step α).move f = bind key (voice.move f) := rfl

end

/-! ## Blueprints -/

@[simp]
theorem Step.map_move_patch (sources : List PrimitiveId) (into : PrimitiveId) :
    (patch sources into : List (Step α)).map (·.move f) = patch (sources.map f) (f into) := by
  simp [patch]

theorem Socket.knobs_move (s : Socket) (dial : Dial) (range : Range α)
    (sources : List PrimitiveId) :
    (s.knobs dial range sources).map (·.move f) = s.knobs (dial.move f) range (sources.map f) := by
  unfold knobs
  cases hinline : s.inline with
  | none => rfl
  | some control =>
    dsimp only
    rw [usesInline_of_inline hinline, usesInline_of_inline hinline, List.isEmpty_map]
    split <;> rfl

variable [Scalar α]

@[simp]
theorem Socket.drive_move (s : Socket) (dial : Dial) (v : α) (sources : List PrimitiveId) :
    (s.drive dial v sources).map (·.move f) = s.drive (dial.move f) v (sources.map f) := by
  unfold drive
  rw [List.isEmpty_map]
  split
  next => split <;> rfl
  next => cases s.combine <;> simp [Step.patch, Dial.move]

namespace Kind

variable {panel : Panel α} {site : Site α}

@[simp]
theorem driven_move (s : Socket) (id : PrimitiveId) (param : Param) (range : Range α) :
    driven panel (site.move f) s ⟨f id, param⟩ range =
      ((driven panel site s ⟨id, param⟩ range).1.map (·.move f),
        (driven panel site s ⟨id, param⟩ range).2.map (·.move f)) := by
  simp [driven, Socket.knobs_move]

theorem keySteps_move {waveform : Waveform} {frequency : α} {sources : List PrimitiveId}
    {profile : Nat} {out osc : PrimitiveId} {key : Key} (hosc : f (osc + 1) = f osc + 1) :
    (keySteps waveform frequency sources profile out osc key).map (·.move f) =
      keySteps waveform frequency (sources.map f) profile (f out) (f osc) key := by
  simp [keySteps, hosc]

/-- The keys of an instrument move with its first oscillator. -/
theorem map_move_keys {waveform : Waveform} {ratio : α} {sources : List PrimitiveId}
    {profile : Nat} {out first : PrimitiveId} (hfirst : ∀ i, f (first + i) = f first + i) :
    ((Key.pitches.zipIdx.flatMap fun ((key, base), i) =>
      keySteps waveform (base * ratio) sources profile out (first + 2 * i) key).map (·.move f)) =
      Key.pitches.zipIdx.flatMap fun ((key, base), i) =>
        keySteps waveform (base * ratio) (sources.map f) profile (f out) (f first + 2 * i) key := by
  rw [List.map_flatMap]
  refine List.flatMap_congr fun ⟨⟨key, base⟩, i⟩ _ => ?_
  dsimp only
  rw [keySteps_move (by rw [Nat.add_assoc, hfirst, hfirst, Nat.add_assoc]), hfirst]

/-- A node is built in the same way wherever its primitives lie in a row. -/
theorem blueprint_move (hf : ∀ i, f (site.next + i) = f site.next + i) :
    blueprint panel (site.move f) = (blueprint panel site).map (·.move f) := by
  have hkeys : ∀ i, f (site.next + 1 + i) = f (site.next + 1) + i := fun i => by
    rw [Nat.add_assoc, hf, hf, Nat.add_assoc]
  obtain ⟨kind, values⟩ := panel
  cases kind
  case keyboardAdsr =>
    simp only [blueprint]
    split
    next => rfl
    next => simp [Except.map, Blueprint.move, Part.move]
  case keyboardNote =>
    simp [blueprint, Except.map, Blueprint.move, Part.move, map_move_keys hkeys, hf]
  all_goals simp [blueprint, Except.map, Blueprint.move, Part.move, Knob.move, hf]

end Kind

end Patchbay
