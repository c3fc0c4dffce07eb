import Patchbay.Proofs.Kind
import Patchbay.Proofs.Panel
import Patchbay.Proofs.Patch.Steps
import Patchbay.Proofs.Rearranging
/-!
# What blueprints do

For every kind there is a short description of what a node is built of: the families of its
primitives (`Kind.outfit`), the primitive behind its outputs (`Kind.outlet`), the wires among its
own primitives and to the master chain (`Kind.inner`), and what a connection into a socket is
patched into (`Kind.inlets`). Every blueprint does just what the description of its kind says:
`families_of_blueprint`, `wires_of_blueprint` and `outputs_of_blueprint`. A node with accepted
values has a blueprint (`exists_blueprint`).
-/

namespace Patchbay

namespace Kind

/-! ## Descriptions -/

/-- The families of the primitives of a node, in the order in which they are created. -/
def outfit : Kind → List Family
  | constant | noteFrequency => [.constantSource]
  | oscillator => [.oscillator]
  | noise => [.bufferSource]
  | gain | transpose | keyboardAdsr => [.gain]
  | biquadFilter => [.biquadFilter]
  | delay => [.delay]
  | clip => [.gain, .waveShaper]
  | dynamicsCompressor => [.dynamicsCompressor]
  | keyboardNote => .gain :: (List.range 25).flatMap fun _ => [.oscillator, .gain]
  | audioOutput => []
  | universalOutput => [.gain, .analyser, .analyser]
  | timeVisualizer | frequencyVisualizer | consoleDebugger => [.analyser]

/-- Which of its primitives is behind the outputs of a node. -/
def outlet : Kind → Nat
  | clip => 1
  | _ => 0

/-- The oscillators of a keyboard instrument, each followed by its gate. -/
def keyOscillators (first : PrimitiveId) : List PrimitiveId :=
  (List.range 25).map fun i => first + 1 + 2 * i

/-- The wires that a node has of itself: a clipped signal goes through a gain before it is shaped, a
key's oscillator goes through its gate into the common output, and what is heard goes to the master
chain and is analysed. -/
def inner (master first : PrimitiveId) : Kind → List (PrimitiveId × Inlet)
  | clip => [(first, .input (first + 1))]
  | keyboardNote => (keyOscillators first).flatMap fun osc =>
      [(osc, .input (osc + 1)), (osc + 1, .input first)]
  | universalOutput =>
    [(first, .input master), (first, .input (first + 1)), (first, .input (first + 2))]
  | _ => []

/-- The kinds that lead to the loudspeakers. -/
def isOutput : Kind → Bool
  | audioOutput | universalOutput => true
  | _ => false

/-- The parameter that a socket drives. -/
def drivenBy (socket : String) : Param :=
  match socket with
  | "gain" => .gain
  | "q" => .q
  | "delayTime" => .delayTime
  | _ => .frequency

/-- What a connection into a socket is patched into. -/
def inlets (master first : PrimitiveId) (k : Kind) (s : Socket) : List Inlet :=
  match k with
  | audioOutput => [.input master]
  | keyboardNote => (keyOscillators first).map fun osc => .dial ⟨osc, .frequency⟩
  | _ => if s.combine = .signal then [.input first] else [.dial ⟨first, drivenBy s.name⟩]

/-- What a connection into the socket of a name is patched into. -/
def inletsAt (master first : PrimitiveId) (k : Kind) (input : String) : List Inlet :=
  match k.input? input with
  | some s => k.inlets master first s
  | none => []

/-- The primitive behind the outputs is one of the node's own. -/
theorem outlet_lt {k : Kind} (h : k.outputs ≠ []) : k.outlet < k.outfit.length := by
  revert h
  cases k <;> decide

theorem mem_keyOscillators {first osc : PrimitiveId} :
    osc ∈ keyOscillators first ↔ ∃ i : Nat, i < 25 ∧ osc = first + 1 + 2 * i := by
  simp [keyOscillators, eq_comm]

/-- The wires that a node has of itself come from its own primitives. -/
theorem inner_range {master first : PrimitiveId} {k : Kind} {w : PrimitiveId × Inlet}
    (h : w ∈ k.inner master first) : first ≤ w.1 ∧ w.1 < first + k.outfit.length := by
  cases k
  case keyboardNote =>
    obtain ⟨osc, hosc, h⟩ := List.mem_flatMap.mp h
    obtain ⟨i, hi, rfl⟩ := mem_keyOscillators.mp hosc
    have hlength : keyboardNote.outfit.length = 51 := by decide
    have hrange : ∀ n : Nat, n ≤ n + 1 + 2 * i ∧ n + 1 + 2 * i + 1 < n + 51 := by omega
    obtain ⟨hlow, hhigh⟩ := hrange first
    rw [hlength]
    rcases List.mem_cons.mp h with rfl | h
    · exact ⟨hlow, Nat.lt_of_succ_lt hhigh⟩
    · rw [List.mem_singleton.mp h]
      exact ⟨Nat.le_succ_of_le hlow, hhigh⟩
  case clip =>
    rw [List.mem_singleton.mp h]
    exact ⟨Nat.le_refl _, Nat.lt_add_of_pos_right (by decide)⟩
  case universalOutput =>
    have hw : w.1 = first := by
      simp only [inner, List.mem_cons, List.not_mem_nil, or_false] at h
      rcases h with rfl | rfl | rfl <;> rfl
    rw [hw]
    exact ⟨Nat.le_refl _, Nat.lt_add_of_pos_right (by decide)⟩
  all_goals exact absurd h List.not_mem_nil

/-! ## Where wires lead -/

variable {k : Kind} {master first : PrimitiveId}

/-- The wires that a node has of itself lead to its own primitives, and from an output to the
master. -/
theorem inner_into {w : PrimitiveId × Inlet} (h : w ∈ k.inner master first) :
    (w.2 = .input master ∧ k.isOutput = true) ∨
      ∃ i < k.outfit.length, w.2.place = first + i := by
  cases k
  case clip =>
    rw [List.mem_singleton.mp h]
    exact .inr ⟨1, by decide, rfl⟩
  case universalOutput =>
    simp only [inner, List.mem_cons, List.not_mem_nil, or_false] at h
    rcases h with rfl | rfl | rfl
    · exact .inl ⟨rfl, rfl⟩
    · exact .inr ⟨1, by decide, rfl⟩
    · exact .inr ⟨2, by decide, rfl⟩
  case keyboardNote =>
    obtain ⟨osc, hosc, h⟩ := List.mem_flatMap.mp h
    obtain ⟨i, hi, rfl⟩ := mem_keyOscillators.mp hosc
    have hlength : keyboardNote.outfit.length = 51 := by decide
    rcases List.mem_cons.mp h with rfl | h
    · refine .inr ⟨1 + 2 * i + 1, by omega, ?_⟩
      show first + 1 + 2 * i + 1 = _
      rw [Nat.add_assoc first, Nat.add_assoc first]
    · rw [List.mem_singleton.mp h]
      exact .inr ⟨0, by omega, rfl⟩
  all_goals exact absurd h List.not_mem_nil

/-- A connection leads to the primitives of its node, or into an output to the master. -/
theorem inletsAt_into {input : String} {inlet : Inlet} (h : inlet ∈ k.inletsAt master first input) :
    (inlet = .input master ∧ k.isOutput = true) ∨
      ∃ i < k.outfit.length, inlet.place = first + i := by
  unfold inletsAt at h
  cases hs : k.input? input with
  | none =>
    rw [hs] at h
    exact absurd h List.not_mem_nil
  | some s =>
    rw [hs] at h
    cases k
    case audioOutput => exact .inl ⟨List.mem_singleton.mp h, rfl⟩
    case keyboardNote =>
      obtain ⟨osc, hosc, rfl⟩ := List.mem_map.mp h
      obtain ⟨i, hi, rfl⟩ := mem_keyOscillators.mp hosc
      have hlength : keyboardNote.outfit.length = 51 := by decide
      refine .inr ⟨1 + 2 * i, by omega, ?_⟩
      exact Nat.add_assoc first _ _
    all_goals
      refine .inr ⟨0, by decide, ?_⟩
      simp only [inlets] at h
      split at h
      all_goals
        rw [List.mem_singleton.mp h]
        rfl

/-! ## Nodes with an inline value -/

variable {s : Socket}

/-- A node with an inline value has no wires of itself. -/
theorem inner_of_inline (hs : s ∈ k.inputs) (hinline : s.inline.isSome)
    (master first : PrimitiveId) : k.inner master first = [] := by
  cases k
  case clip | keyboardNote | universalOutput =>
    rw [List.mem_singleton.mp hs] at hinline
    cases hinline
  all_goals rfl

/-- The other sockets of such a node are signals or drive parameters too. -/
theorem inlets_beside_inline (hs : s ∈ k.inputs) (hinline : s.inline.isSome)
    (master first : PrimitiveId) (s' : Socket) : k.inlets master first s' =
      if s'.combine = .signal then [.input first] else [.dial ⟨first, drivenBy s'.name⟩] := by
  cases k
  case audioOutput | keyboardNote =>
    rw [List.mem_singleton.mp hs] at hinline
    cases hinline
  all_goals rfl

/-- A socket with an inline value drives one parameter of the first primitive of its node. -/
theorem inlets_of_inline (hs : s ∈ k.inputs) (hinline : s.inline.isSome)
    (master first : PrimitiveId) : k.inlets master first s = [.dial ⟨first, drivenBy s.name⟩] :=
  (inlets_beside_inline hs hinline master first s).trans (if_neg (ne_signal_of_inline hs hinline))

end Kind

variable {α : Type}

namespace Step

/-! ## Building blocks -/

@[simp]
theorem families_nil : families ([] : List (Step α)) = [] := rfl

@[simp]
theorem families_cons (step : Step α) (l : List (Step α)) :
    families (step :: l) = step.family?.toList ++ families l := by
  cases step <;> rfl

@[simp]
theorem families_flatMap {τ : Type} (l : List τ) (f : τ → List (Step α)) :
    families (l.flatMap f) = l.flatMap fun x => families (f x) :=
  List.filterMap_flatMap

@[simp]
theorem wires_nil : wires ([] : List (Step α)) = [] := rfl

@[simp]
theorem wires_cons (step : Step α) (l : List (Step α)) :
    wires (step :: l) = step.wire?.toList ++ wires l := by
  cases step <;> rfl

@[simp]
theorem wires_flatMap {τ : Type} (l : List τ) (f : τ → List (Step α)) :
    wires (l.flatMap f) = l.flatMap fun x => wires (f x) :=
  List.filterMap_flatMap

theorem families_connects (sources : List PrimitiveId) (inlet : Inlet) :
    families (sources.map fun source => (connect source inlet : Step α)) = [] := by
  simp [families, family?]

theorem wires_connects (sources : List PrimitiveId) (inlet : Inlet) :
    wires (sources.map fun source => (connect source inlet : Step α)) = sources.map (·, inlet) := by
  unfold wires
  rw [List.filterMap_map]
  show sources.filterMap (some ∘ (·, inlet)) = _
  rw [List.filterMap_eq_map]

@[simp]
theorem families_patch (sources : List PrimitiveId) (into : PrimitiveId) :
    families (patch sources into : List (Step α)) = [] :=
  families_connects sources _

@[simp]
theorem wires_patch (sources : List PrimitiveId) (into : PrimitiveId) :
    wires (patch sources into : List (Step α)) = sources.map (·, .input into) :=
  wires_connects sources _

theorem grounded_connects {size : Nat} {inlet : Inlet} {sources : List PrimitiveId} :
    Grounded size (sources.map fun source => (connect source inlet : Step α)) ↔
      ∀ i ∈ sources, i < size := by
  induction sources with
  | nil => simp [Grounded]
  | cons i sources ih => simp [Grounded, ih]

@[simp]
theorem grounded_patch {size : Nat} {sources : List PrimitiveId} {into : PrimitiveId} :
    Grounded size (patch sources into : List (Step α)) ↔ ∀ i ∈ sources, i < size :=
  grounded_connects

end Step

namespace Socket

variable [Scalar α]

@[simp]
theorem families_drive (s : Socket) (dial : Dial) (v : α) (sources : List PrimitiveId) :
    Step.families (s.drive dial v sources) = [] := by
  unfold drive
  split
  next => split <;> rfl
  next =>
    cases s.combine with
    | signal => exact Step.families_connects sources _
    | override => exact Step.families_connects sources _
    | additive => exact Step.families_connects sources _
    | modulate => exact Step.families_connects sources _

/-- Driving a parameter patches every source into it. -/
theorem wires_drive {s : Socket} (h : s.combine ≠ .signal) (dial : Dial) (v : α)
    (sources : List PrimitiveId) :
    Step.wires (s.drive dial v sources) = sources.map (·, .dial dial) := by
  unfold drive
  split
  next hempty =>
    rw [List.isEmpty_iff.mp hempty]
    split <;> rfl
  next =>
    cases hs : s.combine with
    | signal => exact absurd hs h
    | override => exact Step.wires_connects sources _
    | additive => exact Step.wires_connects sources _
    | modulate => exact Step.wires_connects sources _

@[simp]
theorem grounded_drive {s : Socket} {dial : Dial} {v : α} {size : Nat}
    {sources : List PrimitiveId} :
    Step.Grounded size (s.drive dial v sources) ↔ ∀ i ∈ sources, i < size := by
  unfold drive
  split
  next hempty =>
    rw [List.isEmpty_iff.mp hempty]
    split <;> simp [Step.Grounded]
  next =>
    cases s.combine with
    | signal => exact Step.grounded_connects
    | override => exact Step.grounded_connects
    | additive => exact Step.grounded_connects
    | modulate => exact Step.grounded_connects

end Socket

namespace Kind

variable [Scalar α]

/-! ## Keys -/

section

variable {waveform : Waveform} {frequency : α} {sources : List PrimitiveId} {profile : Nat}
  {out osc : PrimitiveId} {key : Key}

@[simp]
theorem families_keySteps :
    Step.families (keySteps waveform frequency sources profile out osc key) =
      [.oscillator, .gain] := by
  simp [keySteps, Step.family?, Setup.family]

@[simp]
theorem wires_keySteps :
    Step.wires (keySteps waveform frequency sources profile out osc key) =
      sources.map (·, .dial ⟨osc, .frequency⟩) ++
        [(osc, .input (osc + 1)), (osc + 1, .input out)] := by
  simp [keySteps, Step.wire?, Socket.wires_drive, keysFrequency, Socket.additional]

theorem grounded_keySteps (h : ∀ i ∈ sources, i < osc) :
    Step.Grounded osc (keySteps waveform frequency sources profile out osc key) := by
  have hsize : (Step.families ([.create (.oscillator waveform frequency)] ++
      keysFrequency.drive ⟨osc, .frequency⟩ 0.0 sources)).length = 1 := by
    simp [Step.family?]
  simp only [keySteps, Step.grounded_append, Step.Grounded, Socket.grounded_drive, hsize]
  exact ⟨⟨trivial, fun i hi => Nat.lt_succ_of_lt (h i hi)⟩,
    Nat.lt_add_of_pos_right Nat.two_pos, Nat.lt_succ_self _, trivial⟩

end

/-- There are 25 keys, and what does not depend on the key goes by its number. -/
theorem flatMap_pitches {τ : Type} {f : (Key × α) × Nat → List τ} (f' : Nat → List τ)
    (h : ∀ key base i, f ((key, base), i) = f' i) :
    Key.pitches.zipIdx.flatMap f = (List.range 25).flatMap f' := by
  have hf : f = fun x => f' x.2 := funext fun ⟨⟨key, base⟩, i⟩ => h key base i
  rw [hf, ← List.flatMap_map, List.zipIdx_map_snd, List.range_eq_range']
  rfl

/-- Every key begins two primitives after the one before it. -/
theorem grounded_keys {waveform : Waveform} {ratio : α} {sources : List PrimitiveId}
    {profile : Nat} {out first : PrimitiveId} (h : ∀ i ∈ sources, i < first) (keys : List (Key × α))
    (n : Nat) :
    Step.Grounded (first + 1 + 2 * n) ((keys.zipIdx n).flatMap fun ((key, base), i) =>
      keySteps waveform (base * ratio) sources profile out (first + 1 + 2 * i) key) := by
  induction keys generalizing n with
  | nil => trivial
  | cons pitch keys ih =>
    rw [List.zipIdx_cons, List.flatMap_cons, Step.grounded_append, families_keySteps]
    refine ⟨grounded_keySteps fun i hi => ?_, ih (n + 1)⟩
    exact Nat.lt_of_lt_of_le (h i hi) (by omega)

/-! ## Every kind -/

/-- A keyboard key has a blueprint when its code is on the layout. -/
theorem steps_keyboardAdsr {values : List (Control.Value α)} {site : Site α} {plan : Blueprint α}
    (h : blueprint ⟨.keyboardAdsr, values⟩ site = .ok plan) :
    ∃ key, plan = ⟨[.create (.gain 0.0)] ++ Step.patch (site.inputs signalIn.name) site.next ++
      [.register (Panel.profile ⟨.keyboardAdsr, values⟩ "adsrProfile"),
        .bind key ⟨⟨site.next, .gain⟩, site.profiles⟩], ⟨[("signal", site.next)], [], []⟩⟩ := by
  simp only [blueprint] at h
  split at h
  next => cases h
  next key _ =>
    cases h
    exact ⟨key, rfl⟩

variable {panel : Panel α} {site : Site α} {plan : Blueprint α}

theorem families_of_blueprint (h : blueprint panel site = .ok plan) :
    Step.families plan.steps = panel.kind.outfit := by
  obtain ⟨kind, values⟩ := panel
  cases kind
  case keyboardNote =>
    cases h
    simp only [Step.families_append, Step.families_cons, Step.families_flatMap, Step.families_nil]
    exact congrArg (Family.gain :: ·) (flatMap_pitches _ fun _ _ _ => families_keySteps)
  case keyboardAdsr =>
    obtain ⟨key, rfl⟩ := steps_keyboardAdsr h
    simp [Step.family?, Setup.family, outfit]
  all_goals
    cases h
    simp [Step.family?, Setup.family, outfit, driven, compressorDials]

theorem grounded_of_blueprint (h : blueprint panel site = .ok plan)
    (hinputs : ∀ s ∈ panel.kind.inputs, ∀ i ∈ site.inputs s.name, i < site.next) :
    Step.Grounded site.next plan.steps := by
  obtain ⟨kind, values⟩ := panel
  cases kind
  case keyboardNote =>
    cases h
    exact grounded_keys (hinputs keysFrequency (List.mem_singleton_self _)) Key.pitches 0
  case keyboardAdsr =>
    obtain ⟨key, rfl⟩ := steps_keyboardAdsr h
    simp [inputs, Step.Grounded] at hinputs ⊢
    grind
  all_goals
    cases h
    simp [inputs, Step.Grounded, driven, compressorDials] at hinputs ⊢ <;> grind

/-- The wires of one key. -/
def keyWires (sources : List PrimitiveId) (first osc : PrimitiveId) : List (PrimitiveId × Inlet) :=
  sources.map (·, .dial ⟨osc, .frequency⟩) ++ [(osc, .input (osc + 1)), (osc + 1, .input first)]

/-- The wires of a keyboard instrument, key by key. -/
theorem wires_keys (master first : PrimitiveId) (sources : List PrimitiveId) :
    ((List.range 25).flatMap fun i => keyWires sources first (first + 1 + 2 * i)).Perm
      (inner master first .keyboardNote ++ sources.flatMap fun source =>
        (inlets master first .keyboardNote keysFrequency).map (source, ·)) := by
  refine (List.flatMap_append_perm _ _ _).symm.trans (List.perm_append_comm.trans ?_)
  refine List.Perm.append (.of_eq ?_) ((flatMap_map_comm_perm _ _ _).trans (.of_eq ?_))
  · rw [inner, keyOscillators, List.flatMap_map]
  · simp only [inlets, keyOscillators, List.map_map]
    rfl

theorem wires_of_blueprint (h : blueprint panel site = .ok plan) :
    (Step.wires plan.steps).Perm (panel.kind.inner site.master site.next ++
      panel.kind.inputs.flatMap fun s => (site.inputs s.name).flatMap fun source =>
        (panel.kind.inlets site.master site.next s).map (source, ·)) := by
  obtain ⟨kind, values⟩ := panel
  cases kind
  case keyboardNote =>
    cases h
    simp only [Step.wires_append, Step.wires_cons, Step.wires_flatMap, Step.wires_nil]
    -- key by key, whatever the pitches and codes are
    rw [flatMap_pitches (fun i => keyWires (site.inputs keysFrequency.name) site.next
      (site.next + 1 + 2 * i)) fun _ _ _ => wires_keySteps, inputs, List.flatMap_singleton]
    exact wires_keys site.master site.next (site.inputs keysFrequency.name)
  case keyboardAdsr =>
    obtain ⟨key, rfl⟩ := steps_keyboardAdsr h
    simp [Step.wire?, inner, inputs, inlets, signalIn, Socket.signalInput, ← List.map_eq_flatMap]
  case universalOutput =>
    cases h
    simp only [Step.wires_append, Step.wires_patch]
    simp [Step.wire?, inner, inputs, inlets, signalIn, Socket.signalInput, ← List.map_eq_flatMap]
    -- what is heard is patched on after its inputs
    exact List.perm_append_comm
  all_goals
    cases h
    simp [Step.wire?, inner, inputs, inlets, driven, drivenBy, compressorDials, Socket.wires_drive,
      signalIn, gainLevel, baseFrequency, addedFrequency, filterFrequency, filterQ, delayTime,
      Socket.signalInput, Socket.base, Socket.additive, Socket.additional, ← List.map_eq_flatMap]

theorem outputs_of_blueprint (h : blueprint panel site = .ok plan) :
    ∀ s ∈ panel.kind.outputs, plan.part.output? s.name = some (site.next + panel.kind.outlet) := by
  obtain ⟨kind, values⟩ := panel
  cases kind
  case keyboardAdsr =>
    obtain ⟨key, rfl⟩ := steps_keyboardAdsr h
    simp [outputs, Part.output?, outlet, signalOut, Socket.output]
  all_goals
    cases h
    simp [outputs, Part.output?, outlet, signalOut, Socket.output]

/-- The key code on an accepted panel is that of a key. -/
theorem exists_key_of_accepted {values : List (Control.Value α)}
    (h : Panel.Accepted ⟨.keyboardAdsr, values⟩) :
    ∃ key, Key.ofCode? (Panel.choice ⟨.keyboardAdsr, values⟩ "keyCode") = some key := by
  obtain ⟨code, rest, hcode, _, rfl⟩ := List.forall₂_cons_left_iff.mp h
  rw [Control.Domain.accepts_iff] at hcode
  cases code with
  | number x => cases hcode
  | profile p => cases hcode
  | choice name =>
    show ∃ key, Key.ofCode? name = some key
    rw [← Option.isSome_iff_exists]
    by_contra hnone
    simp [Control.Domain.fault?, hnone] at hcode

/-- A node with accepted values has a blueprint. -/
theorem exists_blueprint (h : panel.Accepted) (site : Site α) :
    ∃ plan, blueprint panel site = .ok plan := by
  obtain ⟨kind, values⟩ := panel
  cases kind
  -- the only blueprint that looks something up
  case keyboardAdsr =>
    obtain ⟨key, hkey⟩ := exists_key_of_accepted h
    simp only [blueprint, hkey]
    exact ⟨_, rfl⟩
  all_goals exact ⟨_, rfl⟩

end Kind

end Patchbay
