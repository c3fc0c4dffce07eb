import Patchbay.Proofs.Patch.Blueprint
import Patchbay.Proofs.Rack
/-!
# What building leaves alone

Building a graph adds primitives to the end of a rack and works on these alone, whatever the graph
is and wherever the building stops (`Graph.extends_build`). A patch that was built owns all that was
added, and each of its parts is what the blueprint of a node says (`Graph.built_of_build`); after a
fault all that was added is released (`Graph.released_of_build`).

The invariant (`Assembly.Apart`) is about an assembly at any point, finished or stopped
(`Assembly.reached`), so that what keeps it need not end well (`Assembly.Keeps`).
-/

namespace Patchbay

variable {α : Type}

/-! ## Blueprints -/

namespace Step

/-- A step works on no primitive below a bound. -/
def Beyond (bound : PrimitiveId) : Step α → Prop
  | .create _ | .register _ => True
  | .connect source _ => bound ≤ source
  | .setValue dial _ => bound ≤ dial.primitive
  | .bind _ voice => bound ≤ voice.gain.primitive

/-- No step of a list works on a primitive below a bound. -/
def AllBeyond (bound : PrimitiveId) (steps : List (Step α)) : Prop :=
  ∀ step ∈ steps, step.Beyond bound

section

variable {bound : PrimitiveId} {step : Step α} {l l' : List (Step α)}

@[simp]
theorem allBeyond_nil : AllBeyond bound ([] : List (Step α)) := List.forall_mem_nil _

@[simp]
theorem allBeyond_cons : AllBeyond bound (step :: l) ↔ step.Beyond bound ∧ AllBeyond bound l :=
  List.forall_mem_cons

@[simp]
theorem allBeyond_append : AllBeyond bound (l ++ l') ↔ AllBeyond bound l ∧ AllBeyond bound l' :=
  List.forall_mem_append

theorem allBeyond_connects {sources : List PrimitiveId} (h : ∀ i ∈ sources, bound ≤ i)
    (inlet : Inlet) :
    AllBeyond bound (sources.map fun source => (connect source inlet : Step α)) := by
  simpa [AllBeyond, Beyond] using h

theorem allBeyond_patch {sources : List PrimitiveId} (h : ∀ i ∈ sources, bound ≤ i)
    (into : PrimitiveId) : AllBeyond bound (patch sources into : List (Step α)) :=
  allBeyond_connects h _

end

end Step

section

variable [Scalar α] {bound : PrimitiveId}

theorem Socket.allBeyond_drive {sources : List PrimitiveId} (h : ∀ i ∈ sources, bound ≤ i)
    {dial : Dial} (hdial : bound ≤ dial.primitive) (s : Socket) (v : α) :
    Step.AllBeyond bound (s.drive dial v sources) := by
  unfold drive
  split
  next => split <;> simp [Step.Beyond, hdial]
  next =>
    have hconnects := Step.allBeyond_connects (α := α) h (.dial dial)
    cases s.combine with
    | signal => exact Step.allBeyond_patch h _
    | override => exact Step.allBeyond_cons.mpr ⟨hdial, hconnects⟩
    | additive => exact Step.allBeyond_cons.mpr ⟨hdial, hconnects⟩
    | modulate => exact hconnects

namespace Kind

theorem allBeyond_keySteps {sources : List PrimitiveId} (h : ∀ i ∈ sources, bound ≤ i)
    {waveform : Waveform} {frequency : α} {profile : Nat} {out osc : PrimitiveId} {key : Key}
    (hosc : bound ≤ osc) :
    Step.AllBeyond bound (keySteps waveform frequency sources profile out osc key) := by
  have hdrive : Step.AllBeyond bound (keysFrequency.drive ⟨osc, .frequency⟩ (0.0 : α) sources) :=
    keysFrequency.allBeyond_drive h hosc _
  simp [keySteps, Step.Beyond, hdrive, hosc, Nat.le_succ_of_le hosc]

variable {panel : Panel α} {site : Site α} {plan : Blueprint α}

/-- A blueprint works on what it creates and on what feeds the node. -/
theorem allBeyond_of_blueprint (h : blueprint panel site = .ok plan) (hnext : bound ≤ site.next)
    (hinputs : ∀ socket, ∀ i ∈ site.inputs socket, bound ≤ i) :
    Step.AllBeyond bound plan.steps := by
  have hpatch := fun socket into => Step.allBeyond_patch (α := α) (hinputs socket) into
  have hdrive : ∀ (s : Socket) param (v : α),
      Step.AllBeyond bound (s.drive ⟨site.next, param⟩ v (site.inputs s.name)) :=
    fun s param v => s.allBeyond_drive (hinputs s.name) hnext v
  obtain ⟨kind, values⟩ := panel
  cases kind
  case keyboardNote =>
    cases h
    simp only [Step.allBeyond_append, Step.allBeyond_cons, Step.Beyond]
    refine ⟨⟨trivial, trivial, Step.allBeyond_nil⟩, fun step hstep => ?_⟩
    -- each oscillator comes after the common output
    obtain ⟨⟨⟨key, base⟩, i⟩, -, hstep⟩ := List.mem_flatMap.mp hstep
    have hosc : bound ≤ site.next + 1 + 2 * i :=
      Nat.le_add_right_of_le (Nat.le_succ_of_le hnext)
    exact allBeyond_keySteps (hinputs _) hosc step hstep
  case keyboardAdsr =>
    obtain ⟨key, rfl⟩ := steps_keyboardAdsr h
    simp [Step.Beyond, hnext, hpatch]
  all_goals
    cases h
    simp [Step.Beyond, hnext, hpatch, hdrive, driven, compressorDials]

/-- The outputs of a node come from primitives of its own. -/
theorem le_of_mem_outputs (h : blueprint panel site = .ok plan) {output : String × PrimitiveId}
    (houtput : output ∈ plan.part.outputs) : site.next ≤ output.2 := by
  have hfirst : ∀ name, output ∈ [(name, site.next)] → site.next ≤ output.2 := fun name hmem =>
    Nat.le_of_eq (congrArg Prod.snd (List.mem_singleton.mp hmem)).symm
  obtain ⟨kind, values⟩ := panel
  cases kind
  case keyboardAdsr =>
    obtain ⟨key, rfl⟩ := steps_keyboardAdsr h
    exact hfirst _ houtput
  case clip =>
    cases h
    rw [List.mem_singleton.mp houtput]
    exact Nat.le_succ _
  case audioOutput | universalOutput | timeVisualizer | consoleDebugger | frequencyVisualizer =>
    cases h
    cases houtput
  all_goals
    cases h
    exact hfirst _ houtput

theorem dial_of_mem_driven {s : Socket} {dial : Dial} {range : Range α} {knob : Knob α}
    (h : knob ∈ (driven panel site s dial range).2) : knob.dial = dial := by
  simp only [driven, Socket.knobs] at h
  split at h
  next =>
    split at h
    next => rw [List.mem_singleton.mp h]
    next => cases h
  next => cases h

/-- The knobs of a node are on the first primitive of its own. -/
theorem dial_of_mem_knobs (h : blueprint panel site = .ok plan) {knob : Knob α}
    (hknob : knob ∈ plan.part.knobs) :
    knob.dial.primitive = site.next ∧ 0 < panel.kind.outfit.length := by
  obtain ⟨kind, values⟩ := panel
  cases kind
  case oscillator | gain | delay =>
    cases h
    dsimp only at hknob
    rw [dial_of_mem_driven hknob]
    exact ⟨rfl, Nat.one_pos⟩
  case biquadFilter =>
    cases h
    obtain ⟨parts, hparts, hknob⟩ := List.mem_flatMap.mp hknob
    obtain ⟨⟨s, param⟩, -, rfl⟩ := List.mem_map.mp hparts
    rw [dial_of_mem_driven hknob]
    exact ⟨rfl, Nat.one_pos⟩
  case dynamicsCompressor =>
    cases h
    obtain ⟨⟨control, param⟩, -, rfl⟩ := List.mem_map.mp hknob
    exact ⟨rfl, Nat.one_pos⟩
  case constant =>
    cases h
    rw [List.mem_singleton.mp hknob]
    exact ⟨rfl, Nat.one_pos⟩
  case universalOutput =>
    cases h
    rw [List.mem_singleton.mp hknob]
    exact ⟨rfl, Nat.succ_pos 2⟩
  case keyboardAdsr =>
    obtain ⟨key, rfl⟩ := steps_keyboardAdsr h
    cases hknob
  all_goals
    cases h
    cases hknob

end Kind

end

/-! ## However building ends -/

theorem Graph.mem_of_node? {g : Graph α} {id : NodeId} {n : Node α} (h : g.node? id = some n) :
    n ∈ g.nodes := by
  obtain ⟨⟨place, m⟩, hlocated, rfl⟩ := Option.map_eq_some_iff.mp h
  simp only [located?, Option.bind_eq_bind, Option.bind_eq_some_iff] at hlocated
  obtain ⟨place', -, m', hm, heq⟩ := hlocated
  cases heq
  exact List.mem_of_getElem? hm

namespace Assembly

/-- How far an assembly came, finished or stopped. -/
def reached : Except (Stopped α) (Assembly α) → Assembly α
  | .ok a => a
  | .error stopped => stopped.reached

@[simp]
theorem reached_ok (a : Assembly α) : reached (.ok a) = a := rfl

@[simp]
theorem reached_error (stopped : Stopped α) : reached (.error stopped) = stopped.reached := rfl

/-- From an assembly with one property building comes to one that has it again, or it stops at one
that has another property. -/
def Ends (P Q : Assembly α → Prop) (build : Assembly α → Except (Stopped α) (Assembly α)) : Prop :=
  ∀ a, P a → match build a with
    | .ok b => P b
    | .error stopped => Q stopped.reached

namespace Ends

variable {P Q : Assembly α → Prop} {build build' : Assembly α → Except (Stopped α) (Assembly α)}

theorem bind (h : Ends P Q build) (h' : Ends P Q build') :
    Ends P Q fun a => build a >>= build' := by
  intro a ha
  have hbuild := h a ha
  dsimp only
  cases hb : build a with
  | error stopped =>
    rw [hb] at hbuild
    exact hbuild
  | ok b =>
    rw [hb] at hbuild
    exact h' b hbuild

theorem foldlM {τ : Type} {f : Assembly α → τ → Except (Stopped α) (Assembly α)} {l : List τ}
    (h : ∀ x ∈ l, Ends P Q (f · x)) : Ends P Q fun a => l.foldlM f a := by
  induction l with
  | nil => exact fun a ha => ha
  | cons x l ih =>
    simp only [List.foldlM_cons]
    exact (h x List.mem_cons_self).bind (ih fun y hy => h y (List.mem_cons_of_mem _ hy))

variable {g : Graph α}

theorem follow (hstop : ∀ a, P a → Q a)
    {build : Node α → Assembly α → Except (Stopped α) (Assembly α)}
    (h : ∀ n ∈ g.nodes, Ends P Q (build n)) (c : Connection) :
    Ends P Q (Assembly.follow g build · c) := by
  intro a ha
  unfold Assembly.follow
  cases hsource : g.node? c.source with
  | none => exact hstop a ha
  | some source =>
    refine (h source (Graph.mem_of_node? hsource)).bind (fun b hb => ?_) a ha
    cases (b.handle? c).isSome with
    | true => exact hb
    | false => exact hstop b hb

variable [Scalar α] {master : PrimitiveId} {noise : Noise.Source α}

/-- What holds of building one node holds of building what feeds it too. -/
theorem resolve (hstop : ∀ a, P a → Q a)
    (h : ∀ n ∈ g.nodes, Ends P Q (buildNode g master noise n)) (depth : Nat) (path : List NodeId) :
    ∀ n ∈ g.nodes, Ends P Q (resolve g master noise depth path n) := by
  induction depth generalizing path with
  | zero => exact fun _ _ a ha => hstop a ha
  | succ depth ih =>
    intro n hn a ha
    unfold Assembly.resolve
    by_cases hbuilt : (a.part? n.id).isSome
    · rw [if_pos hbuilt]
      exact ha
    · rw [if_neg hbuilt]
      by_cases hcircle : n.id ∈ path
      · rw [if_pos hcircle]
        exact hstop a ha
      · rw [if_neg hcircle]
        exact (foldlM fun c _ => follow hstop (ih (n.id :: path)) c).bind (h n hn) a ha

theorem resolveSinks (hstop : ∀ a, P a → Q a)
    (h : ∀ n ∈ g.nodes, Ends P Q (buildNode g master noise n)) (depth : Nat) :
    Ends P Q (resolveSinks g master noise depth) :=
  foldlM fun sink hsink => resolve hstop h depth [] sink (List.mem_filter.mp hsink).1

end Ends

/-- A property is kept, however the building ends. -/
def Keeps (P : Assembly α → Prop) (build : Assembly α → Except (Stopped α) (Assembly α)) : Prop :=
  ∀ a, P a → P (reached (build a))

/-- Keeping a property is ending with it in either case. -/
theorem keeps_iff_ends {P : Assembly α → Prop}
    {build : Assembly α → Except (Stopped α) (Assembly α)} : Keeps P build ↔ Ends P P build := by
  refine forall_congr' fun a => imp_congr_right fun _ => ?_
  cases build a <;> rfl

namespace Keeps

variable {P : Assembly α → Prop} {build build' : Assembly α → Except (Stopped α) (Assembly α)}

/-- Two properties that are kept are kept together. -/
theorem and {Q : Assembly α → Prop} (h : Keeps P build) (h' : Keeps Q build) :
    Keeps (fun a => P a ∧ Q a) build :=
  fun a ha => ⟨h a ha.1, h' a ha.2⟩

theorem bind (h : Keeps P build) (h' : Keeps P build') : Keeps P fun a => build a >>= build' :=
  keeps_iff_ends.mpr ((keeps_iff_ends.mp h).bind (keeps_iff_ends.mp h'))

theorem foldlM {τ : Type} {f : Assembly α → τ → Except (Stopped α) (Assembly α)} {l : List τ}
    (h : ∀ x ∈ l, Keeps P (f · x)) : Keeps P fun a => l.foldlM f a :=
  keeps_iff_ends.mpr (.foldlM fun x hx => keeps_iff_ends.mp (h x hx))

variable {g : Graph α}

theorem follow {build : Node α → Assembly α → Except (Stopped α) (Assembly α)}
    (h : ∀ n ∈ g.nodes, Keeps P (build n)) (c : Connection) :
    Keeps P (Assembly.follow g build · c) :=
  keeps_iff_ends.mpr (.follow (fun _ => id) (fun n hn => keeps_iff_ends.mp (h n hn)) c)

variable [Scalar α] {master : PrimitiveId} {noise : Noise.Source α}

/-- What building one node keeps is kept by building what feeds it too. -/
theorem resolve (h : ∀ n ∈ g.nodes, Keeps P (buildNode g master noise n)) (depth : Nat)
    (path : List NodeId) : ∀ n ∈ g.nodes, Keeps P (resolve g master noise depth path n) :=
  fun n hn => keeps_iff_ends.mpr
    (.resolve (fun _ => id) (fun m hm => keeps_iff_ends.mp (h m hm)) depth path n hn)

end Keeps

/-! ## Apart from what was there -/

/-- An assembly that was begun on a rack has only added to it, and everything it added is on record
and not released; the voices it bound are on what it added. -/
structure Apart (base : Rack α) (voicing : Voicing α) (a : Assembly α) : Prop where
  extended : base.Extends a.rack
  ids : a.made.map (·.1) = List.range' base.primitives.size a.made.length
  size : a.rack.primitives.size = base.primitives.size + a.made.length
  alive : ∀ id p, base.primitives.size ≤ id → a.rack.primitive? id = some p → p.released = false
  voices : ∀ b ∈ a.voicing.bindings,
    b ∈ voicing.bindings ∨ base.primitives.size ≤ b.2.gain.primitive

namespace Apart

variable {base : Rack α} {voicing : Voicing α} {a : Assembly α}

theorem begun (rack : Rack α) (voicing : Voicing α) :
    Apart rack voicing ⟨rack, voicing, [], []⟩ where
  extended := .refl rack
  ids := rfl
  size := rfl
  alive _ _ hid hp := absurd (Rack.lt_size_of_primitive? hp) (Nat.not_lt_of_le hid)
  voices _ hb := Or.inl hb

/-- What was added may be changed in any way but by releasing it. -/
theorem change (h : Apart base voicing a) {id : PrimitiveId} (hid : base.primitives.size ≤ id)
    {f : Primitive α → Primitive α} (hf : ∀ p, (f p).released = p.released) :
    Apart base voicing { a with rack := a.rack.update id f } where
  extended := h.extended.change hid f
  ids := h.ids
  size := (Rack.size_update a.rack id f).trans h.size
  alive other p hother hp := by
    rw [Rack.primitive?_update] at hp
    split at hp
    next =>
      obtain ⟨q, hq, rfl⟩ := Option.map_eq_some_iff.mp hp
      exact (hf q).trans (h.alive other q hother hq)
    next => exact h.alive other p hother hp
  voices := h.voices

variable [Scalar α]

theorem add (h : Apart base voicing a) (setup : Setup α) :
    Apart base voicing { a with
      rack := a.rack.add setup
      made := a.made ++ [(a.rack.primitives.size, setup.family)] } where
  extended := h.extended.push setup
  ids := by
    rw [List.map_append, h.ids, List.length_append, ← List.range'_append_1, h.size]
    rfl
  size := by
    rw [List.length_append]
    exact (Array.size_push _).trans (congrArg Nat.succ h.size)
  alive id p hid hp := by
    rw [Rack.primitive?_add] at hp
    split at hp
    next => cases hp; rfl
    next => exact h.alive id p hid hp
  voices := h.voices

theorem runStep (h : Apart base voicing a) {step : Step α}
    (hstep : step.Beyond base.primitives.size) :
    Apart base voicing (reached (a.runStep step)) := by
  cases step with
  | create setup =>
    unfold Assembly.runStep Rack.create
    by_cases hrefused : setup.family ∈ a.rack.refused
    · simpa only [hrefused, if_true, reached_error] using h
    · simpa only [hrefused, if_false, reached_ok] using h.add setup
  | connect source inlet => exact h.change hstep fun _ => rfl
  | setValue dial value => exact h.change hstep fun _ => rfl
  | register profile => exact ⟨h.extended, h.ids, h.size, h.alive, h.voices⟩
  | bind key voice =>
    refine ⟨h.extended, h.ids, h.size, h.alive, fun b hb => ?_⟩
    rcases List.mem_append.mp hb with hb | hb
    · exact h.voices b hb
    · rw [List.mem_singleton.mp hb]
      exact Or.inr hstep

end Apart

end Assembly

/-! ## Where parts come from -/

/-- The part is that of a node which was built of a row of the primitives, none of them below a
bound. -/
def Part.BuiltFor [Scalar α] (bound : PrimitiveId) (primitives : List (PrimitiveId × Family))
    (n : Node α) (part : Part α) : Prop :=
  ∃ site plan, Kind.blueprint n.panel site = .ok plan ∧ part = plan.part ∧ bound ≤ site.next ∧
    numbered site.next n.kind.outfit <:+: primitives

/-- The knobs of a node are on its own primitives. -/
theorem Part.BuiltFor.dial_of_mem_knobs [Scalar α] {bound : PrimitiveId}
    {primitives : List (PrimitiveId × Family)} {n : Node α} {part : Part α}
    (h : part.BuiltFor bound primitives n) {knob : Knob α} (hknob : knob ∈ part.knobs) :
    bound ≤ knob.dial.primitive ∧ knob.dial.primitive ∈ primitives.map (·.1) := by
  obtain ⟨site, plan, hplan, rfl, hnext, hrow⟩ := h
  obtain ⟨hdial, hlength⟩ := Kind.dial_of_mem_knobs hplan hknob
  rw [hdial]
  refine ⟨hnext, (hrow.map (·.1)).subset ?_⟩
  rw [map_fst_numbered, List.mem_range'_1]
  exact ⟨Nat.le_refl _, Nat.lt_add_of_pos_right hlength⟩

namespace Assembly

variable [Scalar α] {g : Graph α} {master : PrimitiveId} {noise : Noise.Source α}
  {base rack : Rack α}
  {voicing : Voicing α} {a : Assembly α}

theorem frame_runStep (a : Assembly α) (step : Step α) :
    (reached (a.runStep step)).parts = a.parts ∧ a.made <+: (reached (a.runStep step)).made := by
  cases step with
  | create setup =>
    unfold runStep Rack.create
    by_cases hrefused : setup.family ∈ a.rack.refused
    · simp [hrefused]
    · simp [hrefused]
  | connect source inlet => exact ⟨rfl, List.prefix_rfl⟩
  | setValue dial value => exact ⟨rfl, List.prefix_rfl⟩
  | register profile => exact ⟨rfl, List.prefix_rfl⟩
  | bind key voice => exact ⟨rfl, List.prefix_rfl⟩

/-- Apart from what was there, and with parts of nodes of the graph only. -/
structure Assembling (g : Graph α) (base : Rack α) (voicing : Voicing α) (a : Assembly α) : Prop
    extends Apart base voicing a where
  parts : ∀ entry ∈ a.parts, ∃ n ∈ g.nodes, n.id = entry.1 ∧
    entry.2.BuiltFor base.primitives.size a.made n

namespace Assembling

theorem begun (rack : Rack α) (voicing : Voicing α) :
    Assembling g rack voicing ⟨rack, voicing, [], []⟩ :=
  ⟨.begun rack voicing, fun _ hentry => absurd hentry List.not_mem_nil⟩

/-- Parts stay parts when more is made. -/
theorem parts_mono (h : Assembling g base voicing a) {b : Assembly α} (hmade : a.made <+: b.made) :
    ∀ entry ∈ a.parts, ∃ n ∈ g.nodes, n.id = entry.1 ∧
      entry.2.BuiltFor base.primitives.size b.made n := by
  intro entry hentry
  obtain ⟨n, hn, hid, site, plan, hplan, hpart, hnext, hrow⟩ := h.parts entry hentry
  exact ⟨n, hn, hid, site, plan, hplan, hpart, hnext, hrow.trans hmade.isInfix⟩

/-- What feeds a node was added too. -/
theorem le_of_mem_feeds (h : Assembling g base voicing a) {id : NodeId} {socket : String}
    {i : PrimitiveId} (hi : i ∈ a.feeds g id socket) : base.primitives.size ≤ i := by
  obtain ⟨c, -, hc⟩ := List.mem_filterMap.mp hi
  obtain ⟨part, hpart, houtput⟩ := Option.bind_eq_some_iff.mp hc
  obtain ⟨entry, hentry, rfl⟩ := Option.map_eq_some_iff.mp hpart
  obtain ⟨output, hfound, rfl⟩ := Option.map_eq_some_iff.mp houtput
  obtain ⟨n, -, -, site, plan, hplan, hpart, hnext, -⟩ :=
    h.parts entry (List.mem_of_find?_eq_some hentry)
  have hmem := List.mem_of_find?_eq_some hfound
  rw [hpart] at hmem
  exact Nat.le_trans hnext (Kind.le_of_mem_outputs hplan hmem)

theorem keeps_buildNode {n : Node α} (hn : n ∈ g.nodes) :
    Keeps (Assembling g base voicing) (buildNode g master noise n) := by
  intro a ha
  unfold buildNode
  split
  next => exact ha
  next plan hplan =>
    have hnext : base.primitives.size ≤ a.rack.primitives.size := ha.extended.size
    have hsteps : Keeps (fun b => Apart base voicing b ∧ b.parts = a.parts ∧ a.made <+: b.made)
        (plan.steps.foldlM runStep) := by
      have hbeyond : Step.AllBeyond base.primitives.size plan.steps :=
        Kind.allBeyond_of_blueprint hplan hnext fun socket i hi => ha.le_of_mem_feeds hi
      refine Keeps.foldlM fun step hstep b ⟨hb, hparts, hmade⟩ => ?_
      obtain ⟨hparts', hmade'⟩ := frame_runStep b step
      exact ⟨hb.runStep (hbeyond step hstep), hparts'.trans hparts, hmade.trans hmade'⟩
    -- the part of the node is put on record only when all its steps were carried out
    have hend := hsteps a ⟨ha.toApart, rfl, List.prefix_rfl⟩
    dsimp only at hend
    cases hrun : plan.steps.foldlM runStep a with
    | error stopped =>
      rw [hrun] at hend
      obtain ⟨hapart, hparts, hmade⟩ := hend
      exact ⟨hapart, hparts ▸ ha.parts_mono hmade⟩
    | ok b =>
      rw [hrun] at hend
      obtain ⟨hapart, hparts, hmade⟩ := hend
      refine ⟨⟨hapart.extended, hapart.ids, hapart.size, hapart.alive, hapart.voices⟩, ?_⟩
      intro entry hentry
      rcases List.mem_append.mp hentry with hold | hnew
      · exact ha.parts_mono hmade entry (hparts ▸ hold)
      · rw [List.mem_singleton.mp hnew]
        refine ⟨n, hn, rfl, _, plan, hplan, rfl, hnext, ?_⟩
        have hrow : b.made = a.made ++ numbered a.rack.primitives.size n.kind.outfit := by
          rw [(ran_of_run hrun).made, Kind.families_of_blueprint hplan]
          rfl
        exact hrow ▸ (List.suffix_append _ _).isInfix

end Assembling

end Assembly

/-! ## What was built -/

namespace Graph

variable [Scalar α] (g : Graph α) (master : PrimitiveId) (noise : Noise.Source α) (rack : Rack α)
  (voicing : Voicing α)

/-- What holds of building any node holds of the assembly that was finished, or of that at which
building stopped, and then all that was made is released. -/
theorem build_of_ends {P Q : Assembly α → Prop} (hbegun : P ⟨rack, voicing, [], []⟩)
    (hstop : ∀ a, P a → Q a)
    (hends : ∀ n ∈ g.nodes, Assembly.Ends P Q (Assembly.buildNode g master noise n)) :
    (∃ a, P a ∧ g.build master noise rack voicing = ⟨.ok (a.finish g), a.rack, a.voicing⟩) ∨
      ∃ a, Q a ∧ ∃ fault, g.build master noise rack voicing =
        ⟨.error fault, a.rack.releaseAll (a.made.map (·.1)), a.voicing⟩ := by
  have hend := Assembly.Ends.resolveSinks hstop hends (g.nodes.length + 1) _ hbegun
  unfold build buildWithin
  cases hresolve : Assembly.resolveSinks g master noise (g.nodes.length + 1)
      ⟨rack, voicing, [], []⟩ with
  | ok a =>
    rw [hresolve] at hend
    exact .inl ⟨a, hend, rfl⟩
  | error stopped =>
    rw [hresolve] at hend
    exact .inr ⟨stopped.reached, hend, stopped.fault, rfl⟩

/-- What building any node keeps holds of the assembly with which building ended. It was finished,
or all that it made was released. -/
theorem build_of_keeps {P : Assembly α → Prop} (hbegun : P ⟨rack, voicing, [], []⟩)
    (hkeeps : ∀ n ∈ g.nodes, Assembly.Keeps P (Assembly.buildNode g master noise n)) :
    ∃ a, P a ∧
      (g.build master noise rack voicing = ⟨.ok (a.finish g), a.rack, a.voicing⟩ ∨
        ∃ fault, g.build master noise rack voicing =
          ⟨.error fault, a.rack.releaseAll (a.made.map (·.1)), a.voicing⟩) := by
  have hends := fun n hn => Assembly.keeps_iff_ends.mp (hkeeps n hn)
  rcases g.build_of_ends master noise rack voicing hbegun (fun _ => id) hends with
    ⟨a, ha, hbuild⟩ | ⟨a, ha, hbuild⟩
  · exact ⟨a, ha, .inl hbuild⟩
  · exact ⟨a, ha, .inr hbuild⟩

/-- Either an assembly was finished, or all that it made was released. -/
theorem build_cases : ∃ a, Assembly.Assembling g rack voicing a ∧
    (g.build master noise rack voicing = ⟨.ok (a.finish g), a.rack, a.voicing⟩ ∨
      ∃ fault, g.build master noise rack voicing =
        ⟨.error fault, a.rack.releaseAll (a.made.map (·.1)), a.voicing⟩) := by
  exact g.build_of_keeps master noise rack voicing (.begun rack voicing) fun n hn =>
    Assembly.Assembling.keeps_buildNode hn

variable {g master noise rack voicing}

/-- Building adds to a rack and leaves what was there as it was. -/
theorem extends_build : rack.Extends (g.build master noise rack voicing).rack := by
  obtain ⟨a, ha, hbuild | ⟨fault, hbuild⟩⟩ := g.build_cases master noise rack voicing
  · rw [hbuild]
    exact ha.extended
  · rw [hbuild]
    refine ha.extended.releaseAll fun id hid => ?_
    rw [ha.ids, List.mem_range'_1] at hid
    exact hid.1

/-- After a fault all that was added is released and patched into nothing. -/
theorem released_of_build {fault : Patch.Fault}
    (h : (g.build master noise rack voicing).outcome = .error fault) {id : PrimitiveId}
    {p : Primitive α} (hid : rack.primitives.size ≤ id)
    (hp : (g.build master noise rack voicing).rack.primitive? id = some p) :
    p.released = true ∧ p.outputs = [] := by
  obtain ⟨a, ha, hbuild | ⟨_, hbuild⟩⟩ := g.build_cases master noise rack voicing
  · rw [hbuild] at h
    cases h
  · rw [hbuild] at hp
    have hmade : id ∈ a.made.map (·.1) := by
      rw [ha.ids, List.mem_range'_1, ← ha.size, ← Rack.size_releaseAll a.rack (a.made.map (·.1))]
      exact ⟨hid, Rack.lt_size_of_primitive? hp⟩
    rw [Rack.primitive?_releaseAll, if_pos hmade] at hp
    obtain ⟨q, -, rfl⟩ := Option.map_eq_some_iff.mp hp
    exact ⟨rfl, rfl⟩

/-- Building binds voices on what it adds only. -/
theorem voices_of_build {b : Key × Voice}
    (hb : b ∈ (g.build master noise rack voicing).voicing.bindings) :
    b ∈ voicing.bindings ∨ rack.primitives.size ≤ b.2.gain.primitive := by
  obtain ⟨a, ha, hbuild | ⟨_, hbuild⟩⟩ := g.build_cases master noise rack voicing
  · rw [hbuild] at hb
    exact ha.voices b hb
  · rw [hbuild] at hb
    exact ha.voices b hb

/-- A patch that was built owns a row of primitives that begins where the rack ended, and its parts
are those of nodes of the graph. -/
theorem patch_of_build {patch : Patch α}
    (h : (g.build master noise rack voicing).outcome = .ok patch) :
    patch.ids = List.range' rack.primitives.size patch.primitives.length ∧
      (g.build master noise rack voicing).rack.primitives.size =
        rack.primitives.size + patch.primitives.length ∧
      (∀ entry ∈ patch.parts, ∃ n ∈ g.nodes, n.id = entry.1 ∧
        entry.2.BuiltFor rack.primitives.size patch.primitives n) ∧
      ∀ id p, rack.primitives.size ≤ id →
        (g.build master noise rack voicing).rack.primitive? id = some p → p.released = false := by
  obtain ⟨a, ha, hbuild | ⟨_, hbuild⟩⟩ := g.build_cases master noise rack voicing
  · rw [hbuild] at h ⊢
    obtain rfl : a.finish g = patch := Except.ok.inj h
    refine ⟨ha.ids, ha.size, fun entry hentry => ?_, ha.alive⟩
    obtain ⟨n, -, hpart⟩ := List.mem_filterMap.mp hentry
    obtain ⟨part, hfound, rfl⟩ := Option.map_eq_some_iff.mp hpart
    obtain ⟨found, hmem, rfl⟩ := Option.map_eq_some_iff.mp hfound
    have hid : found.1 = n.id := by simpa using List.find?_some hmem
    obtain ⟨m, hm, hmid, hbuilt⟩ := ha.parts found (List.mem_of_find?_eq_some hmem)
    exact ⟨m, hm, hmid.trans hid, hbuilt⟩
  · rw [hbuild] at h
    cases h

/-- The primitives of what was built, if it could be built. -/
def builtIds : Except Patch.Fault (Patch α) → List PrimitiveId
  | .ok patch => patch.ids
  | .error _ => []

/-- Of what building added, nothing stays unreleased but the primitives of a patch. -/
theorem unreleased_build : (g.build master noise rack voicing).rack.unreleased =
    rack.unreleased ++ builtIds (g.build master noise rack voicing).outcome := by
  cases houtcome : (g.build master noise rack voicing).outcome with
  | ok patch =>
    obtain ⟨hids, hsize, -, halive⟩ := patch_of_build houtcome
    rw [extends_build.unreleased_eq halive, hsize, Nat.add_sub_cancel_left]
    exact congrArg (rack.unreleased ++ ·) hids.symm
  | error fault =>
    rw [extends_build.unreleased_eq fun id p hid hp => (released_of_build houtcome hid hp).1]
    rfl

end Graph

end Patchbay
