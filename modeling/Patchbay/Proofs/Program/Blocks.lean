import Patchbay.Proofs.Program.States
import Patchbay.Proofs.Program.Statements
/-!
# Blocks one by one

What the block of a node makes (`Work.Makes`): primitives in the states of the node, wired among
themselves as the node is, its profiles and voices, and names by which the sockets are reached
(`Wire.Leads`).
-/

namespace Patchbay

variable {α : Type}

/-- The wires from primitives that lie on a rack from a place on. -/
def wiresFrom (first : PrimitiveId) (primitives : List (Primitive α)) :
    List (PrimitiveId × Inlet) :=
  (primitives.zipIdx first).flatMap fun (p, id) => p.outputs.map (id, ·)

@[simp]
theorem wiresFrom_nil (first : PrimitiveId) : wiresFrom first ([] : List (Primitive α)) = [] := rfl

@[simp]
theorem wiresFrom_cons (first : PrimitiveId) (p : Primitive α) (l : List (Primitive α)) :
    wiresFrom first (p :: l) = p.outputs.map (first, ·) ++ wiresFrom (first + 1) l := rfl

namespace Script

open Program

/-- The program reaches a parameter. -/
def Stage.HasParam (s : Stage α) (dial : Dial) : Prop :=
  ∃ family, s.rack.families[dial.primitive]? = some family ∧
    family.param? dial.param.name = some dial.param

/-- A wire into a socket leads to inlets. -/
def Wire.Leads (s : Stage α) (socket : Socket) (inlets : List Inlet) : Wire α → Prop
  | .object e => socket.combine.replaces = false ∧ ∃ x id, e = .name x ∧
      s.scope x = some (.object id) ∧ inlets = [.input id]
  | .param path combine => combine = socket.combine ∧ ∃ x dial,
      path = .member (.name x) dial.param.name ∧ s.scope x = some (.object dial.primitive) ∧
        s.HasParam dial ∧ inlets = [.dial dial]
  | .each list field => socket.combine.replaces = false ∧ ∃ (x : String) (place : Nat)
      (ids : List PrimitiveId) (param : Param), list = .name x ∧
      s.scope x = some (.list (place + 1)) ∧ s.lists[place + 1]? = some (ids.map .object) ∧
      field = param.name ∧ (∀ id ∈ ids, s.HasParam ⟨id, param⟩) ∧
      inlets = ids.map fun id => .dial ⟨id, param⟩
  | .dropped => False

/-- What the block of a node finds: the context, the master input and the list of sources, and none
of its own names. -/
structure Stage.Ready (s : Stage α) (name : String) (master : PrimitiveId) : Prop where
  ctx : s.scope "ctx" = some .context
  sources : s.scope "sources" = some (.list 0)
  lists : s.lists ≠ []
  master : s.scope "master" = some (.object master)
  math : s.scope "Math" = some .math
  fresh : ∀ r, s.scope (name ++ "_" ++ r) = none
  apart : ∀ x r, x.toList.head? ≠ some 'n' → x ≠ name ++ "_" ++ r

variable {page : Page α} {base : Stage α} {name : String} {master : PrimitiveId}

theorem Stage.hasParam_after {w : Work α} {i : Nat} {p : Primitive α} {param : Param}
    (hp : w.made[i]? = some p) (hparam : p.family.param? param.name = some param) :
    (base.after w).HasParam ⟨base.size + i, param⟩ := by
  refine ⟨p.family, ?_, hparam⟩
  rw [Stage.families_after, List.getElem?_append_right] <;> simp [Rack.families, Stage.size, hp]

variable [Scalar α]

/-- The helpers of the keyboard are declared. -/
structure Stage.Plays (s : Stage α) : Prop where
  addProfile : s.scope "addProfile" = some .function
  addVoice : s.scope "addVoice" = some .function

/-- What the block of a node adds to a stage. -/
structure Work.Makes (base : Stage α) (name : String) (master : PrimitiveId) (panel : Panel α)
    (block : Block α) (w : Work α) : Prop where
  states : ∃ level, ∀ t, w.made.map (·.stateAt t) = panel.states level
  wires : wiresFrom base.size w.made = panel.kind.inner master base.size
  profiles : w.profiles = panel.profiles
  bindings : w.bindings = panel.bindings base.size base.voicing.profiles.length
  vars : ∀ var ∈ w.vars, ∃ r, var.1 = name ++ "_" ++ r
  sources : ∀ v ∈ w.sources, ∃ id, v = .object id
  outputs : ∀ s ∈ panel.kind.outputs, ∃ x, block.output? s.name = some (.name x) ∧
    (base.after w).scope x = some (.object (base.size + panel.kind.outlet))
  inputs : ∀ s ∈ panel.kind.inputs, ∃ wire, block.wire? s.name = some wire ∧
    Wire.Leads (base.after w) s (panel.kind.inlets master base.size s) wire

omit [Scalar α] in
theorem Wire.leads_object {w : Work α} {x : String} {socket : Socket} (i : Nat)
    (hsocket : socket.combine.replaces = false)
    (hx : (base.after w).scope x = some (.object (base.size + i))) :
    Wire.Leads (base.after w) socket [.input (base.size + i)] (.object (.name x)) :=
  ⟨hsocket, x, base.size + i, rfl, hx, rfl⟩

omit [Scalar α] in
theorem Wire.leads_param {w : Work α} {x : String} {socket : Socket} (i : Nat) {p : Primitive α}
    {param : Param} (hx : (base.after w).scope x = some (.object (base.size + i)))
    (hp : w.made[i]? = some p) (hparam : p.family.param? param.name = some param) :
    Wire.Leads (base.after w) socket [.dial ⟨base.size + i, param⟩]
      (.param (.member (.name x) param.name) socket.combine) :=
  ⟨rfl, x, ⟨base.size + i, param⟩, rfl, hx, Stage.hasParam_after hp hparam, rfl⟩

/-- The block of a node can be run, and makes the node. -/
def Makes (page : Page α) (base : Stage α) (name : String) (master : PrimitiveId) (seconds : α)
    (panel : Panel α) : Prop :=
  ∃ w, Does page base .none (nodeBlock name seconds panel).statements w ∧
    w.Makes base name master panel (nodeBlock name seconds panel)

section

variable (h : base.Ready name master) (seconds : α) (values : List (Control.Value α))

include h

theorem makes_constant : Makes page base name master seconds ⟨.constant, values⟩ := by
  refine ⟨_, .cons (exec_make ?_ ?_ rfl) <|
    .cons (exec_setValue ((Means.object 0 ?_).param rfl rfl) (.number _)) <|
    .cons (exec_addSource ?_ h.lists (.object 0 ?_)) .nil, ?_⟩
  rotate_right
  · refine ⟨⟨fun _ => 0.0, fun t => rfl⟩, rfl, rfl, rfl, by simp, by simp, ?_,
      by simp [Kind.inputs]⟩
    exact List.forall_mem_singleton.mpr ⟨_, rfl, by simp; rfl⟩
  all_goals simp (disch := decide) [Function.update_apply, h.ctx, h.sources, h.fresh, h.apart]

theorem makes_noteFrequency : Makes page base name master seconds ⟨.noteFrequency, values⟩ := by
  refine ⟨_, .cons (exec_make ?_ ?_ rfl) <|
    .cons (exec_setValue ((Means.object 0 ?_).param rfl rfl) (.number _)) <|
    .cons (exec_addSource ?_ h.lists (.object 0 ?_)) .nil, ?_⟩
  rotate_right
  · refine ⟨⟨fun _ => 0.0, fun t => rfl⟩, rfl, rfl, rfl, by simp, by simp, ?_,
      by simp [Kind.inputs]⟩
    exact List.forall_mem_singleton.mpr ⟨_, rfl, by simp; rfl⟩
  all_goals simp (disch := decide) [Function.update_apply, h.ctx, h.sources, h.fresh, h.apart]

theorem makes_oscillator {waveform : Waveform}
    (hwaveform : Waveform.ofName? (Panel.choice ⟨.oscillator, values⟩ "waveform") = some waveform) :
    Makes page base name master seconds ⟨.oscillator, values⟩ := by
  refine ⟨_, .cons (exec_make ?_ ?_ rfl) <|
    .cons (exec_fit (.oscillator waveform 440.0) (.object 0 ?_) (.text _) rfl ?_) <|
    .cons (exec_addSource ?_ h.lists (.object 0 ?_)) .nil, ?_⟩
  rotate_right
  · refine ⟨⟨fun _ => 440.0, fun t => ?_⟩, rfl, rfl, rfl, by simp, by simp, ?_, ?_⟩
    · simp only [Panel.states, hwaveform]
      rfl
    · exact List.forall_mem_singleton.mpr ⟨_, rfl, by simp; rfl⟩
    · simp only [Kind.inputs, List.forall_mem_cons]
      exact ⟨⟨_, rfl, Wire.leads_param 0 (by simp) rfl rfl⟩,
        ⟨_, rfl, Wire.leads_param 0 (by simp) rfl rfl⟩, by simp⟩
  all_goals simp (disch := decide) [Function.update_apply, h.ctx, h.sources, h.fresh, h.apart,
    assigned?, Primitive.new, hwaveform]

theorem makes_gain : Makes page base name master seconds ⟨.gain, values⟩ := by
  refine ⟨_, .cons (exec_make ?_ ?_ rfl) .nil, ?_⟩
  rotate_right
  · refine ⟨⟨fun _ => 1.0, fun t => rfl⟩, rfl, rfl, rfl, by simp, by simp, ?_, ?_⟩
    · exact List.forall_mem_singleton.mpr ⟨_, rfl, by simp; rfl⟩
    · simp only [Kind.inputs, List.forall_mem_cons]
      exact ⟨⟨_, rfl, Wire.leads_object 0 rfl (by simp)⟩,
        ⟨_, rfl, Wire.leads_param 0 (by simp) rfl rfl⟩, by simp⟩
  all_goals simp [h.ctx, h.fresh]

theorem makes_biquadFilter {response : Response}
    (hresponse : Response.ofName? (Panel.choice ⟨.biquadFilter, values⟩ "filterType") =
      some response) :
    Makes page base name master seconds ⟨.biquadFilter, values⟩ := by
  refine ⟨_, .cons (exec_make ?_ ?_ rfl) <|
    .cons (exec_fit (.biquadFilter response) (.object 0 ?_) (.text _) rfl ?_) .nil, ?_⟩
  rotate_right
  · refine ⟨⟨fun socket =>
      if socket = "frequency" then 350.0 else if socket = "q" then 1.0 else 0.0,
      fun t => ?_⟩, rfl, rfl, rfl, by simp, by simp, ?_, ?_⟩
    · simp only [Panel.states, hresponse]
      rfl
    · exact List.forall_mem_singleton.mpr ⟨_, rfl, by simp; rfl⟩
    · simp only [Kind.inputs, List.forall_mem_cons]
      exact ⟨⟨_, rfl, Wire.leads_object 0 rfl (by simp)⟩,
        ⟨_, rfl, Wire.leads_param 0 (by simp) rfl rfl⟩,
        ⟨_, rfl, Wire.leads_param 0 (by simp) rfl rfl⟩,
        ⟨_, rfl, Wire.leads_param 0 (by simp) rfl rfl⟩, by simp⟩
  all_goals simp [h.ctx, h.fresh, assigned?, Primitive.new, hresponse]

theorem makes_delay : Makes page base name master seconds ⟨.delay, values⟩ := by
  refine ⟨_, .cons
      (exec_const (eval_make ?_ (evalAll_singleton (.number _)) (Nat.le_refl _) rfl) ?_)
    .nil, ?_⟩
  rotate_right
  · refine ⟨⟨fun _ => 0.0, fun t => rfl⟩, rfl, rfl, rfl, by simp, by simp, ?_, ?_⟩
    · exact List.forall_mem_singleton.mpr ⟨_, rfl, by simp; rfl⟩
    · simp only [Kind.inputs, List.forall_mem_cons]
      exact ⟨⟨_, rfl, Wire.leads_object 0 rfl (by simp)⟩,
        ⟨_, rfl, Wire.leads_param 0 (by simp) rfl rfl⟩, by simp⟩
  all_goals simp [h.ctx, h.fresh]

theorem makes_transpose : Makes page base name master seconds ⟨.transpose, values⟩ := by
  refine ⟨_, .cons (exec_make ?_ ?_ rfl) <|
    .cons (exec_setValue ((Means.object 0 ?_).param rfl rfl) (.number _)) .nil, ?_⟩
  rotate_right
  · refine ⟨⟨fun _ => 0.0, fun t => rfl⟩, rfl, rfl, rfl, by simp, by simp, ?_, ?_⟩
    · exact List.forall_mem_singleton.mpr ⟨_, rfl, by simp; rfl⟩
    · exact List.forall_mem_singleton.mpr ⟨_, rfl, Wire.leads_object 0 rfl (by simp)⟩
  all_goals simp [h.ctx, h.fresh]

theorem makes_dynamicsCompressor :
    Makes page base name master seconds ⟨.dynamicsCompressor, values⟩ := by
  refine ⟨_, .cons (exec_make ?_ ?_ rfl) <|
    .cons (exec_setValue ((Means.object 0 ?_).param rfl rfl) (.number _)) <|
    .cons (exec_setValue ((Means.object 0 ?_).param rfl rfl) (.number _)) <|
    .cons (exec_setValue ((Means.object 0 ?_).param rfl rfl) (.number _)) <|
    .cons (exec_setValue ((Means.object 0 ?_).param rfl rfl) (.number _)) <|
    .cons (exec_setValue ((Means.object 0 ?_).param rfl rfl) (.number _)) .nil, ?_⟩
  rotate_right
  · refine ⟨⟨fun _ => 0.0, fun t => rfl⟩, rfl, rfl, rfl, by simp, by simp, ?_, ?_⟩
    · exact List.forall_mem_singleton.mpr ⟨_, rfl, by simp; rfl⟩
    · exact List.forall_mem_singleton.mpr ⟨_, rfl, Wire.leads_object 0 rfl (by simp)⟩
  all_goals simp [h.ctx, h.fresh]

theorem makes_audioOutput : Makes page base name master seconds ⟨.audioOutput, values⟩ := by
  refine ⟨_, .nil, ⟨fun _ => 0.0, fun t => rfl⟩, rfl, rfl, rfl, by simp, by simp,
    by simp [Kind.outputs], ?_⟩
  exact List.forall_mem_singleton.mpr ⟨_, rfl, rfl, _, master, rfl, by simp [h.master], rfl⟩

omit h in
theorem means_curve {s : Stage α} (x y : α) :
    Means page s (.construct "Float32Array" [.list [.number x, .number y]])
      (.curve [(Scalar.toFloat x).toFloat32, (Scalar.toFloat y).toFloat32]) :=
  .construct (evalAll_singleton (.items (List.cons_ne_nil _ _)
    (evalAll_cons (.number x) (evalAll_singleton (.number y))))) rfl

theorem makes_clip : Makes page base name master seconds ⟨.clip, values⟩ := by
  refine ⟨_, .cons (exec_make ?_ ?_ rfl) <|
    .cons (exec_setValue ((Means.object 0 ?_).param rfl rfl) (.number _)) <|
    .cons (exec_make ?_ ?_ rfl) <|
    .cons (exec_fit (.waveShaper _) (.object 1 ?_) (means_curve _ _) rfl rfl) <|
    .cons (exec_connect (.object 0 ?_) (.object 1 ?_) rfl) .nil, ?_⟩
  rotate_right
  · refine ⟨⟨fun _ => 0.0, fun t => rfl⟩, rfl, rfl, rfl, by simp, by simp, ?_, ?_⟩
    · exact List.forall_mem_singleton.mpr ⟨_, rfl, by simp; rfl⟩
    · exact List.forall_mem_singleton.mpr ⟨_, rfl, Wire.leads_object 0 rfl (by simp)⟩
  all_goals simp (disch := decide) [Function.update_apply, h.ctx, h.fresh, h.apart]

theorem makes_universalOutput :
    Makes page base name master seconds ⟨.universalOutput, values⟩ := by
  refine ⟨_, .cons (exec_make ?_ ?_ rfl) <|
    .cons (exec_setValue ((Means.object 0 ?_).param rfl rfl) (.number _)) <|
    .cons (exec_connect (.object 0 ?_) (.name (v := .object master) ?_) rfl) <|
    .cons (exec_make ?_ ?_ rfl) <|
    .cons (exec_make ?_ ?_ rfl) <|
    .cons (exec_connect (.object 0 ?_) (.object 1 ?_) rfl) <|
    .cons (exec_connect (.object 0 ?_) (.object 2 ?_) rfl) .nil, ?_⟩
  rotate_right
  · refine ⟨⟨fun _ => 0.0, fun t => rfl⟩, rfl, rfl, rfl, by simp, by simp, by simp [Kind.outputs],
      ?_⟩
    exact List.forall_mem_singleton.mpr ⟨_, rfl, Wire.leads_object 0 rfl (by simp)⟩
  all_goals simp (disch := decide) [Function.update_apply, h.ctx, h.master, h.fresh, h.apart]

omit h in
/-- The length in which a program asks for a buffer is the rounded product of the seconds and the
rate. -/
theorem means_bufferLength {s : Stage α} (hctx : s.scope "ctx" = some .context)
    (hmath : s.scope "Math" = some .math) :
    Means page s (.send (.name "Math") "round"
      [.times (.number seconds) (.member (.name "ctx") "sampleRate")])
      (.number (page.round (seconds * page.sampleRate))) := by
  have hrate : Means page s (.member (.name "ctx") "sampleRate") (.number page.sampleRate) :=
    (Means.name hctx).member rfl
  exact (Means.name hmath).send (evalAll_singleton ((Means.number seconds).times hrate)) rfl

omit h in
theorem eval_createBuffer {s : Stage α} (hctx : s.scope "ctx" = some .context)
    (hmath : s.scope "Math" = some .math) :
    eval page (ctxMake "createBuffer" [.number 1.0, .send (.name "Math") "round"
      [.times (.number seconds) (.member (.name "ctx") "sampleRate")],
      .member (.name "ctx") "sampleRate"]) s = some (.buffer, s) := by
  have hrate : Means page s (.member (.name "ctx") "sampleRate") (.number page.sampleRate) :=
    (Means.name hctx).member rfl
  refine (Means.name hctx).send (evalAll_cons (.number 1.0)
    (evalAll_cons (means_bufferLength seconds hctx hmath) (evalAll_singleton hrate))) rfl

theorem makes_noise (hfunctions : ∀ color,
      (Noise.Color.ofName? (Panel.choice ⟨.noise, values⟩ "noiseType")).getD .white = color →
      base.scope (noiseFunction color) = some .function) :
    Makes page base name master seconds ⟨.noise, values⟩ := by
  have hplain : ∀ color, (noiseFunction color).toList.head? ≠ some 'n' := fun color => by
    cases color <;> decide
  refine ⟨_, .cons (exec_const (eval_createBuffer seconds ?_ ?_) ?_) <|
    .cons (exec_fill ?_
      ((Means.name (v := .buffer) ?_).send (evalAll_singleton (.number 0.0)) rfl)) <|
    .cons (exec_make ?_ ?_ rfl) <|
    .cons (exec_fit (.bufferSource #[] false) (.object 0 ?_) (.name (v := .buffer) ?_) rfl rfl) <|
    .cons (exec_fit (.bufferSource #[] true) (.object 0 ?_) (.bool _) rfl rfl) <|
    .cons (exec_addSource ?_ h.lists (.object 0 ?_)) .nil, ?_⟩
  rotate_right
  · refine ⟨⟨fun _ => 0.0, fun t => rfl⟩, rfl, rfl, rfl, by simp, by simp, ?_,
      by simp [Kind.inputs]⟩
    exact List.forall_mem_singleton.mpr ⟨_, rfl, by simp; rfl⟩
  all_goals simp (disch := first | decide | exact hplain _) [Function.update_apply, h.ctx,
    h.sources, h.math, h.fresh, h.apart, hfunctions _ rfl]

theorem makes_keyboardAdsr {key : Key}
    (hkey : Key.ofCode? (Panel.choice ⟨.keyboardAdsr, values⟩ "keyCode") = some key)
    (hplays : base.Plays) : Makes page base name master seconds ⟨.keyboardAdsr, values⟩ := by
  refine ⟨_, .cons (exec_make ?_ ?_ rfl) <|
    .cons (exec_setValue ((Means.object 0 ?_).param rfl rfl) (.number _)) <|
    .cons (exec_addVoice ?_ (.text _) hkey ((Means.object 0 ?_).param rfl rfl)
      (eval_addProfile ?_ _)) .nil, ?_⟩
  rotate_right
  · refine ⟨⟨fun _ => 0.0, fun t => rfl⟩, rfl, rfl, ?_, by simp, by simp, ?_, ?_⟩
    · simp only [Panel.bindings, Panel.voices, hkey]
      rfl
    · exact List.forall_mem_singleton.mpr ⟨_, rfl, by simp; rfl⟩
    · exact List.forall_mem_singleton.mpr ⟨_, rfl, Wire.leads_object 0 rfl (by simp)⟩
  all_goals simp (disch := decide) [Function.update_apply, h.ctx, h.fresh, h.apart,
    hplays.addProfile, hplays.addVoice]

end

end Script

end Patchbay
