import Patchbay.Proofs.Exact
import Patchbay.Proofs.Patch.Rising
import Patchbay.Proofs.Program.Built
/-!
# Graphs on a mixer

How a graph that could be built lies on the rack of a mixer that was in use before
(`Graph.Standing`). Into an inlet of one of its nodes lead the wires of this node and no others
(`Standing.mem_inputsOf`), whatever else is on the rack, so a parameter has the level at which its
socket holds it, and is fed by the connections into its socket.
-/

namespace Patchbay

variable {α : Type} [Scalar α]

/-- A graph that was built on a mixer: the nodes upstream of the sinks lie on the rack one after
another, in the states that the graph describes and wired as it says, with nothing of theirs
released; the patch says where they are; and what was there before is as it was. -/
structure Graph.Standing (g : Graph α) (m : Mixer α) (patch : Patch α) (order : List (Node α))
    (rack : Rack α) : Prop where
  sound : g.Sound
  landing : m.rack.Landing
  master : m.master < m.rack.primitives.size
  upstream : ∀ n, n ∈ order ↔ n ∈ g.nodes ∧ g.Upstream n.id
  primitives : patch.primitives = order.flatMap fun n =>
    numbered (firstIn order m.rack.primitives.size n.id) n.kind.outfit
  built : ∀ id, (patch.part? id).isSome → g.Upstream id
  parts : ∀ n ∈ order, ∃ part, patch.part? n.id = some part ∧ ∀ s ∈ n.kind.outputs,
    part.output? s.name = some (firstIn order m.rack.primitives.size n.id + n.kind.outlet)
  extended : m.rack.Extends rack
  alive : ∀ id p, m.rack.primitives.size ≤ id → rack.primitive? id = some p → p.released = false
  arranged : ∃ voicing, Arranged (m.rack.clock ≤ ·) m.rack.primitives.size g.levelOf order rack
    voicing
  wires : g.Wires m.master m.rack.primitives.size order rack

variable {g : Graph α} {m : Mixer α} {patch : Patch α} {order : List (Node α)} {rack : Rack α}
  {n : Node α} {t : α}

open Assembly in
/-- A graph that could be built on a mixer in use stands on its rack. -/
theorem Mixer.InUse.exists_standing [Scalar.Exact α] (h : m.InUse) (hg : g.Reachable)
    {voicing : Voicing α} (hpatch : (m.build g voicing).1 = .ok patch) :
    ∃ order : List (Node α), g.Standing m patch order (m.build g voicing).2.1.rack := by
  have hsound := hg.sound
  have hclock : ¬m.rack.clock < m.rack.clock := Scalar.Exact.not_lt_iff.mpr (Scalar.Exact.le_refl _)
  obtain ⟨hlanding, hmaster⟩ := h.landing
  obtain ⟨order, first, b, hbuilt, hfinish, -, horder, hclosed, hlaid, hwired, voices,
      hdescribed⟩ :=
    hsound.wellFormed.exists_laid_of_build hpatch
      (P := fun order first a => ∃ voices, Described g m.rack order first voices a)
      (fun h _ hn hnode hP => hP.imp' _ fun voices hP =>
        hP.step h hsound.wellFormed hn hclock
          (Scalar.Exact.greatest_amp (hsound.panels _ hn.there)) hnode)
      ⟨.empty, described_fresh g m.rack voicing⟩
  obtain ⟨-, -, -, halive⟩ := Graph.patch_of_build hpatch
  refine ⟨order, hsound, hlanding, hmaster, horder, ?_, fun id hsome => ?_, fun n hn => ?_,
    Graph.extends_build, halive, ?_, ?_⟩
  · rw [← hfinish]
    refine hlaid.made.trans (List.flatMap_congr fun n hn => ?_)
    rw [hdescribed.places n hn]
  · rw [← hfinish, part?_finish] at hsome
    split at hsome
    next =>
      have hdone := isSome_part?_iff.mp hsome
      rw [hlaid.done, List.mem_map] at hdone
      obtain ⟨n, hn, rfl⟩ := hdone
      exact ((horder n).mp hn).2
    next => cases hsome
  · rw [← hfinish, part?_finish, if_pos (List.mem_map_of_mem (hlaid.nodes n hn)),
      ← hdescribed.places n hn]
    exact hlaid.outputs n hn
  · show ∃ voicing, Arranged _ _ _ _ (g.build _ _ _ _).rack voicing
    rw [hbuilt]
    exact ⟨voices, hdescribed.arranged⟩
  · show g.Wires _ _ _ (g.build _ _ _ _).rack
    rw [hbuilt]
    exact hlaid.wires hclosed hwired hdescribed.places

/-! ## Parameters of nodes -/

/-- The level of a parameter, zero when there is no such parameter. -/
def Primitive.State.level (state : Primitive.State α) (param : Param) : α :=
  ((state.levels.find? (·.1 == param)).map (·.2)).getD 0.0

/-- The value of a parameter is read off the state of its primitive. -/
theorem Rack.valueAt_eq_level (rack : Rack α) (dial : Dial) (t : α) :
    rack.valueAt dial t = (((rack.primitive? dial.primitive).map (·.stateAt t)).map
      (·.level dial.param)).getD 0.0 := by
  unfold valueAt
  cases rack.primitive? dial.primitive with
  | none => rfl
  | some p =>
    simp only [Option.bind_some, Option.map_some, Option.getD_some, Primitive.State.level,
      Primitive.stateAt, Primitive.timeline?, List.find?_map, Function.comp_def]
    cases p.timelines.find? (·.1 == dial.param) <;> rfl

/-- A socket with an inline value holds the parameter that it drives at its level. -/
theorem Panel.level_states {panel : Panel α} {s : Socket} (hs : s ∈ panel.kind.inputs)
    (hinline : s.inline.isSome) (level : String → α) :
    ((panel.states level)[0]?).map (·.level (Kind.drivenBy s.name)) = some (level s.name) := by
  obtain ⟨kind, values⟩ := panel
  cases kind
  all_goals
    simp only [Kind.inputs] at hs
    fin_cases hs
  all_goals first | exact absurd hinline Bool.false_ne_true | rfl

namespace Kind

omit [Scalar α]

variable {k : Kind} {s : Socket}

/-- A connection leads to the parameter that its socket drives. -/
theorem mem_inletsAt_dial (hs : s ∈ k.inputs) (hinline : s.inline.isSome)
    {master first : PrimitiveId} {input : String} {param : Param} :
    .dial ⟨first, param⟩ ∈ k.inletsAt master first input ↔
      ∃ s', k.input? input = some s' ∧ s'.combine ≠ .signal ∧ drivenBy s'.name = param := by
  unfold inletsAt
  cases k.input? input with
  | none => simp
  | some s' =>
    dsimp only
    rw [inlets_beside_inline hs hinline]
    by_cases hsignal : s'.combine = .signal <;> simp [hsignal, eq_comm (a := param)]

/-- A kind has one output at most. -/
theorem output_unique {output output' : String} (h : (k.output? output).isSome)
    (h' : (k.output? output').isSome) : output = output' := by
  obtain ⟨o, ho, hname⟩ := List.find?_isSome.mp h
  obtain ⟨o', ho', hname'⟩ := List.find?_isSome.mp h'
  have hsame : o = o' := by
    revert ho ho'
    cases k <;> simp only [outputs, List.mem_singleton, List.not_mem_nil, false_imp_iff]
    all_goals exact fun h h' => h.trans h'.symm
  exact (beq_iff_eq.mp hname).symm.trans (hsame ▸ beq_iff_eq.mp hname')

end Kind

omit [Scalar α] in
/-- From one node one connection can lead into a socket. -/
theorem Graph.WellFormed.connection_ext (hg : g.WellFormed) {c c' : Connection}
    (hc : c ∈ g.connections) (hc' : c' ∈ g.connections) (hsource : c.source = c'.source)
    (htarget : c.target = c'.target) (hinput : c.input = c'.input) : c = c' := by
  obtain ⟨k, hk, hid, houtput⟩ := hg.source hc
  obtain ⟨k', hk', hid', houtput'⟩ := hg.source hc'
  obtain rfl := hg.eq_of_id_eq hk hk' (hid.trans (hsource.trans hid'.symm))
  have houtputs := Kind.output_unique houtput houtput'
  cases c
  cases c'
  simp_all only

namespace Graph.Standing

/-! ## Where nodes lie -/

theorem nodup (h : g.Standing m patch order rack) : (order.map (·.id)).Nodup :=
  h.arranged.choose_spec.nodup

theorem mem_nodes (h : g.Standing m patch order rack) (hn : n ∈ order) : n ∈ g.nodes :=
  ((h.upstream n).mp hn).1

theorem mem_order (h : g.Standing m patch order rack) (hn : n ∈ g.nodes)
    (hbuilt : (patch.part? n.id).isSome) : n ∈ order :=
  (h.upstream n).mpr ⟨hn, h.built n.id hbuilt⟩

/-- The nodes that feed a node that was built were built, and the handle of a connection from one of
them is the primitive behind its outputs. -/
theorem exists_source (h : g.Standing m patch order rack) (hn : n ∈ order) {c : Connection}
    (hc : c ∈ g.connectionsInto n.id) : ∃ k ∈ order, k.id = c.source ∧
      (k.kind.output? c.output).isSome ∧ k.kind.outlet < k.kind.outfit.length ∧
      g.handle (firstIn order m.rack.primitives.size) c =
        firstIn order m.rack.primitives.size k.id + k.kind.outlet := by
  obtain ⟨hc, htarget⟩ := mem_connectionsInto.mp hc
  obtain ⟨k, hk, hid, houtput⟩ := h.sound.wellFormed.source hc
  have hup : g.Upstream k.id := hid ▸ Upstream.source hc (htarget ▸ ((h.upstream n).mp hn).2)
  refine ⟨k, (h.upstream k).mpr ⟨hk, hup⟩, hid, houtput, ?_, ?_⟩
  · exact Kind.outlet_lt (List.ne_nil_of_mem (List.find?_isSome.mp houtput).choose_spec.1)
  · unfold handle
    rw [h.sound.wellFormed.node?_eq_some_iff.mpr ⟨hk, hid⟩, hid]

theorem output_of_part (h : g.Standing m patch order rack) (hn : n ∈ order) {c : Connection}
    (hc : c ∈ g.connectionsInto n.id) : (patch.part? c.source).bind (·.output? c.output) =
      some (g.handle (firstIn order m.rack.primitives.size) c) := by
  obtain ⟨k, hk, hid, houtput, -, hhandle⟩ := h.exists_source hn hc
  obtain ⟨part, hpart, houtputs⟩ := h.parts k hk
  obtain ⟨s, hs, hname⟩ := List.find?_isSome.mp houtput
  rw [← hid, hpart, hhandle, ← beq_iff_eq.mp hname]
  exact houtputs s hs

/-- A node whose output is that of its first primitive. -/
theorem output_of_signal (h : g.Standing m patch order rack) (hn : n ∈ order)
    (hsignal : Kind.signalOut ∈ n.kind.outputs) (houtlet : n.kind.outlet = 0) :
    (patch.part? n.id).bind (·.output? "signal") =
      some (firstIn order m.rack.primitives.size n.id) := by
  obtain ⟨part, hpart, houtputs⟩ := h.parts n hn
  rw [hpart, ← Nat.add_zero (firstIn _ _ _), ← houtlet]
  exact houtputs _ hsignal

/-! ## What is patched into nodes -/

/-- The wires of the nodes that were built come from what was created. -/
theorem le_of_wiring (h : g.Standing m patch order rack) {w : PrimitiveId × Inlet}
    (hw : w ∈ order.flatMap (g.wiring m.master (firstIn order m.rack.primitives.size))) :
    m.rack.primitives.size ≤ w.1 := by
  obtain ⟨n, hn, hw⟩ := List.mem_flatMap.mp hw
  rcases List.mem_append.mp hw with hw | hw
  · exact Nat.le_trans (start_le_firstIn _ _ _) (Kind.inner_range hw).1
  · obtain ⟨c, hc, hw⟩ := List.mem_flatMap.mp hw
    obtain ⟨inlet, -, rfl⟩ := List.mem_map.mp hw
    obtain ⟨k, -, -, -, -, hhandle⟩ := h.exists_source hn hc
    rw [hhandle]
    exact Nat.le_add_right_of_le (start_le_firstIn _ _ _)

/-- Into an inlet lead the wires of before and those of the nodes that were built. -/
theorem mem_inputsOf_iff (h : g.Standing m patch order rack) {inlet : Inlet} {q : PrimitiveId} :
    q ∈ rack.inputsOf inlet ↔ q ∈ m.rack.inputsOf inlet ∨
      (q, inlet) ∈ order.flatMap (g.wiring m.master (firstIn order m.rack.primitives.size)) := by
  rw [Rack.mem_inputsOf, Rack.mem_inputsOf]
  constructor
  · rintro ⟨p, hp, hlive, hinlet⟩
    rcases Nat.lt_or_ge q m.rack.primitives.size with hold | hnew
    · exact .inl ⟨p, (h.extended.kept q hold).symm.trans hp, hlive, hinlet⟩
    · exact .inr ((h.wires q hnew inlet).mp (Rack.outputsOf_of_primitive? hp ▸ hinlet))
  · rintro (⟨p, hp, hlive, hinlet⟩ | hw)
    · exact ⟨p, (h.extended.kept q (Rack.lt_size_of_primitive? hp)).trans hp, hlive, hinlet⟩
    · have hnew := h.le_of_wiring hw
      have hinlet := (h.wires q hnew inlet).mpr hw
      obtain ⟨p, hp⟩ := Rack.exists_primitive? (Rack.lt_size_of_mem_outputsOf hinlet)
      exact ⟨p, hp, h.alive q p hnew hp, Rack.outputsOf_of_primitive? hp ▸ hinlet⟩

/-- Into an inlet of a node lead the wires of this node. -/
theorem mem_inputsOf (h : g.Standing m patch order rack) (hn : n ∈ order) {i : Nat}
    (hi : i < n.kind.outfit.length) {inlet : Inlet}
    (hplace : inlet.place = firstIn order m.rack.primitives.size n.id + i)
    (hinlet : inlet ≠ .input Rack.destination) {q : PrimitiveId} : q ∈ rack.inputsOf inlet ↔
      (q, inlet) ∈ g.wiring m.master (firstIn order m.rack.primitives.size) n := by
  have hnew : m.rack.primitives.size ≤ inlet.place :=
    hplace ▸ Nat.le_add_right_of_le (start_le_firstIn _ _ _)
  rw [h.mem_inputsOf_iff]
  constructor
  · rintro (hold | hw)
    · obtain ⟨p, hp, -, hmem⟩ := Rack.mem_inputsOf.mp hold
      rcases h.landing q inlet (Rack.outputsOf_of_primitive? hp ▸ hmem) with hlow | rfl
      · exact absurd hlow (Nat.not_lt.mpr hnew)
      · exact absurd rfl hinlet
    · obtain ⟨k, hk, hw⟩ := List.mem_flatMap.mp hw
      rcases wiring_into hw with ⟨hmaster, -⟩ | ⟨j, hj, hplace'⟩
      · have hmaster : inlet = .input m.master := hmaster
        rw [hmaster] at hnew
        exact absurd h.master (Nat.not_lt.mpr hnew)
      · obtain ⟨hid, -⟩ := firstIn_inj h.nodup hk hn hj hi (hplace'.symm.trans hplace)
        exact List.inj_on_of_nodup_map h.nodup hk hn hid ▸ hw
  · exact fun hw => .inr (List.mem_flatMap.mpr ⟨n, hn, hw⟩)

/-! ## Parameters -/

/-- The value of a parameter is the level at which its socket holds it. -/
theorem valueAt_eq (h : g.Standing m patch order rack) (hn : n ∈ order) {s : Socket}
    (hs : s ∈ n.kind.inputs) (hinline : s.inline.isSome) (ht : m.rack.clock ≤ t) :
    rack.valueAt ⟨firstIn order m.rack.primitives.size n.id, Kind.drivenBy s.name⟩ t =
      g.levelOf n s.name := by
  obtain ⟨voicing, harranged⟩ := h.arranged
  rw [Rack.valueAt_eq_level]
  dsimp only
  rw [← Nat.add_zero (firstIn _ _ _), harranged.state hn (Panel.outfit_pos hs hinline) ht,
    Panel.level_states hs hinline]
  rfl

/-- A parameter is fed by the connections into the sockets that drive it. -/
theorem mem_inputsOf_dial (h : g.Standing m patch order rack) (hn : n ∈ order) {s : Socket}
    (hs : s ∈ n.kind.inputs) (hinline : s.inline.isSome) {q : PrimitiveId} :
    q ∈ rack.inputsOf
        (.dial ⟨firstIn order m.rack.primitives.size n.id, Kind.drivenBy s.name⟩) ↔
      ∃ s' ∈ n.kind.inputs, s'.combine ≠ .signal ∧ Kind.drivenBy s'.name = Kind.drivenBy s.name ∧
        ∃ c ∈ g.feeding n.id s'.name, g.handle (firstIn order m.rack.primitives.size) c = q := by
  rw [h.mem_inputsOf hn (Panel.outfit_pos hs hinline) rfl Inlet.noConfusion, wiring,
    Kind.inner_of_inline hs hinline, List.nil_append, List.mem_flatMap]
  constructor
  · rintro ⟨c, hc, hw⟩
    obtain ⟨inlet, hinlet, heq⟩ := List.mem_map.mp hw
    obtain ⟨rfl, rfl⟩ := Prod.mk.inj heq
    obtain ⟨s', hs', hsignal, hdrives⟩ := (Kind.mem_inletsAt_dial hs hinline).mp hinlet
    obtain ⟨hmem, hname⟩ := Kind.input?_eq_some_iff.mp hs'
    exact ⟨s', hmem, hsignal, hdrives, c, List.mem_filter.mpr ⟨hc, beq_iff_eq.mpr hname.symm⟩, rfl⟩
  · rintro ⟨s', hs', hsignal, hdrives, c, hc, rfl⟩
    obtain ⟨hc, hname⟩ := List.mem_filter.mp hc
    have hfound := Kind.input?_eq_some_iff.mpr ⟨hs', (beq_iff_eq.mp hname).symm⟩
    exact ⟨c, hc, List.mem_map_of_mem
      ((Kind.mem_inletsAt_dial hs hinline).mpr ⟨s', hfound, hsignal, hdrives⟩)⟩

/-- Connections into a node come from the same primitive just when they come from the same node. -/
theorem handle_eq_iff (h : g.Standing m patch order rack) (hn : n ∈ order) {c c' : Connection}
    (hc : c ∈ g.connectionsInto n.id) (hc' : c' ∈ g.connectionsInto n.id) :
    g.handle (firstIn order m.rack.primitives.size) c =
      g.handle (firstIn order m.rack.primitives.size) c' ↔ c.source = c'.source := by
  obtain ⟨k, hk, hid, -, hlt, hhandle⟩ := h.exists_source hn hc
  obtain ⟨k', hk', hid', -, hlt', hhandle'⟩ := h.exists_source hn hc'
  rw [hhandle, hhandle', ← hid, ← hid']
  constructor
  · exact fun heq => (firstIn_inj h.nodup hk hk' hlt hlt' heq).1
  · intro hsame
    obtain rfl := List.inj_on_of_nodup_map h.nodup hk hk' hsame
    rfl

/-- Connections into one socket come from different primitives. -/
theorem handle_inj (h : g.Standing m patch order rack) (hn : n ∈ order) {socket : String}
    {c c' : Connection} (hc : c ∈ g.feeding n.id socket) (hc' : c' ∈ g.feeding n.id socket)
    (heq : g.handle (firstIn order m.rack.primitives.size) c =
      g.handle (firstIn order m.rack.primitives.size) c') : c = c' := by
  have hsource := (h.handle_eq_iff hn (List.mem_filter.mp hc).1 (List.mem_filter.mp hc').1).mp heq
  obtain ⟨hc, htarget, hinput⟩ := mem_feeding.mp hc
  obtain ⟨hc', htarget', hinput'⟩ := mem_feeding.mp hc'
  exact h.sound.wellFormed.connection_ext hc hc' hsource (htarget.trans htarget'.symm)
    (hinput.trans hinput'.symm)

theorem nodup_handles (h : g.Standing m patch order rack) (hn : n ∈ order) (socket : String) :
    ((g.feeding n.id socket).map (g.handle (firstIn order m.rack.primitives.size))).Nodup :=
  List.Nodup.map_on (fun _ hc _ hc' heq => h.handle_inj hn hc hc' heq)
    (h.sound.wellFormed.nodup_feeding n.id socket)

end Graph.Standing

end Patchbay
