import Patchbay.Proofs.Program.Alike
import Patchbay.Proofs.Program.Prepared
/-!
# Running blocks

A program runs the blocks of its nodes one after another, and then wires them. At every point
between, the stage holds what was run so far (`Stage.Holds`): the nodes lie on the rack one after
another, they are reached by their names, and the wires are those of the nodes themselves and of the
connections that were wired. A block makes its node (`Holds.make`), and then sets the parameters of
the sockets that nothing is patched into (`Holds.inlines`).
-/

namespace Patchbay

variable {α : Type}

/-! ## Wires of primitives that were made -/

theorem mem_wiresFrom {first id : PrimitiveId} {l : List (Primitive α)} {inlet : Inlet} :
    (id, inlet) ∈ wiresFrom first l ↔
      ∃ i p, l[i]? = some p ∧ id = first + i ∧ inlet ∈ p.outputs := by
  induction l generalizing first with
  | nil => simp
  | cons p l ih =>
    rw [wiresFrom_cons, List.mem_append, ih]
    constructor
    · rintro (h | ⟨i, q, hq, rfl, hinlet⟩)
      · obtain ⟨inlet', hinlet, heq⟩ := List.mem_map.mp h
        cases heq
        exact ⟨0, p, rfl, rfl, hinlet⟩
      · exact ⟨i + 1, q, hq, Nat.add_right_comm first 1 i, hinlet⟩
    · rintro ⟨i, q, hq, rfl, hinlet⟩
      cases i with
      | zero =>
        cases hq
        exact .inl (List.mem_map.mpr ⟨inlet, hinlet, rfl⟩)
      | succ i => exact .inr ⟨i, q, hq, (Nat.add_right_comm first 1 i).symm, hinlet⟩

section

variable [Scalar α] (rack : Rack α) (dial : Dial) (v : α)

theorem Rack.outputsOf_setBase (id : PrimitiveId) :
    (rack.setBase dial v).outputsOf id = rack.outputsOf id := by
  refine rack.outputsOf_update_of_outputs dial.primitive ?_ id
  exact fun _ => rfl

theorem Rack.statesAt_setBase (t : α) :
    (rack.setBase dial v).statesAt t =
      (rack.statesAt t).modify dial.primitive (·.set dial.param v) :=
  rack.statesAt_update _ fun _ _ => Primitive.stateAt_mapTimeline fun _ _ => rfl

end

/-- No monitor has an inline value. -/
theorem Kind.not_isMonitor_of_inline {k : Kind} {s : Socket} (hs : s ∈ k.inputs)
    (hinline : s.inline.isSome) : k.isMonitor = false := by
  cases k
  all_goals
    simp only [inputs] at hs
    fin_cases hs
  all_goals first | exact absurd hinline Bool.false_ne_true | rfl

namespace Script

open Program

/-- Where inlets are in use after a stretch of a program. -/
theorem Stage.mem_outputsOf_after {base : Stage α} {w : Work α} {id : PrimitiveId} {inlet : Inlet} :
    inlet ∈ (base.after w).rack.outputsOf id ↔
      inlet ∈ base.rack.outputsOf id ∨ (id, inlet) ∈ wiresFrom base.size w.made := by
  rw [mem_wiresFrom]
  by_cases hid : id < base.size
  · have hold : (base.after w).rack.primitive? id = base.rack.primitive? id :=
      Array.getElem?_append_left hid
    unfold Rack.outputsOf
    rw [hold]
    constructor
    · exact .inl
    · rintro (h | ⟨i, p, -, rfl, -⟩)
      · exact h
      · exact absurd hid (Nat.not_lt.mpr (Nat.le_add_right _ _))
  · obtain ⟨i, rfl⟩ := Nat.exists_eq_add_of_le (Nat.le_of_not_lt hid)
    have hnone : base.rack.primitive? (base.size + i) = none :=
      Array.getElem?_eq_none (Nat.le_add_right _ _)
    unfold Rack.outputsOf
    rw [primitive?_after, hnone]
    cases hp : w.made[i]? with
    | none => simp [hp]
    | some p => simp [hp]

/-! ## What a stage holds -/

/-- The names by which the sockets of a node are reached. -/
structure Stage.Reaches (s : Stage α) (master : PrimitiveId) (k : Kind) (first : PrimitiveId)
    (block : Block α) : Prop where
  outputs : ∀ o ∈ k.outputs, ∃ x, block.output? o.name = some (.name x) ∧
    s.scope x = some (.object (first + k.outlet))
  inputs : ∀ i ∈ k.inputs, ∃ wire, block.wire? i.name = some wire ∧
    Wire.Leads s i (k.inlets master first i) wire

theorem Stage.Reaches.extend {s s' : Stage α} {master first : PrimitiveId} {k : Kind}
    {block : Block α} (h : s.Reaches master k first block) (hextends : s.Extends s') :
    s'.Reaches master k first block where
  outputs o ho :=
    let ⟨x, hx, hobject⟩ := h.outputs o ho
    ⟨x, hx, hextends.scope _ _ hobject⟩
  inputs i hi :=
    let ⟨wire, hwire, hleads⟩ := h.inputs i hi
    ⟨wire, hwire, hextends.leads hleads⟩

/-- The nodes of some places that have primitives in a program: all but the monitors. -/
def heardOf (placed : List (Node α × Nat)) : List (Node α) :=
  (placed.map (·.1)).filter fun n => !n.kind.isMonitor

variable [Scalar α]

/-- What a stage holds after the blocks of the nodes at some places were run, and some connections
wired. -/
structure Stage.Holds (s : Stage α) (g : Graph α) (master start : PrimitiveId) (seconds : α)
    (placed : List (Node α × Nat)) (done : List Connection) (level : Node α → String → α) :
    Prop where
  prepared : s.Prepared g master
  arranged : Arranged (fun _ => True) start level (heardOf placed) s.rack s.voicing
  reaches : ∀ entry ∈ placed, entry.1.kind.isMonitor = false →
    s.Reaches master entry.1.kind (firstIn (heardOf placed) start entry.1.id)
      (nodeBlock (blockName entry.2) seconds entry.1.panel)
  wires : ∀ id, start ≤ id → ∀ inlet, inlet ∈ s.rack.outputsOf id ↔
    (∃ n ∈ heardOf placed,
      (id, inlet) ∈ n.kind.inner master (firstIn (heardOf placed) start n.id)) ∨
    ∃ c ∈ done, ∃ n ∈ heardOf placed, c.target = n.id ∧
      id = g.handle (firstIn (heardOf placed) start) c ∧
      inlet ∈ n.kind.inletsAt master (firstIn (heardOf placed) start n.id) c.input

variable {page : Page α} {g : Graph α} {master start : PrimitiveId} {seconds : α}
  {placed : List (Node α × Nat)} {done : List Connection} {level : Node α → String → α}
  {s : Stage α} {n : Node α} {place : Nat} {w : Work α} {block : Block α}

/-! ## Making nodes -/

omit [Scalar α] in
theorem heardOf_concat (hmonitor : n.kind.isMonitor = false) :
    heardOf (placed ++ [(n, place)]) = heardOf placed ++ [n] := by
  simp [heardOf, List.filter_append, hmonitor]

omit [Scalar α] in
theorem heardOf_concat_monitor (hmonitor : n.kind.isMonitor = true) :
    heardOf (placed ++ [(n, place)]) = heardOf placed := by
  simp [heardOf, List.filter_append, hmonitor]

omit [Scalar α] in
theorem mem_heardOf : n ∈ heardOf placed ↔
    n.kind.isMonitor = false ∧ ∃ place, (n, place) ∈ placed := by
  simp [heardOf, and_comm]

theorem Work.Makes.extends (h : w.Makes s (blockName place) master n.panel block)
    (hfresh : s.Fresh place) : s.Extends (s.after w) where
  scope x v hx := by
    refine (declared_of_notMem fun var hvar heq => ?_).trans hx
    obtain ⟨r, hr⟩ := h.vars var hvar
    rw [← heq, hr, hfresh place (Nat.le_refl _)] at hx
    cases hx
  families id f hf := by
    rw [Stage.families_after, List.getElem?_append_left (List.getElem?_eq_some_iff.mp hf).1]
    exact hf
  lists i l hl := by
    have hi : i + 1 < (s.lists.modify 0 (· ++ w.sources)).length := by
      rw [List.length_modify]
      exact (List.getElem?_eq_some_iff.mp hl).1
    show (s.lists.modify 0 (· ++ w.sources) ++ w.lists)[i + 1]? = some l
    rw [List.getElem?_append_left hi, List.getElem?_modify, hl]
    simp

/-- A block declares names of its own only. -/
theorem Work.Makes.scope (h : w.Makes s (blockName place) master n.panel block) {x : String}
    (hx : ∀ r, x ≠ blockName place ++ "_" ++ r) : (s.after w).scope x = s.scope x :=
  declared_of_notMem fun var hvar heq =>
    let ⟨r, hr⟩ := h.vars var hvar
    hx r (heq.symm.trans hr)

theorem Work.Makes.fresh (h : w.Makes s (blockName place) master n.panel block)
    (hfresh : s.Fresh place) : (s.after w).Fresh (place + 1) := fun later hlater r =>
  (h.scope fun _ heq => absurd (blockName_inj heq) (Nat.ne_of_gt hlater)).trans
    (hfresh later (Nat.le_of_succ_le hlater) r)

theorem Work.Makes.prepared (h : w.Makes s (blockName place) master n.panel block)
    (hprepared : s.Prepared g master) : (s.after w).Prepared g master := by
  refine hprepared.congr (fun x hx => h.scope fun r heq => hx (heq ▸ head?_blockName place r)) ?_
  obtain ⟨sources, lists, hlists, hobjects⟩ := hprepared.objects
  refine ⟨sources ++ w.sources, lists ++ w.lists, ?_,
    List.forall_mem_append.mpr ⟨hobjects, h.sources⟩⟩
  show s.lists.modify 0 (· ++ w.sources) ++ w.lists = _
  rw [hlists]
  rfl

/-- The node of a block comes after the others, with the levels that the block gives it. -/
theorem Work.Makes.arranged {order : List (Node α)} {name : String}
    (h : w.Makes s name master n.panel block) (hnew : n.id ∉ order.map (·.id))
    (harranged : Arranged (fun _ => True) start level order s.rack s.voicing) :
    ∃ level', (∀ m, m.id ≠ n.id → level' m = level m) ∧
      Arranged (fun _ => True) start level' (order ++ [n]) (s.after w).rack
        (s.after w).voicing := by
  obtain ⟨own, hown⟩ := h.states
  let level' (m : Node α) : String → α := if m.id = n.id then own else level m
  have hsame : ∀ m, m.id ≠ n.id → level' m = level m := fun m hm => if_neg hm
  have hothers : ∀ m ∈ order, m.id ≠ n.id := fun m hm hid => hnew (hid ▸ List.mem_map_of_mem hm)
  have hlength : w.made.length = n.kind.outfit.length := by
    rw [Node.kind, ← n.panel.length_states own, ← hown 0.0, List.length_map]
  refine ⟨level', hsame, (harranged.congr fun m hm socket _ _ => ?_).add hnew
    (hlength ▸ s.size_after w) (fun t _ => ?_) (congrArg (s.voicing.profiles ++ ·) h.profiles)
    (congrArg (s.voicing.bindings ++ ·) h.bindings)⟩
  · rw [hsame m (hothers m hm)]
  · rw [show level' n = own from if_pos rfl, ← hown t]
    simp [Rack.statesAt, Stage.after]

/-- A block makes its node. -/
theorem Stage.Holds.make (h : s.Holds g master start seconds placed [] level)
    (hnew : n.id ∉ placed.map (·.1.id)) (hmonitor : n.kind.isMonitor = false)
    (hfresh : s.Fresh place)
    (hmakes : w.Makes s (blockName place) master n.panel
      (nodeBlock (blockName place) seconds n.panel)) :
    ∃ level', (∀ m, m.id ≠ n.id → level' m = level m) ∧
      (s.after w).Holds g master start seconds (placed ++ [(n, place)]) [] level' := by
  have hextends := hmakes.extends hfresh
  have hnew' : n.id ∉ (heardOf placed).map (·.id) := by
    intro hid
    obtain ⟨m, hm, hid⟩ := List.mem_map.mp hid
    obtain ⟨-, place', hm⟩ := mem_heardOf.mp hm
    exact hnew (hid ▸ List.mem_map.mpr ⟨_, hm, rfl⟩)
  -- the node begins where the rack ended, and the others stay where they are
  have hfirst : firstIn (heardOf placed ++ [n]) start n.id = s.size :=
    (firstIn_append_cons hnew').trans h.arranged.size.symm
  have hold : ∀ m ∈ heardOf placed,
      firstIn (heardOf placed ++ [n]) start m.id = firstIn (heardOf placed) start m.id :=
    fun m hm => firstIn_append (List.mem_map_of_mem hm)
  obtain ⟨level', hsame, harranged⟩ := hmakes.arranged hnew' h.arranged
  refine ⟨level', hsame, hmakes.prepared h.prepared, ?_, ?_, ?_⟩
  · rwa [heardOf_concat hmonitor]
  · rw [heardOf_concat hmonitor]
    refine List.forall_mem_append.mpr ⟨fun entry hentry hheard => ?_,
      List.forall_mem_singleton.mpr fun _ => ?_⟩
    · rw [hold entry.1 (mem_heardOf.mpr ⟨hheard, entry.2, hentry⟩)]
      exact (h.reaches entry hentry hheard).extend hextends
    · rw [hfirst]
      exact ⟨hmakes.outputs, hmakes.inputs⟩
  · intro id hid inlet
    rw [Stage.mem_outputsOf_after, h.wires id hid inlet, heardOf_concat hmonitor, hmakes.wires]
    simp only [List.not_mem_nil, false_and, exists_false, or_false]
    constructor
    · rintro (⟨m, hm, hinner⟩ | hinner)
      · exact ⟨m, List.mem_append_left _ hm, (hold m hm).symm ▸ hinner⟩
      · exact ⟨n, List.mem_append_right _ (List.mem_singleton_self n), hfirst.symm ▸ hinner⟩
    · rintro ⟨m, hm, hinner⟩
      rcases List.mem_append.mp hm with hm | hm
      · exact .inl ⟨m, hm, hold m hm ▸ hinner⟩
      · obtain rfl := List.mem_singleton.mp hm
        exact .inr (hfirst ▸ hinner)

/-! ## Setting parameters -/

omit [Scalar α] in
/-- The stage with another rack of the same families. -/
theorem Stage.extends_rack {rack : Rack α} (h : rack.families = s.rack.families) :
    s.Extends { s with rack } :=
  ⟨fun _ _ hx => hx, fun _ _ hf => h ▸ hf, fun _ _ hl => hl⟩

theorem Stage.Prepared.with_rack (h : s.Prepared g master) (rack : Rack α) :
    { s with rack }.Prepared g master :=
  h.congr (fun _ _ => rfl) h.objects

variable (page) in
/-- A wire into a parameter is an expression for the parameter. -/
theorem Wire.Leads.means_param {socket : Socket} {inlets : List Inlet} {path : Expr α}
    {combine : Combine} (h : Wire.Leads s socket inlets (.param path combine)) :
    ∃ dial, inlets = [.dial dial] ∧ Means page s path (.param dial) := by
  obtain ⟨-, x, dial, rfl, hx, ⟨family, hfamily, hparam⟩, hinlets⟩ := h
  refine ⟨dial, hinlets, (Means.name hx).member ?_⟩
  simp [Stage.member?, hfamily, hparam]

variable (page) in
/-- Setting the parameter of a socket gives the socket a new level, and leaves the names. -/
theorem Stage.Holds.tune (h : s.Holds g master start seconds placed done level)
    (hentry : (n, place) ∈ placed) {socket : Socket} (hsocket : socket ∈ n.kind.inputs)
    (hinline : socket.inline.isSome) {path : Expr α} {combine : Combine}
    (hwire : (nodeBlock (blockName place) seconds n.panel).wire? socket.name =
      some (.param path combine)) (v : α) :
    ∃ s', exec page (.setValue path (.number v)) s = some s' ∧ s.Extends s' ∧ s'.scope = s.scope ∧
      s'.Holds g master start seconds placed done (tuned level n.id socket.name v) := by
  have hmonitor := Kind.not_isMonitor_of_inline hsocket hinline
  have hn : n ∈ heardOf placed := mem_heardOf.mpr ⟨hmonitor, place, hentry⟩
  obtain ⟨wire, hwire', hleads⟩ := (h.reaches _ hentry hmonitor).inputs socket hsocket
  obtain rfl : Wire.param path combine = wire := Option.some.inj (hwire.symm.trans hwire')
  obtain ⟨dial, hinlets, hmeans⟩ := hleads.means_param page
  rw [Kind.inlets_of_inline hsocket hinline] at hinlets
  cases hinlets
  let dial : Dial := ⟨firstIn (heardOf placed) start n.id, Kind.drivenBy socket.name⟩
  have hextends : s.Extends { s with rack := s.rack.setBase dial v } :=
    Stage.extends_rack (s.rack.families_update _ fun _ => rfl)
  refine ⟨_, exec_assign hmeans (.number v) rfl, hextends, rfl, h.prepared.with_rack _, ?_,
    fun entry hentry' hheard => (h.reaches entry hentry' hheard).extend hextends,
    fun id hid inlet => ?_⟩
  · exact h.arranged.tune hn hsocket hinline v (Rack.size_update _ _ _)
      fun t => Rack.statesAt_setBase _ _ _ _
  · rw [← h.wires id hid inlet, Rack.outputsOf_setBase]

/-! ## Blocks -/

/-- Where nothing is patched into a socket, its level is the inline value. -/
def Inlined (g : Graph α) (order : List (Node α)) (level : Node α → String → α) : Prop :=
  ∀ n ∈ order, ∀ socket ∈ n.kind.inputs, socket.inline.isSome →
    g.isConnected n.id socket.name = false → level n socket.name = n.panel.inlineLevel socket.name

/-- The statement that sets the parameter of a socket to its inline value. -/
def inlineValue? (g : Graph α) (n : Node α) (block : Block α) (socket : Socket) :
    Option (Stmt α) :=
  match socket.inline, block.wire? socket.name with
  | some control, some (.param path _) =>
    if g.isConnected n.id socket.name then none
    else some (.setValue path (.number (n.panel.number control)))
  | _, _ => none

theorem inlineLevel_eq {panel : Panel α} {socket : Socket} (hsocket : socket ∈ panel.kind.inputs)
    {control : String} (hcontrol : socket.inline = some control) :
    panel.inlineLevel socket.name = panel.number control := by
  unfold Panel.inlineLevel
  rw [Kind.input?_eq_some_iff.mpr ⟨hsocket, rfl⟩, Option.bind_some, hcontrol, Option.getD_some]

variable (page) in
/-- A socket that nothing is patched into is set to its inline value. -/
theorem Stage.Holds.inline (h : s.Holds g master start seconds placed done level)
    (hentry : (n, place) ∈ placed) {socket : Socket} (hsocket : socket ∈ n.kind.inputs)
    (hinline : socket.inline.isSome) (hconnected : g.isConnected n.id socket.name = false) :
    ∃ statement s', inlineValue? g n (nodeBlock (blockName place) seconds n.panel) socket =
        some statement ∧
      exec page statement s = some s' ∧ s.Extends s' ∧ s'.scope = s.scope ∧
      s'.Holds g master start seconds placed done
        (tuned level n.id socket.name (n.panel.inlineLevel socket.name)) := by
  obtain ⟨control, hcontrol⟩ := Option.isSome_iff_exists.mp hinline
  have hmonitor := Kind.not_isMonitor_of_inline hsocket hinline
  obtain ⟨wire, hwire, hleads⟩ := (h.reaches _ hentry hmonitor).inputs socket hsocket
  have hreplaces : socket.combine.replaces = true :=
    (Kind.inline_of_replaces hsocket).trans hinline
  cases wire with
  | object e => exact absurd (hleads.1.symm.trans hreplaces) Bool.false_ne_true
  | param path combine =>
    obtain ⟨s', hexec, hextends, hscope, hholds⟩ :=
      h.tune page hentry hsocket hinline hwire (n.panel.inlineLevel socket.name)
    refine ⟨_, s', ?_, hexec, hextends, hscope, hholds⟩
    simp [inlineValue?, hcontrol, show _ = some _ from hwire, hconnected,
      inlineLevel_eq hsocket hcontrol]
  | each list field => exact absurd (hleads.1.symm.trans hreplaces) Bool.false_ne_true
  | dropped => exact hleads.elim

variable (page) in
/-- The parameters of sockets that nothing is patched into are set to their inline values. -/
theorem Stage.Holds.inlines (h : s.Holds g master start seconds placed done level)
    (hentry : (n, place) ∈ placed) {sockets : List Socket} (hsockets : sockets ⊆ n.kind.inputs) :
    ∃ s' level', execAll page (sockets.filterMap
        (inlineValue? g n (nodeBlock (blockName place) seconds n.panel))) s = some s' ∧
      s.Extends s' ∧ s'.scope = s.scope ∧
      s'.Holds g master start seconds placed done level' ∧
      (∀ m, m.id ≠ n.id → level' m = level m) ∧
      (∀ x, level n x = n.panel.inlineLevel x → level' n x = n.panel.inlineLevel x) ∧
      ∀ socket ∈ sockets, socket.inline.isSome → g.isConnected n.id socket.name = false →
        level' n socket.name = n.panel.inlineLevel socket.name := by
  induction sockets generalizing s level with
  | nil =>
    refine ⟨s, level, ?_, .refl s, rfl, h, fun _ _ => rfl, fun _ hx => hx,
      fun _ hsocket => absurd hsocket List.not_mem_nil⟩
    exact execAll_nil page s
  | cons socket sockets ih =>
    obtain ⟨hsocket, hrest⟩ := List.cons_subset.mp hsockets
    -- only what nothing is patched into is set, so that later sockets keep the levels set before
    by_cases hset : socket.inline.isSome ∧ g.isConnected n.id socket.name = false
    · obtain ⟨statement, s₁, hstatement, hexec, hextends, hscope, hholds⟩ :=
        h.inline page hentry hsocket hset.1 hset.2
      obtain ⟨s', level', hexec', hextends', hscope', hholds', hothers, hkept, hlevels⟩ :=
        ih hholds hrest
      refine ⟨s', level', ?_, hextends.trans hextends', hscope'.trans hscope, hholds',
        fun m hm => (hothers m hm).trans (if_neg hm), fun x hx => hkept x ?_,
        List.forall_mem_cons.mpr ⟨fun _ _ => hkept _ ?_, hlevels⟩⟩
      · rw [List.filterMap_cons_some hstatement, execAll_cons hexec]
        exact hexec'
      · by_cases hname : x = socket.name
        · simp [tuned, hname]
        · simp [tuned, hname, hx]
      · simp [tuned]
    · obtain ⟨s', level', hexec', hextends', hscope', hholds', hothers, hkept, hlevels⟩ :=
        ih h hrest
      refine ⟨s', level', ?_, hextends', hscope', hholds', hothers, hkept,
        List.forall_mem_cons.mpr ⟨fun hinline hconnected => absurd ⟨hinline, hconnected⟩ hset,
          hlevels⟩⟩
      rw [List.filterMap_cons_none]
      · exact hexec'
      · unfold inlineValue?
        split
        next hcontrol hwire =>
          rw [if_pos]
          by_contra hconnected
          exact hset ⟨by rw [hcontrol]; rfl, by simpa using hconnected⟩
        next => rfl

/-- What a block leaves. -/
structure Stage.Placed (s s' : Stage α) (g : Graph α) (master start : PrimitiveId) (seconds : α)
    (placed : List (Node α × Nat)) (place : Nat) (level : Node α → String → α) : Prop where
  extends' : s.Extends s'
  fresh : s'.Fresh place
  holds : s'.Holds g master start seconds placed [] level
  inlined : Inlined g (heardOf placed) level

theorem Stage.Holds.monitor (h : s.Holds g master start seconds placed done level)
    (hmonitor : n.kind.isMonitor = true) :
    s.Holds g master start seconds (placed ++ [(n, place)]) done level := by
  refine ⟨h.prepared, ?_, ?_, ?_⟩
  · rw [heardOf_concat_monitor hmonitor]
    exact h.arranged
  · rw [heardOf_concat_monitor hmonitor]
    refine List.forall_mem_append.mpr ⟨h.reaches, List.forall_mem_singleton.mpr fun hheard => ?_⟩
    exact absurd (hmonitor.symm.trans hheard) Bool.noConfusion
  · rw [heardOf_concat_monitor hmonitor]
    exact h.wires

variable (page) in
/-- The block of a node makes the node and sets its inline values. A monitor has an empty block. -/
theorem Stage.Holds.lay (h : s.Holds g master start seconds placed [] level)
    (hinlined : Inlined g (heardOf placed) level) (hfresh : s.Fresh place) (hn : n ∈ g.nodes)
    (haccepted : n.panel.Accepted) (hnew : n.id ∉ placed.map (·.1.id)) :
    ∃ s' level', execAll page (blockOf g seconds n place).statements s = some s' ∧
      s.Placed s' g master start seconds (placed ++ [(n, place)]) (place + 1) level' := by
  have hstatements : (blockOf g seconds n place).statements =
      heading n :: ((nodeBlock (blockName place) seconds n.panel).statements ++
        n.kind.inputs.filterMap (inlineValue? g n (nodeBlock (blockName place) seconds n.panel))) :=
    rfl
  rw [hstatements, execAll_cons (show exec page (heading n) s = some s from rfl)]
  cases hmonitor : n.kind.isMonitor with
  | true =>
    refine ⟨s, level, ?_, .refl s, fun later hlater => hfresh later (Nat.le_of_succ_le hlater),
      h.monitor hmonitor, by rwa [heardOf_concat_monitor hmonitor]⟩
    obtain ⟨id, kind, values⟩ := n
    cases kind
    case timeVisualizer | frequencyVisualizer | consoleDebugger => rfl
    all_goals cases hmonitor
  | false =>
    obtain ⟨w, hdoes, hmakes⟩ := makes_of_accepted page h.prepared hfresh hn haccepted
      hmonitor seconds
    obtain ⟨level₁, hsame, hmade⟩ := h.make hnew hmonitor hfresh hmakes
    obtain ⟨s', level', hexec, hextends, hscope, hholds, hothers, -, hlevels⟩ :=
      hmade.inlines page (List.mem_append_right _ (List.mem_singleton_self _))
        (List.Subset.refl n.kind.inputs)
    refine ⟨s', level', ?_, (hmakes.extends hfresh).trans hextends, fun later hlater r => ?_,
      hholds, ?_⟩
    · rw [execAll_append, hdoes.exec_none]
      exact hexec
    · rw [hscope]
      exact hmakes.fresh hfresh later hlater r
    · rw [heardOf_concat hmonitor]
      refine List.forall_mem_append.mpr ⟨fun m hm => ?_, List.forall_mem_singleton.mpr hlevels⟩
      have hne : m.id ≠ n.id := fun hid =>
        let ⟨_, place', hm⟩ := mem_heardOf.mp hm
        hnew (hid ▸ List.mem_map.mpr ⟨_, hm, rfl⟩)
      rw [hothers m hne, hsame m hne]
      exact hinlined m hm

variable (page) in
/-- The blocks of nodes one after another. -/
theorem Stage.Holds.layAll {rest : List (Node α)}
    (h : s.Holds g master start seconds placed [] level)
    (hinlined : Inlined g (heardOf placed) level) (hfresh : s.Fresh place)
    (hrest : ∀ n ∈ rest, n ∈ g.nodes ∧ n.panel.Accepted)
    (hnodup : (placed.map (·.1.id) ++ rest.map (·.id)).Nodup) :
    ∃ s' level', execAll page ((rest.zipIdx place).flatMap fun entry =>
        (blockOf g seconds entry.1 entry.2).statements) s = some s' ∧
      s.Placed s' g master start seconds (placed ++ rest.zipIdx place) (place + rest.length)
        level' := by
  induction rest generalizing s place placed level with
  | nil =>
    refine ⟨s, level, ?_, .refl s, hfresh, ?_, ?_⟩
    · exact execAll_nil page s
    · rwa [List.zipIdx_nil, List.append_nil]
    · rwa [List.zipIdx_nil, List.append_nil]
  | cons n rest ih =>
    obtain ⟨⟨hn, haccepted⟩, hrest⟩ := List.forall_mem_cons.mp hrest
    have hnew : n.id ∉ placed.map (·.1.id) := fun hid =>
      (List.nodup_append.mp hnodup).2.2 _ hid _ List.mem_cons_self rfl
    obtain ⟨s₁, level₁, hexec, hplaced⟩ := h.lay page hinlined hfresh hn haccepted hnew
    obtain ⟨s', level', hexec', hplaced'⟩ :=
      ih hplaced.holds hplaced.inlined hplaced.fresh hrest (by simpa using hnodup)
    refine ⟨s', level', ?_, hplaced.extends'.trans hplaced'.extends', ?_, ?_, ?_⟩
    · rw [List.zipIdx_cons, List.flatMap_cons, execAll_append, hexec]
      exact hexec'
    · rw [List.length_cons, Nat.add_comm rest.length, ← Nat.add_assoc]
      exact hplaced'.fresh
    · rw [List.zipIdx_cons, List.append_cons]
      exact hplaced'.holds
    · rw [List.zipIdx_cons, List.append_cons]
      exact hplaced'.inlined

end Script

end Patchbay
