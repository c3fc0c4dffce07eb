import Patchbay.Proofs.Program.Laying
/-!
# Running the wiring

After its blocks a program wires the connections one after another. A connection patches the object
behind its source into each inlet of its socket (`exec_link`), and the first one into a socket that
replaces a value sets the parameter to zero before. In the end the rack is wired as the graph is,
and every socket is at its level (`Holds.wireAll`).
-/

namespace Patchbay

variable {α : Type}

/-! ## Patching into several inlets -/

/-- Patches a primitive into inlets, one after another. -/
def Rack.connectAll (rack : Rack α) (source : PrimitiveId) (inlets : List Inlet) : Rack α :=
  inlets.foldl (fun rack inlet => rack.connect source inlet) rack

namespace Rack

variable (rack : Rack α) (source : PrimitiveId) (inlets : List Inlet)

theorem size_connectAll :
    (rack.connectAll source inlets).primitives.size = rack.primitives.size := by
  induction inlets generalizing rack with
  | nil => rfl
  | cons inlet inlets ih => exact (ih _).trans (rack.size_update _ _)

theorem families_connectAll : (rack.connectAll source inlets).families = rack.families := by
  induction inlets generalizing rack with
  | nil => rfl
  | cons inlet inlets ih => exact (ih _).trans (rack.families_update source fun _ => rfl)

theorem statesAt_connectAll [Scalar α] (t : α) :
    (rack.connectAll source inlets).statesAt t = rack.statesAt t := by
  induction inlets generalizing rack with
  | nil => rfl
  | cons inlet inlets ih => exact (ih _).trans (rack.statesAt_update_eq source fun _ => rfl)

theorem mem_outputsOf_connectAll (hsource : source < rack.primitives.size) {id : PrimitiveId}
    {inlet : Inlet} : inlet ∈ (rack.connectAll source inlets).outputsOf id ↔
      inlet ∈ rack.outputsOf id ∨ id = source ∧ inlet ∈ inlets := by
  induction inlets generalizing rack with
  | nil => simp [connectAll]
  | cons first inlets ih =>
    show inlet ∈ ((rack.connect source first).connectAll source inlets).outputsOf id ↔ _
    have hsource' : source < (rack.connect source first).primitives.size :=
      (rack.size_update _ _).symm ▸ hsource
    rw [ih _ hsource', outputsOf_connect _ hsource, List.mem_append, List.mem_cons]
    by_cases hid : source = id
    · subst hid
      simp [or_assoc]
    · simp [hid, Ne.symm hid]

end Rack

namespace Script

open Program

variable [Scalar α] {page : Page α} {g : Graph α} {master start : PrimitiveId} {seconds : α}
  {placed : List (Node α × Nat)} {done : List Connection} {level : Node α → String → α}
  {s : Stage α} {n : Node α} {place : Nat}

/-! ## Links -/

/-- The statements that patch an object into what a wire leads to. -/
def link (source : Expr α) : Wire α → List (Stmt α)
  | .object target => [connect source target]
  | .param path _ => [connect source path]
  | .each list param => [.forItems ["p"] list false [connect source (.member (.name "p") param)]]
  | .dropped => []

/-- A link patches its source into every inlet that the wire leads to. -/
theorem exec_link {x : String} {source : PrimitiveId} (hx : s.scope x = some (.object source))
    (hp : s.scope "p" = none) {socket : Socket} {inlets : List Inlet} {wire : Wire α}
    (hwire : Wire.Leads s socket inlets wire) :
    execAll page (link (.name x) wire) s =
      some { s with rack := s.rack.connectAll source inlets } := by
  have hsource : Means page s (.name x) (.object source) := Means.name hx
  cases wire with
  | object e =>
    obtain ⟨-, y, id, rfl, hy, rfl⟩ := hwire
    exact execAll_singleton (exec_patch hsource (Means.name hy) rfl)
  | param path combine =>
    obtain ⟨dial, rfl, hpath⟩ := hwire.means_param page
    exact execAll_singleton (exec_patch hsource hpath rfl)
  | each list field =>
    obtain ⟨-, y, place, ids, param, rfl, hy, hids, rfl, hparams, rfl⟩ := hwire
    have hne : x ≠ "p" := fun heq => absurd (hx.symm.trans (heq ▸ hp)) (Option.some_ne_none _)
    refine execAll_singleton ?_
    rw [Rack.connectAll, List.foldl_map]
    refine exec_forObjects (Means.name hy) hids hp
      (fun rack id => rack.families_update source fun _ => rfl)
      fun inner id hid hscope hfamilies => ?_
    obtain ⟨family, hfamily, hparam⟩ := hparams id hid
    have htarget : Means page inner (.member (.name "p") param.name) (.param ⟨id, param⟩) := by
      refine (Means.name (v := .object id) (by simp [hscope])).member ?_
      simp [Stage.member?, hfamilies, hfamily, hparam]
    have hsource' : Means page inner (.name x) (.object source) :=
      Means.name (hscope ▸ (Function.update_of_ne hne _ _).trans hx)
    exact execAll_singleton (exec_patch hsource' htarget rfl)
  | dropped => exact hwire.elim

/-! ## Blocks of a graph -/

theorem map_fst_blocks (g : Graph α) (options : Options α) :
    (blocks g options).map (·.1) = g.nodes.map (·.id) := by
  have hnodes : (g.nodes.zipIdx.map Prod.fst).map (·.id) = g.nodes.map (·.id) := by
    rw [List.zipIdx_map_fst]
  rw [← hnodes, blocks, List.map_map, List.map_map]
  rfl

/-- The block of a node is found by the name of the node. -/
theorem block?_eq (hg : g.WellFormed) (options : Options α) (hn : (n, place) ∈ g.nodes.zipIdx) :
    ((blocks g options).find? (·.1 == n.id)).map (·.2) =
      some (blockOf g options.noiseSeconds n place) := by
  have hmem : (n.id, blockOf g options.noiseSeconds n place) ∈ blocks g options :=
    List.mem_map.mpr ⟨_, hn, rfl⟩
  have hnodup : ((blocks g options).map (·.1)).Nodup := map_fst_blocks g options ▸ hg.names
  have hfound : ((blocks g options).find? (·.1 == n.id)).isSome :=
    List.find?_isSome.mpr ⟨_, hmem, beq_self_eq_true n.id⟩
  obtain ⟨entry, hentry⟩ := Option.isSome_iff_exists.mp hfound
  have hid : entry.1 = n.id := by simpa using List.find?_some hentry
  rw [hentry, List.inj_on_of_nodup_map hnodup (List.mem_of_find?_eq_some hentry) hmem hid]
  rfl

/-! ## Levels -/

/-- Where something is patched in, the level is zero. -/
def Fed (done : List Connection) (order : List (Node α)) (level : Node α → String → α) : Prop :=
  ∀ n ∈ order, ∀ socket ∈ n.kind.inputs, socket.inline.isSome →
    (∃ c ∈ done, c.target = n.id ∧ c.input = socket.name) → level n socket.name = 0.0

section

variable {order : List (Node α)} {c : Connection}

theorem Fed.concat (h : Fed done order level)
    (hlast : ∀ n ∈ order, ∀ socket ∈ n.kind.inputs, socket.inline.isSome → c.target = n.id →
      c.input = socket.name → level n socket.name = 0.0) : Fed (done ++ [c]) order level := by
  rintro n hn socket hsocket hinline ⟨c', hc', hin⟩
  rcases List.mem_append.mp hc' with hc' | hc'
  · exact h n hn socket hsocket hinline ⟨c', hc', hin⟩
  · obtain rfl := List.mem_singleton.mp hc'
    exact hlast n hn socket hsocket hinline hin.1 hin.2

/-- A further connection into a socket finds its level at zero. -/
theorem Fed.again (h : Fed done order level) (hold : alreadyReplaced done c = true) :
    Fed (done ++ [c]) order level := by
  obtain ⟨d, hd, hsame⟩ := List.any_eq_true.mp hold
  obtain ⟨htarget, hinput⟩ : d.target = c.target ∧ d.input = c.input := by simpa using hsame
  exact h.concat fun n hn socket hsocket hinline htarget' hinput' =>
    h n hn socket hsocket hinline ⟨d, hd, htarget.trans htarget', hinput.trans hinput'⟩

/-- The first connection into a socket finds its level set to zero. -/
theorem Fed.tuned (h : Fed done order level) :
    Fed (done ++ [c]) order (tuned level c.target c.input 0.0) := by
  refine Fed.concat (fun n hn socket hsocket hinline hin => ?_)
    fun n _ socket _ _ htarget hinput => ?_
  · by_cases hsame : n.id = c.target ∧ socket.name = c.input
    · rw [hsame.2, tuned_self hsame.1]
    · rw [tuned_of_ne hsame]
      exact h n hn socket hsocket hinline hin
  · rw [← hinput, tuned_self htarget.symm]

/-- A socket that something is patched into does not count as inline. -/
theorem Inlined.tuned (h : Inlined g order level) (hc : c ∈ g.connections) (v : α) :
    Inlined g order (tuned level c.target c.input v) := by
  intro n hn socket hsocket hinline hconnected
  rw [tuned_of_ne]
  · exact h n hn socket hsocket hinline hconnected
  · rintro ⟨hid, hname⟩
    have hin : g.isConnected n.id socket.name = true :=
      Graph.isConnected_iff.mpr ⟨c, hc, hid.symm, hname.symm⟩
    exact absurd (hin.symm.trans hconnected) Bool.noConfusion

end

/-! ## Ends of connections -/

omit [Scalar α] in
/-- A node that is heard is found at its place. -/
theorem eq_of_mem_heardOf (hg : g.WellFormed) {n' : Node α} (hn' : n' ∈ heardOf g.nodes.zipIdx)
    (hn : (n, place) ∈ g.nodes.zipIdx) (hid : n'.id = n.id) : n' = n :=
  let ⟨_, _, hplace⟩ := mem_heardOf.mp hn'
  hg.eq_of_id_eq (List.fst_mem_of_mem_zipIdx hplace) (List.fst_mem_of_mem_zipIdx hn) hid

omit [Scalar α] in
/-- Both ends of a connection, with the places of their nodes. -/
theorem exists_ends (hg : g.WellFormed) {c : Connection} (hc : c ∈ g.connections) :
    (∃ m place, (m, place) ∈ g.nodes.zipIdx ∧ m.id = c.source ∧
      ∃ o ∈ m.kind.outputs, o.name = c.output) ∧
    ∃ n place, (n, place) ∈ g.nodes.zipIdx ∧ n.id = c.target ∧
      ∃ socket, n.kind.input? c.input = some socket := by
  have hplace : ∀ n ∈ g.nodes, ∃ place, (n, place) ∈ g.nodes.zipIdx := fun n hn =>
    let ⟨i, hi⟩ := List.mem_iff_getElem?.mp hn
    ⟨i, List.mem_zipIdx_iff_getElem?.mpr hi⟩
  obtain ⟨m, hm, hsource, houtput⟩ := hg.source hc
  obtain ⟨k, hk, hinput⟩ := (hg.joined c hc).target
  obtain ⟨n, hn, htarget, rfl⟩ := Graph.has_iff.mp hk
  obtain ⟨o, ho, hname⟩ := List.find?_isSome.mp houtput
  obtain ⟨pm, hpm⟩ := hplace m hm
  obtain ⟨pn, hpn⟩ := hplace n hn
  exact ⟨⟨m, pm, hpm, hsource, o, ho, by simpa using hname⟩, n, pn, hpn, htarget,
    Option.isSome_iff_exists.mp hinput⟩

/-- The statement that sets a parameter to zero before the first connection that replaces its
value. -/
def zeroing (done : List Connection) (c : Connection) : Wire α → List (Stmt α)
  | .param path combine =>
    if combine.replaces && !alreadyReplaced done c then [.setValue path (.number 0.0)] else []
  | _ => []

/-- The statements of a connection: the parameter is set to zero if it is still to be said, and the
source is linked. -/
theorem wiring_eq (hg : g.WellFormed) (options : Options α) {c : Connection} {m n : Node α}
    {pm pn : Nat} (hm : (m, pm) ∈ g.nodes.zipIdx) (hsource : m.id = c.source)
    (hn : (n, pn) ∈ g.nodes.zipIdx) (htarget : n.id = c.target) {x : String} {wire : Wire α}
    (hx : (nodeBlock (blockName pm) options.noiseSeconds m.panel).output? c.output =
      some (.name x))
    (hwire : (nodeBlock (blockName pn) options.noiseSeconds n.panel).wire? c.input = some wire) :
    wiring (blocks g options) done c = zeroing done c wire ++ link (.name x) wire := by
  have hx' : (blockOf g options.noiseSeconds m pm).output? c.output = some (.name x) := hx
  have hwire' : (blockOf g options.noiseSeconds n pn).wire? c.input = some wire := hwire
  unfold wiring
  dsimp only
  rw [← hsource, ← htarget, block?_eq hg options hm, block?_eq hg options hn, Option.bind_some,
    Option.bind_some, hx', hwire']
  cases wire <;> rfl

omit [Scalar α] in
/-- The parameter of a socket that replaces its value is an expression of the block. -/
theorem Wire.Leads.exists_param {socket : Socket} {inlets : List Inlet} {wire : Wire α}
    (h : Wire.Leads s socket inlets wire) (hreplaces : socket.combine.replaces = true) :
    ∃ path combine, wire = .param path combine ∧ combine.replaces = true := by
  cases wire with
  | object e => exact absurd (h.1.symm.trans hreplaces) Bool.false_ne_true
  | param path combine => exact ⟨path, combine, rfl, h.1 ▸ hreplaces⟩
  | each list field => exact absurd (h.1.symm.trans hreplaces) Bool.false_ne_true
  | dropped => exact h.elim

/-- Nothing is set to zero but the first time. -/
theorem zeroing_eq_nil {k : Kind} {socket : Socket} (hsocket : socket ∈ k.inputs)
    {inlets : List Inlet} {c : Connection} {wire : Wire α} (h : Wire.Leads s socket inlets wire)
    (hfirst : ¬(socket.inline.isSome ∧ alreadyReplaced done c = false)) :
    zeroing done c wire = [] := by
  cases wire with
  | param path combine =>
    have hcombine : combine.replaces = socket.inline.isSome :=
      h.1 ▸ Kind.inline_of_replaces hsocket
    rw [zeroing, hcombine, if_neg (by simpa using hfirst)]
  | object e => rfl
  | each list field => rfl
  | dropped => rfl

/-- A monitor drops what is patched into it. -/
theorem wire?_monitor (hmonitor : n.kind.isMonitor = true) {input : String} {socket : Socket}
    (hsocket : n.kind.input? input = some socket) (name : String) (seconds : α) :
    (nodeBlock name seconds n.panel).wire? input = some .dropped := by
  obtain ⟨hmem, rfl⟩ := Kind.input?_eq_some_iff.mp hsocket
  obtain ⟨id, kind, values⟩ := n
  cases kind
  case timeVisualizer | frequencyVisualizer | consoleDebugger =>
    rw [List.mem_singleton.mp hmem]
    rfl
  all_goals cases hmonitor

/-! ## Connections -/

omit [Scalar α] in
theorem handle_eq (hg : g.WellFormed) {first : NodeId → PrimitiveId} {c : Connection} {m : Node α}
    (hm : m ∈ g.nodes) (hsource : m.id = c.source) :
    g.handle first c = first m.id + m.kind.outlet := by
  unfold Graph.handle
  rw [hg.node?_eq_some_iff.mpr ⟨hm, hsource⟩, hsource]

variable (page) in
/-- The link of a connection. -/
theorem Stage.Holds.link (h : s.Holds g master start seconds g.nodes.zipIdx done level)
    (hg : g.WellFormed) {c : Connection} {m : Node α} {pm : Nat}
    (hm : (m, pm) ∈ g.nodes.zipIdx) (hsource : m.id = c.source) {o : Socket}
    (ho : o ∈ m.kind.outputs) {x : String}
    (hx : s.scope x = some (.object (firstIn (heardOf g.nodes.zipIdx) start m.id + m.kind.outlet)))
    (hn : (n, place) ∈ g.nodes.zipIdx) (hheard : n.kind.isMonitor = false)
    (htarget : n.id = c.target) {socket : Socket}
    (hsocket : n.kind.input? c.input = some socket) {wire : Wire α}
    (hwire : Wire.Leads s socket
      (n.kind.inlets master (firstIn (heardOf g.nodes.zipIdx) start n.id) socket) wire) :
    ∃ s', execAll page (Script.link (.name x) wire) s = some s' ∧ s.Extends s' ∧
      s'.Holds g master start seconds g.nodes.zipIdx (done ++ [c]) level := by
  have hplaced : m ∈ heardOf g.nodes.zipIdx :=
    mem_heardOf.mpr ⟨Kind.not_isMonitor_of_output ho, pm, hm⟩
  -- an output is a primitive on the rack, so patching from it leaves a wire
  have hlt := h.arranged.lt_size hplaced (Kind.outlet_lt (List.ne_nil_of_mem ho))
  let source := firstIn (heardOf g.nodes.zipIdx) start m.id + m.kind.outlet
  let inlets := n.kind.inlets master (firstIn (heardOf g.nodes.zipIdx) start n.id) socket
  have hextends : s.Extends { s with rack := s.rack.connectAll source inlets } :=
    Stage.extends_rack (s.rack.families_connectAll _ _)
  refine ⟨_, exec_link hx (h.prepared.loops _ (by decide)) hwire, hextends,
    h.prepared.with_rack _, h.arranged.of_states (s.rack.size_connectAll _ _)
      (fun t => s.rack.statesAt_connectAll _ _ t),
    fun entry hentry hheard' => (h.reaches entry hentry hheard').extend hextends,
    fun id hid inlet => ?_⟩
  rw [Rack.mem_outputsOf_connectAll _ _ _ hlt, h.wires id hid inlet, or_assoc]
  simp only [List.mem_append, List.mem_singleton, or_and_right, exists_or, exists_eq_left]
  refine or_congr_right (or_congr_right ⟨?_, ?_⟩)
  · rintro ⟨rfl, hinlet⟩
    refine ⟨n, mem_heardOf.mpr ⟨hheard, place, hn⟩, htarget.symm,
      (handle_eq hg (List.fst_mem_of_mem_zipIdx hm) hsource).symm, ?_⟩
    unfold Kind.inletsAt
    rwa [hsocket]
  · rintro ⟨n', hn', htarget', rfl, hinlet⟩
    obtain rfl := eq_of_mem_heardOf hg hn' hn (htarget'.symm.trans htarget.symm)
    unfold Kind.inletsAt at hinlet
    rw [hsocket] at hinlet
    exact ⟨handle_eq hg (List.fst_mem_of_mem_zipIdx hm) hsource, hinlet⟩

/-- A connection to a monitor is not wired. -/
theorem Stage.Holds.drop (h : s.Holds g master start seconds g.nodes.zipIdx done level)
    (hg : g.WellFormed) {c : Connection} (hn : (n, place) ∈ g.nodes.zipIdx)
    (hmonitor : n.kind.isMonitor = true) (htarget : n.id = c.target) :
    s.Holds g master start seconds g.nodes.zipIdx (done ++ [c]) level := by
  refine ⟨h.prepared, h.arranged, h.reaches, fun id hid inlet => ?_⟩
  rw [h.wires id hid inlet]
  simp only [List.mem_append, List.mem_singleton, or_and_right, exists_or, exists_eq_left]
  refine or_congr_right (or_iff_left ?_).symm
  rintro ⟨n', hn', htarget', -⟩
  obtain rfl := eq_of_mem_heardOf hg hn' hn (htarget'.symm.trans htarget.symm)
  exact absurd (hmonitor.symm.trans (mem_heardOf.mp hn').1) Bool.noConfusion

variable (page) in
/-- Before the first connection into a socket that replaces a value, the parameter is set to
zero. -/
theorem Stage.Holds.zero (h : s.Holds g master start seconds g.nodes.zipIdx done level)
    (hg : g.WellFormed) (hfed : Fed done (heardOf g.nodes.zipIdx) level)
    (hinlined : Inlined g (heardOf g.nodes.zipIdx) level) {c : Connection}
    (hc : c ∈ g.connections) (hn : (n, place) ∈ g.nodes.zipIdx) (htarget : n.id = c.target)
    {socket : Socket} (hsocket : n.kind.input? c.input = some socket) {wire : Wire α}
    (hwire : (nodeBlock (blockName place) seconds n.panel).wire? socket.name = some wire)
    (hleads : Wire.Leads s socket
      (n.kind.inlets master (firstIn (heardOf g.nodes.zipIdx) start n.id) socket) wire) :
    ∃ s' level', execAll page (zeroing done c wire) s = some s' ∧ s.Extends s' ∧
      s'.scope = s.scope ∧ s'.Holds g master start seconds g.nodes.zipIdx done level' ∧
      Fed (done ++ [c]) (heardOf g.nodes.zipIdx) level' ∧
      Inlined g (heardOf g.nodes.zipIdx) level' := by
  obtain ⟨hmem, hname⟩ := Kind.input?_eq_some_iff.mp hsocket
  by_cases hfirst : socket.inline.isSome ∧ alreadyReplaced done c = false
  · obtain ⟨hinline, hnew⟩ := hfirst
    obtain ⟨path, combine, rfl, hcombine⟩ := hleads.exists_param
      ((Kind.inline_of_replaces hmem).trans hinline)
    obtain ⟨s', hexec, hextends, hscope, hholds⟩ :=
      h.tune page hn hmem hinline hwire (0.0 : α)
    rw [htarget, hname] at hholds
    refine ⟨s', _, ?_, hextends, hscope, hholds, hfed.tuned, hinlined.tuned hc _⟩
    rw [zeroing, hcombine, hnew]
    exact execAll_singleton hexec
  · refine ⟨s, level, ?_, .refl s, rfl, h, ?_, hinlined⟩
    · rw [zeroing_eq_nil hmem hleads hfirst]
      exact execAll_nil page s
    -- nothing is set: the socket has no inline value, or something was patched into it before
    cases hold : alreadyReplaced done c with
    | true => exact hfed.again hold
    | false =>
      refine hfed.concat fun n' hn' socket' hsocket' hinline' htarget' hinput' => ?_
      obtain rfl := eq_of_mem_heardOf hg hn' hn (htarget'.symm.trans htarget.symm)
      obtain rfl : socket' = socket := Option.some.inj
        ((Kind.input?_eq_some_iff.mpr ⟨hsocket', hinput'.symm⟩).symm.trans hsocket)
      exact absurd ⟨hinline', hold⟩ hfirst

variable (page) in
/-- A connection is wired. -/
theorem Stage.Holds.wire {options : Options α}
    (h : s.Holds g master start options.noiseSeconds g.nodes.zipIdx done level)
    (hg : g.WellFormed) (hfed : Fed done (heardOf g.nodes.zipIdx) level)
    (hinlined : Inlined g (heardOf g.nodes.zipIdx) level) {c : Connection}
    (hc : c ∈ g.connections) :
    ∃ s' level', execAll page (wiring (blocks g options) done c) s = some s' ∧ s.Extends s' ∧
      s'.Holds g master start options.noiseSeconds g.nodes.zipIdx (done ++ [c]) level' ∧
      Fed (done ++ [c]) (heardOf g.nodes.zipIdx) level' ∧
      Inlined g (heardOf g.nodes.zipIdx) level' := by
  obtain ⟨⟨m, pm, hm, hsource, o, ho, houtput⟩, n, pn, hn, htarget, socket, hsocket⟩ :=
    exists_ends hg hc
  obtain ⟨hmem, hname⟩ := Kind.input?_eq_some_iff.mp hsocket
  obtain ⟨x, hx, hobject⟩ := (h.reaches _ hm (Kind.not_isMonitor_of_output ho)).outputs o ho
  rw [houtput] at hx
  cases hmonitor : n.kind.isMonitor with
  | true =>
    have hdropped := wire?_monitor hmonitor hsocket (blockName pn) options.noiseSeconds
    refine ⟨s, level, ?_, .refl s, h.drop hg hn hmonitor htarget,
      hfed.concat fun n' hn' _ _ _ htarget' _ => ?_, hinlined⟩
    · rw [wiring_eq hg options hm hsource hn htarget hx hdropped]
      exact execAll_nil page s
    · obtain rfl := eq_of_mem_heardOf hg hn' hn (htarget'.symm.trans htarget.symm)
      exact absurd (hmonitor.symm.trans (mem_heardOf.mp hn').1) Bool.noConfusion
  | false =>
    obtain ⟨wire, hwire, hleads⟩ := (h.reaches _ hn hmonitor).inputs socket hmem
    obtain ⟨s₁, level', hexec, hextends, hscope, hholds, hfed', hinlined'⟩ :=
      h.zero page hg hfed hinlined hc hn htarget hsocket hwire hleads
    obtain ⟨s', hexec', hextends', hholds'⟩ := hholds.link page hg hm hsource ho
      (hscope ▸ hobject) hn hmonitor htarget hsocket (hextends.leads hleads)
    rw [hname] at hwire
    refine ⟨s', level', ?_, hextends.trans hextends', hholds', hfed', hinlined'⟩
    rw [wiring_eq hg options hm hsource hn htarget hx hwire, execAll_append, hexec]
    exact hexec'

variable (page) in
/-- All connections are wired. -/
theorem Stage.Holds.wireAll {options : Options α} {rest : List Connection}
    (h : s.Holds g master start options.noiseSeconds g.nodes.zipIdx done level)
    (hg : g.WellFormed) (hfed : Fed done (heardOf g.nodes.zipIdx) level)
    (hinlined : Inlined g (heardOf g.nodes.zipIdx) level) (hrest : rest ⊆ g.connections) :
    ∃ s' level', execAll page (wirings (blocks g options) done rest) s = some s' ∧ s.Extends s' ∧
      s'.Holds g master start options.noiseSeconds g.nodes.zipIdx (done ++ rest) level' ∧
      Fed (done ++ rest) (heardOf g.nodes.zipIdx) level' ∧
      Inlined g (heardOf g.nodes.zipIdx) level' := by
  induction rest generalizing s done level with
  | nil => exact ⟨s, level, execAll_nil page s, .refl s, by rwa [List.append_nil],
      by rwa [List.append_nil], hinlined⟩
  | cons c rest ih =>
    obtain ⟨hc, hrest⟩ := List.cons_subset.mp hrest
    obtain ⟨s₁, level₁, hexec, hextends, hholds, hfed₁, hinlined₁⟩ :=
      h.wire page hg hfed hinlined hc
    obtain ⟨s', level', hexec', hextends', hholds', hfed', hinlined'⟩ :=
      ih hholds hfed₁ hinlined₁ hrest
    refine ⟨s', level', ?_, hextends.trans hextends', List.append_cons done c rest ▸ hholds',
      List.append_cons done c rest ▸ hfed', hinlined'⟩
    rw [wirings, execAll_append, hexec]
    exact hexec'

end Script

end Patchbay
