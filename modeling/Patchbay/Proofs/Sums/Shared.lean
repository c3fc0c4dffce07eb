import Patchbay.Proofs.Program.Moving
import Patchbay.Proofs.Sums.Connections
/-!
# Graphs that differ in what feeds one socket

Two graphs with the same nodes and connections, but for Constants and for what Constants feed into
one socket (`Graph.SameBut`), are built on the same mixer. What reaches a sink in the one and is in
the other reaches it there too, so the primitives of all nodes that both have, and those that were
there before, are on both racks (`Shared`). From the one rack to the other they keep their states
and all that is patched into them, except into the parameter that the socket drives
(`Twins.inputsOf_perm`). So if that parameter adds up to the same on both, every output and every
parameter is the same (`Twins.known_outputAt_eq`, `Twins.known_effectiveAt_eq`).
-/

namespace Patchbay

open Relation (ReflTransGen TransGen)

variable {α : Type}

/-! ## Graphs -/

/-- All of the one graph is in the other, but for Constants and for connections from Constants into
one socket, which adds them up. -/
structure Graph.SameBut (g g' : Graph α) (target : NodeId) (socket : String) : Prop where
  additive : ∀ n ∈ g.nodes, n.id = target →
    ∃ s ∈ n.kind.inputs, s.name = socket ∧ s.combine = .additive
  nodes : ∀ n ∈ g.nodes, n.kind ≠ .constant → n ∈ g'.nodes
  connections : ∀ n ∈ g.nodes, n.kind ≠ .constant → ∀ c ∈ g.connections, c.source = n.id →
    c ∈ g'.connections
  elsewhere : ∀ c ∈ g.connections, ¬(c.target = target ∧ c.input = socket) →
    c ∈ g'.connections ∧ ∀ n ∈ g.nodes, n.id = c.source → n ∈ g'.nodes

/-- Nothing is connected into a Constant. -/
theorem Graph.WellFormed.target_ne_constant {g : Graph α} (hg : g.WellFormed) {c : Connection}
    (hc : c ∈ g.connections) : ∃ n ∈ g.nodes, n.id = c.target ∧ n.kind ≠ .constant := by
  obtain ⟨k, hk, hinput⟩ := (hg.joined c hc).target
  obtain ⟨n, hn, hid, rfl⟩ := has_iff.mp hk
  refine ⟨n, hn, hid, fun hconstant => ?_⟩
  rw [hconstant] at hinput
  cases hinput

namespace Graph.SameBut

variable {g g' : Graph α} {target : NodeId} {socket : String}

/-- A path from a node whose connections are kept is kept. -/
theorem transGen (h : g.SameBut g' target socket) (hg : g.WellFormed) {a b : NodeId}
    (ha : ∀ c ∈ g.connections, c.source = a → c ∈ g'.connections) (hpath : TransGen g.Feeds a b) :
    TransGen g'.Feeds a b := by
  induction hpath using TransGen.head_induction_on with
  | single hfeeds =>
    obtain ⟨c, hc, hsource, htarget⟩ := hfeeds
    exact .single ⟨c, ha c hc hsource, hsource, htarget⟩
  | head hfeeds _ ih =>
    obtain ⟨c, hc, hsource, rfl⟩ := hfeeds
    obtain ⟨n, hn, hid, hkind⟩ := hg.target_ne_constant hc
    exact .head ⟨c, ha c hc hsource, hsource, rfl⟩ (ih (hid ▸ h.connections n hn hkind))

theorem upstream (h : g.SameBut g' target socket) (hg : g.WellFormed) {id : NodeId}
    (hid : ∀ c ∈ g.connections, c.source = id → c ∈ g'.connections) (hup : g.Upstream id) :
    g'.Upstream id := by
  obtain ⟨sink, hsink, hreach⟩ := hup
  obtain ⟨hmem, hkind⟩ := List.mem_filter.mp hsink
  have hconstant : sink.kind ≠ .constant := fun heq => by
    rw [heq] at hkind
    cases hkind
  refine ⟨sink, List.mem_filter.mpr ⟨h.nodes sink hmem hconstant, hkind⟩, ?_⟩
  rcases Relation.reflTransGen_iff_eq_or_transGen.mp hreach with heq | hpath
  · exact heq ▸ .refl
  · exact (h.transGen hg hid hpath).to_reflTransGen

/-- What is upstream and lies on a circle is so in the other graph. -/
theorem circle (h : g.SameBut g' target socket) (hg : g.WellFormed) {id : NodeId}
    (hup : g.Upstream id) (hcircle : TransGen g.Feeds id id) :
    g'.Upstream id ∧ TransGen g'.Feeds id id := by
  obtain ⟨_, -, c, hc, -, rfl⟩ := TransGen.tail'_iff.mp hcircle
  obtain ⟨n, hn, hid, hkind⟩ := hg.target_ne_constant hc
  have hkept := hid ▸ h.connections n hn hkind
  exact ⟨h.upstream hg hkept hup, h.transGen hg hkept hcircle⟩

end Graph.SameBut

/-! ## Primitives -/

/-- A primitive that was there before, or one of a node that is built from both graphs. -/
def Shared (start : PrimitiveId) (order order' : List (Node α)) (q : PrimitiveId) : Prop :=
  q < start ∨ ∃ n ∈ order, n ∈ order' ∧ ∃ i < n.kind.outfit.length,
    q = firstIn order start n.id + i

/-- Leads from where primitives lie on the one rack to where they lie on the other. -/
structure Transfers (start : PrimitiveId) (order order' : List (Node α))
    (f : PrimitiveId → PrimitiveId) : Prop where
  before : ∀ q < start, f q = q
  nodes : ∀ n ∈ order, ∀ i < n.kind.outfit.length,
    f (firstIn order start n.id + i) = firstIn order' start n.id + i

section

variable {start : PrimitiveId} {order order' : List (Node α)} {f f' : PrimitiveId → PrimitiveId}
  {q : PrimitiveId} {n : Node α}

theorem exists_transfers (hnodup : (order.map (·.id)).Nodup) (start : PrimitiveId)
    (order' : List (Node α)) : ∃ f, Transfers start order order' f := by
  obtain ⟨f, hbefore, hnodes⟩ := exists_move hnodup (firstIn order' start) fun q => q
  exact ⟨f, hbefore, hnodes⟩

theorem shared_node (hn : n ∈ order) (hn' : n ∈ order') {i : Nat} (hi : i < n.kind.outfit.length) :
    Shared start order order' (firstIn order start n.id + i) :=
  .inr ⟨n, hn, hn', i, hi, rfl⟩

theorem Transfers.shared (hf : Transfers start order order' f) (hq : Shared start order order' q) :
    Shared start order' order (f q) := by
  rcases hq with hold | ⟨n, hn, hn', i, hi, rfl⟩
  · exact .inl ((hf.before q hold).symm ▸ hold)
  · exact hf.nodes n hn i hi ▸ shared_node hn' hn hi

theorem Transfers.back (hf : Transfers start order order' f) (hf' : Transfers start order' order f')
    (hq : Shared start order order' q) : f' (f q) = q := by
  rcases hq with hold | ⟨n, hn, hn', i, hi, rfl⟩
  · rw [hf.before q hold, hf'.before q hold]
  · rw [hf.nodes n hn i hi, hf'.nodes n hn' i hi]

theorem Inlet.place_move (f : PrimitiveId → PrimitiveId) (inlet : Inlet) :
    (inlet.move f).place = f inlet.place := by
  cases inlet <;> rfl

theorem Inlet.move_move {inlet : Inlet} (h : f' (f inlet.place) = inlet.place) :
    (inlet.move f).move f' = inlet := by
  cases inlet with
  | input id => exact congrArg Inlet.input h
  | dial d => exact congrArg (fun q => Inlet.dial ⟨q, d.param⟩) h

theorem Inlet.move_of_eq {inlet : Inlet} (h : f inlet.place = inlet.place) :
    inlet.move f = inlet := by
  cases inlet with
  | input id => exact congrArg Inlet.input h
  | dial d => exact congrArg (fun q => Inlet.dial ⟨q, d.param⟩) h

end

/-! ## Wires -/

namespace Graph.Standing

variable [Scalar α] {g g' : Graph α} {target : NodeId} {socket : String} {m : Mixer α}
  {patch patch' : Patch α} {order order' : List (Node α)} {rack rack' : Rack α} {n : Node α}
  {f f' : PrimitiveId → PrimitiveId} {q : PrimitiveId} {inlet : Inlet}

/-- A node that is built from the one graph, and is in the other with all that leads from it, is
built from that too. -/
theorem mem_order_of_sameBut (h : g.Standing m patch order rack)
    (h' : g'.Standing m patch' order' rack') (hsame : g.SameBut g' target socket) (hn : n ∈ order)
    (hn' : n ∈ g'.nodes) (hkept : ∀ c ∈ g.connections, c.source = n.id → c ∈ g'.connections) :
    n ∈ order' :=
  (h'.upstream n).mpr ⟨hn', hsame.upstream h.sound.wellFormed hkept ((h.upstream n).mp hn).2⟩

theorem mem_order_of_ne_constant (h : g.Standing m patch order rack)
    (h' : g'.Standing m patch' order' rack') (hsame : g.SameBut g' target socket) (hn : n ∈ order)
    (hkind : n.kind ≠ .constant) : n ∈ order' :=
  h.mem_order_of_sameBut h' hsame hn (hsame.nodes n (h.mem_nodes hn) hkind)
    (hsame.connections n (h.mem_nodes hn) hkind)

/-- The source of a connection that both graphs have is shared, when its node is in both. -/
theorem shared_handle (h : g.Standing m patch order rack) (h' : g'.Standing m patch' order' rack')
    (hf : Transfers m.rack.primitives.size order order' f) (hn : n ∈ order) (hn' : n ∈ order')
    {c : Connection} (hc : c ∈ g.connectionsInto n.id) (hc' : c ∈ g'.connections)
    (hsource : ∀ k ∈ g.nodes, k.id = c.source → k ∈ g'.nodes) :
    Shared m.rack.primitives.size order order'
        (g.handle (firstIn order m.rack.primitives.size) c) ∧
      f (g.handle (firstIn order m.rack.primitives.size) c) =
        g'.handle (firstIn order' m.rack.primitives.size) c := by
  obtain ⟨k, hk, hid, -, hlt, hhandle⟩ := h.exists_source hn hc
  obtain ⟨k', hk', hid', -, -, hhandle'⟩ :=
    h'.exists_source hn' (mem_connectionsInto.mpr ⟨hc', (mem_connectionsInto.mp hc).2⟩)
  obtain rfl := h'.sound.wellFormed.eq_of_id_eq (hsource k (h.mem_nodes hk) hid) (h'.mem_nodes hk')
    (hid.trans hid'.symm)
  rw [hhandle, hhandle']
  exact ⟨shared_node hk hk' hlt, hf.nodes k hk _ hlt⟩

/-- The wires of a node that both have come from what is shared and are there on both racks, but for
those into the parameter of the socket. -/
theorem wiring_shared (h : g.Standing m patch order rack) (h' : g'.Standing m patch' order' rack')
    (hsame : g.SameBut g' target socket) (hf : Transfers m.rack.primitives.size order order' f)
    (hn : n ∈ order) (hn' : n ∈ order')
    (hinlet : inlet ≠
      .dial ⟨firstIn order m.rack.primitives.size target, Kind.drivenBy socket⟩)
    (hw : (q, inlet) ∈ g.wiring m.master (firstIn order m.rack.primitives.size) n) :
    Shared m.rack.primitives.size order order' q ∧
      (f q, inlet.move f) ∈ g'.wiring m.master (firstIn order' m.rack.primitives.size) n := by
  have hmaster : f m.master = m.master := hf.before _ h.master
  rcases List.mem_append.mp hw with hw | hw
  · obtain ⟨hlow, hhigh⟩ := Kind.inner_range hw
    obtain ⟨i, rfl⟩ := Nat.exists_eq_add_of_le hlow
    refine ⟨shared_node hn hn' (Nat.lt_of_add_lt_add_left hhigh), List.mem_append_left _ ?_⟩
    have hmoved := List.mem_map_of_mem (f := moveWire f) hw
    rwa [Kind.inner_move (hf.nodes n hn), hmaster] at hmoved
  · obtain ⟨c, hc, hw⟩ := List.mem_flatMap.mp hw
    obtain ⟨inlet, hmem, heq⟩ := List.mem_map.mp hw
    obtain ⟨rfl, rfl⟩ := Prod.mk.inj heq
    have hother : ¬(c.target = target ∧ c.input = socket) := by
      rintro ⟨htarget, hinput⟩
      have hid : n.id = target := (mem_connectionsInto.mp hc).2.symm.trans htarget
      obtain ⟨s, hs, hname, hcombine⟩ := hsame.additive n (h.mem_nodes hn) hid
      rw [hinput, ← hname, Kind.inletsAt_of_additive hs hcombine, List.mem_singleton] at hmem
      exact hinlet (by rw [hmem, hid, hname])
    obtain ⟨hc', hsource⟩ := hsame.elsewhere c (mem_connectionsInto.mp hc).1 hother
    obtain ⟨hshared, hmoved⟩ := h.shared_handle h' hf hn hn' hc hc' hsource
    refine ⟨hshared, List.mem_append_right _ (List.mem_flatMap.mpr
      ⟨c, mem_connectionsInto.mpr ⟨hc', (mem_connectionsInto.mp hc).2⟩, ?_⟩)⟩
    have hmem' := List.mem_map_of_mem (f := (·.move f)) hmem
    rw [Kind.inletsAt_move (hf.nodes n hn), hmaster] at hmem'
    rw [hmoved]
    exact List.mem_map_of_mem hmem'

end Graph.Standing

/-! ## Two racks -/

/-- Two graphs that differ in what feeds one socket only stand on racks of the same mixer. The
socket is there and something is connected into it on both, and primitives are taken from the one
rack to the other and back. -/
structure Graph.Twins [Scalar α] (g g' : Graph α) (target : NodeId) (socket : String) (m : Mixer α)
    (patch patch' : Patch α) (order order' : List (Node α)) (rack rack' : Rack α)
    (f f' : PrimitiveId → PrimitiveId) : Prop where
  stands : g.Standing m patch order rack
  stands' : g'.Standing m patch' order' rack'
  same : g.SameBut g' target socket
  same' : g'.SameBut g target socket
  forth : Transfers m.rack.primitives.size order order' f
  back : Transfers m.rack.primitives.size order' order f'
  shared : ∃ n ∈ order, n ∈ order' ∧ n.id = target ∧ 0 < n.kind.outfit.length
  fed : g.isConnected target socket = true
  fed' : g'.isConnected target socket = true
  size : rack.primitives.size ≤ Rack.destination
  size' : rack'.primitives.size ≤ Rack.destination

namespace Graph.Twins

variable [Scalar α] {g g' : Graph α} {target : NodeId} {socket : String} {m : Mixer α}
  {patch patch' : Patch α} {order order' : List (Node α)} {rack rack' : Rack α}
  {f f' : PrimitiveId → PrimitiveId} {q : PrimitiveId} {inlet : Inlet} {t : α}

theorem symm (h : g.Twins g' target socket m patch patch' order order' rack rack' f f') :
    g'.Twins g target socket m patch' patch order' order rack' rack f' f where
  stands := h.stands'
  stands' := h.stands
  same := h.same'
  same' := h.same
  forth := h.back
  back := h.forth
  shared := h.shared.imp fun _ ⟨hn, hn', h⟩ => ⟨hn', hn, h⟩
  fed := h.fed'
  fed' := h.fed
  size := h.size'
  size' := h.size

/-- The node with the socket is taken to where it lies on the other rack. -/
theorem forth_target (h : g.Twins g' target socket m patch patch' order order' rack rack' f f') :
    f (firstIn order m.rack.primitives.size target) =
      firstIn order' m.rack.primitives.size target := by
  obtain ⟨n, hn, -, rfl, hpos⟩ := h.shared
  exact h.forth.nodes n hn 0 hpos

theorem lt_size (h : g.Twins g' target socket m patch patch' order order' rack rack' f f')
    (hq : Shared m.rack.primitives.size order order' q) : q < rack.primitives.size := by
  rcases hq with hold | ⟨n, hn, -, i, hi, rfl⟩
  · exact Nat.lt_of_lt_of_le hold h.stands.extended.size
  · exact h.stands.arranged.choose_spec.lt_size hn hi

/-- What is patched into a shared primitive is shared, and is patched into it on the other rack too,
but for the parameter of the socket. -/
theorem inputsOf_shared
    (h : g.Twins g' target socket m patch patch' order order' rack rack' f f')
    (hplace : Shared m.rack.primitives.size order order' inlet.place)
    (hinlet : inlet ≠
      .dial ⟨firstIn order m.rack.primitives.size target, Kind.drivenBy socket⟩)
    (hq : q ∈ rack.inputsOf inlet) : Shared m.rack.primitives.size order order' q ∧
      f q ∈ rack'.inputsOf (inlet.move f) := by
  rw [h.stands'.mem_inputsOf_iff]
  rcases h.stands.mem_inputsOf_iff.mp hq with hold | hw
  · obtain ⟨p, hp, -, hmem⟩ := Rack.mem_inputsOf.mp hold
    have hlt := Rack.lt_size_of_primitive? hp
    have hlow : inlet.place < m.rack.primitives.size := by
      refine (h.stands.landing q inlet (Rack.outputsOf_of_primitive? hp ▸ hmem)).elim id
        fun heq => ?_
      -- the loudspeakers are no primitive
      have hbelow := h.lt_size hplace
      rw [heq] at hbelow
      exact absurd hbelow (Nat.not_lt.mpr h.size)
    refine ⟨.inl hlt, .inl ?_⟩
    rwa [h.forth.before q hlt, Inlet.move_of_eq (h.forth.before _ hlow)]
  · obtain ⟨k, hk, hw⟩ := List.mem_flatMap.mp hw
    have hk' : k ∈ order' := by
      rcases Graph.wiring_into hw with ⟨-, hout⟩ | ⟨j, hj, heq⟩
      · refine h.stands.mem_order_of_ne_constant h.stands' h.same hk fun hconstant => ?_
        rw [hconstant] at hout
        cases hout
      · rcases hplace with hold | ⟨n, hn, hn', i, hi, hplace⟩
        · have hlow : m.rack.primitives.size ≤ inlet.place :=
            heq ▸ Nat.le_add_right_of_le (start_le_firstIn _ _ _)
          exact absurd hold (Nat.not_lt.mpr hlow)
        · obtain ⟨hid, -⟩ := firstIn_inj h.stands.nodup hk hn hj hi (heq.symm.trans hplace)
          exact List.inj_on_of_nodup_map h.stands.nodup hk hn hid ▸ hn'
    obtain ⟨hshared, hmoved⟩ :=
      h.stands.wiring_shared h.stands' h.same h.forth hk hk' hinlet hw
    exact ⟨hshared, .inr (List.mem_flatMap.mpr ⟨k, hk', hmoved⟩)⟩

/-- What is patched into a shared primitive on the one rack is what is patched into it on the
other, but for the parameter of the socket. -/
theorem inputsOf_perm (h : g.Twins g' target socket m patch patch' order order' rack rack' f f')
    (hplace : Shared m.rack.primitives.size order order' inlet.place)
    (hinlet : inlet ≠
      .dial ⟨firstIn order m.rack.primitives.size target, Kind.drivenBy socket⟩) :
    (rack'.inputsOf (inlet.move f)).Perm ((rack.inputsOf inlet).map f) := by
  have hplace' : Shared m.rack.primitives.size order' order (inlet.move f).place :=
    (inlet.place_move f).symm ▸ h.forth.shared hplace
  have hreturn : (inlet.move f).move f' = inlet := Inlet.move_move (h.forth.back h.back hplace)
  have hinlet' : inlet.move f ≠
      .dial ⟨firstIn order' m.rack.primitives.size target, Kind.drivenBy socket⟩ := by
    intro heq
    refine hinlet (hreturn.symm.trans ?_)
    rw [heq, Inlet.move, h.symm.forth_target]
  have hinj : ∀ q ∈ rack.inputsOf inlet, ∀ q' ∈ rack.inputsOf inlet, f q = f q' → q = q' := by
    intro q hq q' hq' heq
    rw [← h.forth.back h.back (h.inputsOf_shared hplace hinlet hq).1, heq,
      h.forth.back h.back (h.inputsOf_shared hplace hinlet hq').1]
  refine (List.perm_ext_iff_of_nodup (rack'.nodup_inputsOf _)
    (.map_on hinj (rack.nodup_inputsOf _))).mpr fun q => ?_
  rw [List.mem_map]
  constructor
  · intro hq
    obtain ⟨hshared, hmem⟩ := h.symm.inputsOf_shared hplace' hinlet' hq
    exact ⟨f' q, hreturn ▸ hmem, h.back.back h.forth hshared⟩
  · rintro ⟨q, hq, rfl⟩
    exact (h.inputsOf_shared hplace hinlet hq).2

/-- The same sockets have connections. -/
theorem isConnected_eq (h : g.Twins g' target socket m patch patch' order order' rack rack' f f')
    (id : NodeId) (input : String) : g.isConnected id input = g'.isConnected id input := by
  by_cases hsocket : id = target ∧ input = socket
  · obtain ⟨rfl, rfl⟩ := hsocket
    rw [h.fed, h.fed']
  · rw [Bool.eq_iff_iff, isConnected_iff, isConnected_iff]
    constructor
    · rintro ⟨c, hc, rfl, rfl⟩
      exact ⟨c, (h.same.elsewhere c hc hsocket).1, rfl, rfl⟩
    · rintro ⟨c, hc, rfl, rfl⟩
      exact ⟨c, (h.same'.elsewhere c hc hsocket).1, rfl, rfl⟩

/-- Shared primitives are in the same state on both racks. -/
theorem stateAt_eq (h : g.Twins g' target socket m patch patch' order order' rack rack' f f')
    (hq : Shared m.rack.primitives.size order order' q) (ht : m.rack.clock ≤ t) :
    (rack.primitive? q).map (·.stateAt t) = (rack'.primitive? (f q)).map (·.stateAt t) := by
  rcases hq with hold | ⟨n, hn, hn', i, hi, rfl⟩
  · rw [h.forth.before q hold, h.stands.extended.kept q hold, h.stands'.extended.kept q hold]
  · obtain ⟨voicing, harranged⟩ := h.stands.arranged
    obtain ⟨voicing', harranged'⟩ := h.stands'.arranged
    have hlevel : g.levelOf n = g'.levelOf n := by
      funext s
      rw [levelOf, h.isConnected_eq]
      rfl
    rw [h.forth.nodes n hn i hi, harranged.state hn hi ht, harranged'.state hn' hi ht, hlevel]

theorem valueAt_eq (h : g.Twins g' target socket m patch patch' order order' rack rack' f f')
    (hq : Shared m.rack.primitives.size order order' q) (ht : m.rack.clock ≤ t) (param : Param) :
    rack.valueAt ⟨q, param⟩ t = rack'.valueAt ⟨f q, param⟩ t := by
  rw [Rack.valueAt_eq_level, Rack.valueAt_eq_level]
  dsimp only
  rw [h.stateAt_eq hq ht]

/-! ## Outputs -/

variable [Scalar.Exact α]

/-- An inlet of a shared primitive gets the same on both racks when what is patched into it has the
same outputs, but for the parameter of the socket. -/
theorem sum_inputs_eq (h : g.Twins g' target socket m patch patch' order order' rack rack' f f')
    (inlet : Inlet) (hplace : Shared m.rack.primitives.size order order' inlet.place)
    (hinlet : inlet ≠
      .dial ⟨firstIn order m.rack.primitives.size target, Kind.drivenBy socket⟩)
    (houtputs : ∀ q ∈ rack.inputsOf inlet, Shared m.rack.primitives.size order order' q →
      known (rack.outputAt q t) = known (rack'.outputAt (f q) t)) :
    ((rack.inputsOf inlet).map fun q => known (rack.outputAt q t)).sum =
      ((rack'.inputsOf (inlet.move f)).map fun q => known (rack'.outputAt q t)).sum := by
  rw [((h.inputsOf_perm hplace hinlet).map _).sum_eq, List.map_map]
  exact congrArg _ (List.map_congr_left fun q hq =>
    houtputs q hq (h.inputsOf_shared hplace hinlet hq).1)

/-- The parameter of the socket has the same value on both racks, when all that is patched into it
and shared has the same outputs. -/
def SumsSame (target : NodeId) (socket : String) (m : Mixer α) (order order' : List (Node α))
    (rack rack' : Rack α) (f : PrimitiveId → PrimitiveId) (t : α) : Prop :=
  (∀ q, rack.Feeds q (firstIn order m.rack.primitives.size target) →
    Shared m.rack.primitives.size order order' q →
    known (rack.outputAt q t) = known (rack'.outputAt (f q) t)) →
  known (rack.effectiveAt
      ⟨firstIn order m.rack.primitives.size target, Kind.drivenBy socket⟩ t) =
    known (rack'.effectiveAt
      ⟨firstIn order' m.rack.primitives.size target, Kind.drivenBy socket⟩ t)

/-- A parameter of a shared primitive has the same value on both racks, when all that feeds the
primitive and is shared has the same outputs. -/
theorem known_effectiveAt_step
    (h : g.Twins g' target socket m patch patch' order order' rack rack' f f')
    (hsum : SumsSame target socket m order order' rack rack' f t)
    (hq : Shared m.rack.primitives.size order order' q) (ht : m.rack.clock ≤ t)
    (houtputs : ∀ p, rack.Feeds p q → Shared m.rack.primitives.size order order' p →
      known (rack.outputAt p t) = known (rack'.outputAt (f p) t)) (param : Param) :
    known (rack.effectiveAt ⟨q, param⟩ t) = known (rack'.effectiveAt ⟨f q, param⟩ t) := by
  by_cases hsocket :
      q = firstIn order m.rack.primitives.size target ∧ param = Kind.drivenBy socket
  · obtain ⟨rfl, rfl⟩ := hsocket
    rw [h.forth_target]
    exact hsum houtputs
  · have hinlet : Inlet.dial ⟨q, param⟩ ≠
        .dial ⟨firstIn order m.rack.primitives.size target, Kind.drivenBy socket⟩ := by
      simpa using hsocket
    rw [Rack.known_effectiveAt, Rack.known_effectiveAt, h.valueAt_eq hq ht,
      h.sum_inputs_eq (.dial ⟨q, param⟩) hq hinlet fun p hp => houtputs p ⟨_, rfl, hp⟩]
    rfl

/-- Shared primitives have the same outputs on both racks. -/
theorem known_outputAt_eq
    (h : g.Twins g' target socket m patch patch' order order' rack rack' f f')
    {height height' : PrimitiveId → Nat} (hrising : rack.Rising height)
    (hrising' : rack'.Rising height')
    (hsum : SumsSame target socket m order order' rack rack' f t) (ht : m.rack.clock ≤ t)
    (hq : Shared m.rack.primitives.size order order' q) :
    known (rack.outputAt q t) = known (rack'.outputAt (f q) t) := by
  -- primitive by primitive, after all that feeds it
  induction q using hrising.wellFounded.induction with
  | _ q ih =>
    have houtputs := fun p (hp : rack.Feeds p q) hshared => ih p hp hshared
    rw [hrising.outputAt_eq, hrising'.outputAt_eq]
    refine Rack.known_outputBy_congr (h.stateAt_eq hq ht) ?_
      (h.known_effectiveAt_step hsum hq ht houtputs)
    rw [Rack.known_sumOutputs, Rack.known_sumOutputs,
      h.sum_inputs_eq (.input q) hq Inlet.noConfusion fun p hp => houtputs p ⟨_, rfl, hp⟩]
    rfl

theorem known_effectiveAt_eq
    (h : g.Twins g' target socket m patch patch' order order' rack rack' f f')
    {height height' : PrimitiveId → Nat} (hrising : rack.Rising height)
    (hrising' : rack'.Rising height')
    (hsum : SumsSame target socket m order order' rack rack' f t) (ht : m.rack.clock ≤ t)
    (hq : Shared m.rack.primitives.size order order' q) (param : Param) :
    known (rack.effectiveAt ⟨q, param⟩ t) = known (rack'.effectiveAt ⟨f q, param⟩ t) :=
  h.known_effectiveAt_step hsum hq ht
    (fun _ _ hp => h.known_outputAt_eq hrising hrising' hsum ht hp) param

end Graph.Twins

end Patchbay
