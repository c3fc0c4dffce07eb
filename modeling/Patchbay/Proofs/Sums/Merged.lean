import Patchbay.Proofs.Sums.Shared
/-!
# One Constant in place of several

Constants that are connected into a socket that adds them up can be replaced by one Constant with
the sum of their values (`Graph.Merged`). What is built from the graph then differs in what feeds
that socket only, and since the parameter that the socket drives is the sum of what feeds it,
nothing else changes: every output and every parameter, on the nodes that are left and on what was
there before, is what it was (`Mixer.InUse.sums_of_build`).
-/

namespace Patchbay

open Scalar.Exact (toReal)

variable {α : Type} [Scalar α]

/-- The connection from a Constant into a socket. -/
def Node.into (target : NodeId) (socket : String) (n : Node α) : Connection :=
  ⟨n.id, "value", target, socket⟩

/-- Of the Constants that are connected into a socket that adds up, some are replaced by one. This
is a new node, or in place of one of them that fed nothing else; it has the sum of their values, and
is connected into the socket instead of them. They may stay in the graph or be removed from it; all
other nodes and connections stay, and no others come in. -/
structure Graph.Merged [Scalar.Exact α] (g g' : Graph α) (target : NodeId) (socket : String)
    (sources : List (Node α)) (whole : Node α) : Prop where
  additive : ∀ n ∈ g.nodes, n.id = target →
    ∃ s ∈ n.kind.inputs, s.name = socket ∧ s.combine = .additive
  nonempty : sources ≠ []
  nodup : (sources.map (·.id)).Nodup
  constants : ∀ n ∈ sources, n ∈ g.nodes ∧ n.kind = .constant ∧
    n.into target socket ∈ g.connections
  there : whole ∈ g'.nodes
  constant : whole.kind = .constant
  sum : toReal (whole.panel.number "value") =
    (sources.map fun n => toReal (n.panel.number "value")).sum
  new : ∀ n ∈ g.nodes, n.id = whole.id → n ∈ sources ∧
    ∀ c ∈ g.connections, c.source = n.id → c.target = target ∧ c.input = socket
  stay : ∀ n ∈ g.nodes, n ∉ sources → n ∈ g'.nodes
  kept : ∀ n ∈ g'.nodes, n.id ≠ whole.id → n ∈ g.nodes
  connections : ∀ c, c ∈ g'.connections ↔ c = whole.into target socket ∨
    c ∈ g.connections ∧ ¬(c.source ∈ sources.map (·.id) ∧ c.target = target ∧ c.input = socket)

namespace Graph.Merged

variable [Scalar.Exact α] {g g' : Graph α} {target : NodeId} {socket : String}
  {sources : List (Node α)} {whole n : Node α}

/-- A connection that both graphs have comes from a node that both have, when it does not lead into
the socket. -/
theorem mem_iff_of_source (h : g.Merged g' target socket sources whole) (hg : g.WellFormed)
    (hg' : g'.WellFormed) {c : Connection} (hc : c ∈ g.connections) (hc' : c ∈ g'.connections)
    (hother : ¬(c.target = target ∧ c.input = socket)) (hid : n.id = c.source) :
    n ∈ g.nodes ↔ n ∈ g'.nodes := by
  obtain ⟨k, hk, hkid, -⟩ := hg.source hc
  obtain ⟨k', hk', hkid', -⟩ := hg'.source hc'
  have hne : k'.id ≠ whole.id := fun heq => hother <|
    (h.new k hk (hkid.trans (hkid'.symm.trans heq))).2 c hc hkid.symm
  have hsame := hg.eq_of_id_eq hk (h.kept k' hk' hne) (hkid.trans hkid'.symm)
  constructor
  · intro hn
    rw [hg.eq_of_id_eq hn hk (hid.trans hkid.symm), hsame]
    exact hk'
  · intro hn
    rw [hg'.eq_of_id_eq hn hk' (hid.trans hkid'.symm), ← hsame]
    exact hk

theorem sameBut (h : g.Merged g' target socket sources whole) (hg : g.WellFormed)
    (hg' : g'.WellFormed) : g.SameBut g' target socket where
  additive := h.additive
  nodes n hn hkind := h.stay n hn fun hmem => hkind (h.constants n hmem).2.1
  connections n hn hkind c hc hsource := by
    refine (h.connections c).mpr (.inr ⟨hc, fun hmem => ?_⟩)
    obtain ⟨k, hk, hid⟩ := List.mem_map.mp hmem.1
    obtain ⟨hk', hconstant, -⟩ := h.constants k hk
    exact hkind (hg.eq_of_id_eq hn hk' (hsource.symm.trans hid.symm) ▸ hconstant)
  elsewhere c hc hother := by
    have hc' : c ∈ g'.connections :=
      (h.connections c).mpr (.inr ⟨hc, fun hmem => hother hmem.2⟩)
    exact ⟨hc', fun n hn hid => (h.mem_iff_of_source hg hg' hc hc' hother hid).mp hn⟩

theorem sameBut' (h : g.Merged g' target socket sources whole) (hg : g.WellFormed)
    (hg' : g'.WellFormed) : g'.SameBut g target socket where
  additive n hn hid := by
    -- the node with the socket is no Constant
    obtain ⟨k, hk, hkid, hkind⟩ :=
      hg'.target_ne_constant ((h.connections (whole.into target socket)).mpr (.inl rfl))
    obtain rfl := hg'.eq_of_id_eq hn hk (hid.trans hkid.symm)
    refine h.additive n (h.kept n hn fun heq => hkind ?_) hid
    exact hg'.eq_of_id_eq hn h.there heq ▸ h.constant
  nodes n hn hkind := h.kept n hn fun heq =>
    hkind (hg'.eq_of_id_eq hn h.there heq ▸ h.constant)
  connections n hn hkind c hc hsource := by
    refine ((h.connections c).mp hc).elim (fun heq => ?_) And.left
    have hid : n.id = whole.id := hsource.symm.trans (congrArg Connection.source heq)
    exact absurd (hg'.eq_of_id_eq hn h.there hid ▸ h.constant) hkind
  elsewhere c hc hother := by
    have hc' : c ∈ g.connections := by
      refine ((h.connections c).mp hc).elim (fun heq => absurd ?_ hother) And.left
      rw [heq]
      exact ⟨rfl, rfl⟩
    exact ⟨hc', fun n hn hid => (h.mem_iff_of_source hg hg' hc' hc hother hid).mpr hn⟩

/-- The graph can be built with the one Constant too, when the node with the socket was built. -/
theorem exists_patch (h : g.Merged g' target socket sources whole) (hg : g.Sound) (hg' : g'.Sound)
    {master : PrimitiveId} {noise : Noise.Source α} {rack : Rack α} {voicing voicing' : Voicing α}
    {patch : Patch α} (hpatch : (g.build master noise rack voicing).outcome = .ok patch)
    (hup : g.Upstream target) :
    ∃ patch', (g'.build master noise rack voicing').outcome = .ok patch' := by
  have hsame := h.sameBut hg.wellFormed hg'.wellFormed
  have hsame' := h.sameBut' hg.wellFormed hg'.wellFormed
  obtain ⟨hacyclic, haccepted⟩ := hg.exists_patch_iff.mp ⟨patch, hpatch⟩
  refine hg'.exists_patch_iff.mpr ⟨fun id hid hcircle => ?_, fun n hn hupn f hf => ?_⟩
  · obtain ⟨hid, hcircle⟩ := hsame'.circle hg'.wellFormed hid hcircle
    exact hacyclic id hid hcircle
  · by_cases hkind : n.kind = .constant
    · -- a rack that refused Constants would have refused those that are replaced
      obtain ⟨k, hk⟩ := List.exists_mem_of_ne_nil _ h.nonempty
      obtain ⟨hk', hconstant, hinto⟩ := h.constants k hk
      exact haccepted k hk' (Upstream.source hinto hup) f (by rwa [hconstant, ← hkind])
    · exact haccepted n (hsame'.nodes n hn hkind)
        (hsame'.upstream hg'.wellFormed (hsame'.connections n hn hkind) hupn) f hf

end Graph.Merged

/-! ## Sums -/

namespace Graph.Standing

variable {g : Graph α} {m : Mixer α} {patch : Patch α} {order : List (Node α)} {rack : Rack α}
  {n : Node α} {t : α}

/-- A Constant gives its value. -/
theorem outputAt_constant (h : g.Standing m patch order rack) (hn : n ∈ order)
    (hkind : n.kind = .constant) (ht : m.rack.clock ≤ t) :
    rack.outputAt (firstIn order m.rack.primitives.size n.id) t =
      some (n.panel.number "value") := by
  obtain ⟨voicing, harranged⟩ := h.arranged
  have hpos : 0 < n.kind.outfit.length := by
    rw [hkind]
    exact Nat.one_pos
  have hstate := harranged.state hn hpos ht
  have hnone : rack.inputsOf
      (.dial ⟨firstIn order m.rack.primitives.size n.id, .offset⟩) = [] := by
    refine List.eq_nil_iff_forall_not_mem.mpr fun q hq => ?_
    have hw := (h.mem_inputsOf hn hpos rfl Inlet.noConfusion).mp hq
    rcases List.mem_append.mp hw with hw | hw
    · rw [hkind] at hw
      cases hw
    · obtain ⟨c, hc, -⟩ := List.mem_flatMap.mp hw
      obtain ⟨hc, htarget⟩ := mem_connectionsInto.mp hc
      obtain ⟨k, hk, hid, hne⟩ := h.sound.wellFormed.target_ne_constant hc
      obtain rfl := h.sound.wellFormed.eq_of_id_eq hk (h.mem_nodes hn) (hid.trans htarget)
      exact hne hkind
  have hvalue : n.panel.states (g.levelOf n) =
      [(Setup.constantSource (n.panel.number "value")).state] := by
    obtain ⟨id, kind, values⟩ := n
    obtain rfl : kind = .constant := hkind
    rfl
  rw [hvalue, Nat.add_zero] at hstate
  obtain ⟨p, hp, hsame⟩ := Option.map_eq_some_iff.mp hstate
  have hfamily : p.family = .constantSource := by
    rw [Primitive.family, ← p.setup.family_bare]
    exact congrArg (·.setup.family) hsame
  show rack.outputBy t (rack.outputWithin t _) _ = _
  unfold Rack.outputBy Rack.effectiveBy
  rw [hp, hnone, Rack.valueAt_eq_level, hstate]
  dsimp only [Option.bind_eq_bind, Option.bind_some]
  rw [hfamily]
  rfl

/-- A connection from a Constant carries its value. -/
theorem outputAt_handle (h : g.Standing m patch order rack) (hn : n ∈ order) {c : Connection}
    (hc : c ∈ g.connectionsInto n.id) {k : Node α} (hk : k ∈ g.nodes) (hid : k.id = c.source)
    (hkind : k.kind = .constant) (ht : m.rack.clock ≤ t) :
    rack.outputAt (g.handle (firstIn order m.rack.primitives.size) c) t =
      some (k.panel.number "value") := by
  obtain ⟨k', hk', hid', -, -, hhandle⟩ := h.exists_source hn hc
  obtain rfl := h.sound.wellFormed.eq_of_id_eq hk (h.mem_nodes hk') (hid.trans hid'.symm)
  rw [hhandle, hkind]
  exact h.outputAt_constant hk' hkind ht

end Graph.Standing

namespace Graph.Merged

variable [Scalar.Exact α] {g g' : Graph α} {target : NodeId} {socket : String}
  {sources : List (Node α)} {whole : Node α} {m : Mixer α} {patch patch' : Patch α}
  {order order' : List (Node α)} {rack rack' : Rack α} {f f' : PrimitiveId → PrimitiveId} {t : α}

/-- The connections into the socket that are not replaced. -/
def others (g : Graph α) (target : NodeId) (socket : String) (sources : List (Node α)) :
    List Connection :=
  (g.feeding target socket).filter (·.source ∉ sources.map (·.id))

omit [Scalar α] [Scalar.Exact α] in
theorem mem_others {c : Connection} : c ∈ others g target socket sources ↔
    c ∈ g.feeding target socket ∧ c.source ∉ sources.map (·.id) := by
  simp [others]

omit [Scalar α] [Scalar.Exact α] in
theorem nodup_others (hg : g.WellFormed) : (others g target socket sources).Nodup :=
  (hg.nodup_feeding target socket).filter _

/-- Into the socket lead the Constants that are replaced, and others. -/
theorem feeding_perm (h : g.Merged g' target socket sources whole) (hg : g.WellFormed) :
    (g.feeding target socket).Perm
      (sources.map (·.into target socket) ++ others g target socket sources) := by
  have hinto : (sources.map (·.into target socket)).Nodup := by
    refine .of_map (·.source) ?_
    rw [List.map_map]
    exact h.nodup
  refine (List.perm_ext_iff_of_nodup (hg.nodup_feeding target socket)
    (hinto.append (nodup_others hg) ?_)).mpr fun c => ?_
  · intro c hc hother
    obtain ⟨n, hn, rfl⟩ := List.mem_map.mp hc
    exact (mem_others.mp hother).2 (List.mem_map_of_mem hn)
  · rw [List.mem_append, mem_others, List.mem_map]
    constructor
    · intro hc
      by_cases hsource : c.source ∈ sources.map (·.id)
      · obtain ⟨n, hn, hid⟩ := List.mem_map.mp hsource
        obtain ⟨-, -, hinto⟩ := h.constants n hn
        obtain ⟨hc, htarget, hinput⟩ := mem_feeding.mp hc
        exact .inl ⟨n, hn, hg.connection_ext hinto hc hid htarget.symm hinput.symm⟩
      · exact .inr ⟨hc, hsource⟩
    · rintro (⟨n, hn, rfl⟩ | ⟨hc, -⟩)
      · exact mem_feeding.mpr ⟨(h.constants n hn).2.2, rfl, rfl⟩
      · exact hc

/-- Into the socket lead the one Constant, and the same others. -/
theorem feeding_perm' (h : g.Merged g' target socket sources whole) (hg : g.WellFormed)
    (hg' : g'.WellFormed) : (g'.feeding target socket).Perm
      (whole.into target socket :: others g target socket sources) := by
  have hnew : whole.into target socket ∉ others g target socket sources := by
    intro hmem
    obtain ⟨hc, hsource⟩ := mem_others.mp hmem
    obtain ⟨n, hn, hid, -⟩ := hg.source (mem_feeding.mp hc).1
    exact hsource (hid ▸ List.mem_map_of_mem (h.new n hn hid).1)
  refine (List.perm_ext_iff_of_nodup (hg'.nodup_feeding target socket)
    (List.nodup_cons.mpr ⟨hnew, nodup_others hg⟩)).mpr fun c => ?_
  rw [List.mem_cons, mem_others, mem_feeding, mem_feeding, h.connections]
  constructor
  · rintro ⟨rfl | ⟨hc, hkept⟩, htarget, hinput⟩
    · exact .inl rfl
    · exact .inr ⟨⟨hc, htarget, hinput⟩, fun hsource => hkept ⟨hsource, htarget, hinput⟩⟩
  · rintro (rfl | ⟨⟨hc, htarget, hinput⟩, hsource⟩)
    · exact ⟨.inl rfl, rfl, rfl⟩
    · exact ⟨.inr ⟨hc, fun hmem => hsource hmem.1⟩, htarget, hinput⟩

/-- The parameter that the socket drives adds up to the same. -/
theorem sumsSame (h : g.Merged g' target socket sources whole)
    (twins : g.Twins g' target socket m patch patch' order order' rack rack' f f')
    (ht : m.rack.clock ≤ t) : Twins.SumsSame target socket m order order' rack rack' f t := by
  intro houtputs
  have hg := twins.stands.sound.wellFormed
  have hg' := twins.stands'.sound.wellFormed
  obtain ⟨n, hn, hn', rfl, -⟩ := twins.shared
  obtain ⟨s, hs, rfl, hcombine⟩ := h.additive n (twins.stands.mem_nodes hn) rfl
  have hdriven := Kind.isDriven_of_additive hs hcombine
  have hreplaces : s.combine.replaces = true := hcombine ▸ rfl
  rw [twins.stands.known_effectiveAt hn hdriven hs hreplaces (feeding_ne_nil.mpr twins.fed) ht,
    twins.stands'.known_effectiveAt hn' hdriven hs hreplaces (feeding_ne_nil.mpr twins.fed') ht,
    ((h.feeding_perm hg).map _).sum_eq, ((h.feeding_perm' hg hg').map _).sum_eq,
    List.map_append, List.sum_append, List.map_cons, List.sum_cons, List.map_map]
  congr 1
  · have hsources : ∀ k ∈ sources, rack.outputAt
        (g.handle (firstIn order m.rack.primitives.size) (k.into n.id s.name)) t =
          some (k.panel.number "value") := by
      intro k hk
      obtain ⟨hmem, hkind, hinto⟩ := h.constants k hk
      exact twins.stands.outputAt_handle hn (mem_connectionsInto.mpr ⟨hinto, rfl⟩) hmem rfl hkind ht
    have hinto := (h.connections (whole.into n.id s.name)).mpr (.inl rfl)
    rw [twins.stands'.outputAt_handle hn' (mem_connectionsInto.mpr ⟨hinto, rfl⟩) h.there rfl
      h.constant ht, known_some, h.sum]
    exact sum_known_eq_coe hsources
  · refine congrArg _ (List.map_congr_left fun c hc => ?_)
    obtain ⟨hc, hsource⟩ := mem_others.mp hc
    obtain ⟨hmem, htarget, -⟩ := mem_feeding.mp hc
    have hmem' : c ∈ g'.connections :=
      (h.connections c).mpr (.inr ⟨hmem, fun hrest => hsource hrest.1⟩)
    obtain ⟨hshared, hmoved⟩ := twins.stands.shared_handle twins.stands' twins.forth hn hn'
      (mem_connectionsInto.mpr ⟨hmem, htarget⟩) hmem' fun k hk hid => h.stay k hk fun hkmem =>
        hsource (hid ▸ List.mem_map_of_mem hkmem)
    rw [← hmoved]
    refine houtputs _ ⟨.dial ⟨_, Kind.drivenBy s.name⟩, rfl, ?_⟩ hshared
    exact (twins.stands.inputsOf_perm hn hdriven hs hreplaces).mem_iff.mpr (List.mem_map_of_mem hc)

end Graph.Merged

/-! ## All outputs -/

variable [Scalar.Exact α]

/-- Primitives of two racks that give the same output at a time, and whose parameters all have the
same value with what is patched into them, as far as these are known. -/
def Rack.SameAt (rack rack' : Rack α) (t : α) (q q' : PrimitiveId) : Prop :=
  (rack.outputAt q t).map toReal = (rack'.outputAt q' t).map toReal ∧
    ∀ param, (rack.effectiveAt ⟨q, param⟩ t).map toReal =
      (rack'.effectiveAt ⟨q', param⟩ t).map toReal

theorem Graph.Twins.sameAt {g g' : Graph α} {target : NodeId} {socket : String} {m : Mixer α}
    {patch patch' : Patch α} {order order' : List (Node α)} {rack rack' : Rack α}
    {f f' : PrimitiveId → PrimitiveId} {q : PrimitiveId} {t : α}
    (h : g.Twins g' target socket m patch patch' order order' rack rack' f f')
    {height height' : PrimitiveId → Nat} (hrising : rack.Rising height)
    (hrising' : rack'.Rising height')
    (hsum : Twins.SumsSame target socket m order order' rack rack' f t) (ht : m.rack.clock ≤ t)
    (hq : Shared m.rack.primitives.size order order' q) : rack.SameAt rack' t q (f q) :=
  ⟨toReal_map_eq.mpr (h.known_outputAt_eq hrising hrising' hsum ht hq), fun param =>
    toReal_map_eq.mpr (h.known_effectiveAt_eq hrising hrising' hsum ht hq param)⟩

namespace Mixer.InUse

variable {m : Mixer α} {g g' : Graph α} {target : NodeId} {socket : String}
  {sources : List (Node α)} {whole : Node α} {patch : Patch α} {voicing voicing' : Voicing α}

/-- With the one Constant all outputs and parameters are what they are with those that it
replaces. -/
theorem sameAt_of_merged (h : m.InUse) (hg : g.Reachable) (hg' : g'.Reachable)
    (hmerged : g.Merged g' target socket sources whole)
    (hpatch : (m.build g voicing).1 = .ok patch) (hbuilt : (patch.part? target).isSome)
    (hsize : (m.build g voicing).2.1.rack.primitives.size ≤ Rack.destination)
    (hsize' : (m.build g' voicing').2.1.rack.primitives.size ≤ Rack.destination) :
    ∃ (patch' : Patch α) (order order' : List (Node α)),
      (m.build g' voicing').1 = .ok patch' ∧
      g.Standing m patch order (m.build g voicing).2.1.rack ∧
      g'.Standing m patch' order' (m.build g' voicing').2.1.rack ∧
      ∀ t, m.rack.clock ≤ t →
        (∀ n ∈ order, n ∉ sources → n ∈ order' ∧ ∀ i < n.kind.outfit.length,
          (m.build g voicing).2.1.rack.SameAt (m.build g' voicing').2.1.rack t
            (firstIn order m.rack.primitives.size n.id + i)
            (firstIn order' m.rack.primitives.size n.id + i)) ∧
        ∀ q < m.rack.primitives.size,
          (m.build g voicing).2.1.rack.SameAt (m.build g' voicing').2.1.rack t q q := by
  have hwell := hg.sound.wellFormed
  have hwell' := hg'.sound.wellFormed
  obtain ⟨order, hstands⟩ := h.exists_standing hg hpatch
  have hup : g.Upstream target := hstands.built target hbuilt
  obtain ⟨patch', hpatch'⟩ : ∃ patch', (m.build g' voicing').1 = .ok patch' :=
    hmerged.exists_patch hg.sound hg'.sound hpatch hup
  obtain ⟨order', hstands'⟩ := h.exists_standing hg' hpatch'
  have hsame := hmerged.sameBut hwell hwell'
  have hsame' := hmerged.sameBut' hwell hwell'
  obtain ⟨f, hf⟩ := exists_transfers hstands.nodup m.rack.primitives.size order'
  obtain ⟨f', hf'⟩ := exists_transfers hstands'.nodup m.rack.primitives.size order
  have hinto : whole.into target socket ∈ g'.connections :=
    (hmerged.connections _).mpr (.inl rfl)
  have htwins : g.Twins g' target socket m patch patch' order order'
      (m.build g voicing).2.1.rack (m.build g' voicing').2.1.rack f f' := by
    refine ⟨hstands, hstands', hsame, hsame', hf, hf', ?_, ?_, ?_, hsize, hsize'⟩
    · obtain ⟨n, hn, rfl⟩ := hwell.mem_of_upstream hup
      obtain ⟨s, hs, -, hcombine⟩ := hmerged.additive n hn rfl
      have hmem : n ∈ order := (hstands.upstream n).mpr ⟨hn, hup⟩
      refine ⟨n, hmem, hstands.mem_order_of_ne_constant hstands' hsame hmem ?_, rfl, ?_⟩
      · intro hconstant
        rw [hconstant] at hs
        cases hs
      · exact Panel.outfit_pos hs (Kind.inline_of_replaces hs ▸ hcombine ▸ rfl)
    · obtain ⟨k, hk⟩ := List.exists_mem_of_ne_nil _ hmerged.nonempty
      exact Graph.isConnected_iff.mpr ⟨_, (hmerged.constants k hk).2.2, rfl, rfl⟩
    · exact Graph.isConnected_iff.mpr ⟨_, hinto, rfl, rfl⟩
  obtain ⟨height, hrising⟩ := (h.build hg voicing).exists_rising hsize
  obtain ⟨height', hrising'⟩ := (h.build hg' voicing').exists_rising hsize'
  refine ⟨patch', order, order', hpatch', hstands, hstands', fun t ht => ?_⟩
  have hshared := fun q => htwins.sameAt (q := q) hrising hrising' (hmerged.sumsSame htwins ht) ht
  refine ⟨fun n hn hsource => ?_, fun q hq => ?_⟩
  · have hn' : n ∈ order' := by
      refine hstands.mem_order_of_sameBut hstands' hsame hn
        (hmerged.stay n (hstands.mem_nodes hn) hsource) fun c hc hid => ?_
      refine (hmerged.connections c).mpr (.inr ⟨hc, fun hmem => hsource ?_⟩)
      obtain ⟨k, hk, hkid⟩ := List.mem_map.mp hmem.1
      rwa [hwell.eq_of_id_eq (hstands.mem_nodes hn) (hmerged.constants k hk).1
        (hid.symm.trans hkid.symm)]
    refine ⟨hn', fun i hi => ?_⟩
    rw [← hf.nodes n hn i hi]
    exact hshared _ (shared_node hn hn' hi)
  · have hsame := hshared q (.inl hq)
    rwa [hf.before q hq] at hsame

/-- On a Gain, a Biquad Filter or a Delay that was built, a parameter whose socket takes over from
the inline value and has connections is the sum of the outputs behind these, each counted once, and
is unknown just when one of them is. So when Constants in a socket that adds up are replaced by one
with the sum of their values, the graph is built as before: on the nodes that are left, and on what
was there before, every output and every parameter is what it was. -/
theorem sums_of_build (h : m.InUse) (hg : g.Reachable)
    (hpatch : (m.build g voicing).1 = .ok patch) :
    (∀ n ∈ g.nodes, (patch.part? n.id).isSome → n.kind.isDriven = true →
      ∀ s ∈ n.kind.inputs, s.combine.replaces = true → g.feeding n.id s.name ≠ [] →
      ∃ (driven : PrimitiveId) (source : Connection → PrimitiveId),
        (patch.part? n.id).bind (·.output? "signal") = some driven ∧
        (∀ c ∈ g.feeding n.id s.name,
          (patch.part? c.source).bind (·.output? c.output) = some (source c)) ∧
        ∀ t, m.rack.clock ≤ t →
          let rack := (m.build g voicing).2.1.rack
          let dial : Dial := ⟨driven, Kind.drivenBy s.name⟩
          (∀ v : Connection → α,
            (∀ c ∈ g.feeding n.id s.name, rack.outputAt (source c) t = some (v c)) →
            ∃ x, rack.effectiveAt dial t = some x ∧
              toReal x = ((g.feeding n.id s.name).map fun c => toReal (v c)).sum) ∧
          (rack.effectiveAt dial t = none ↔
            ∃ c ∈ g.feeding n.id s.name, rack.outputAt (source c) t = none)) ∧
    ∀ (g' : Graph α) (target : NodeId) (socket : String) (sources : List (Node α))
      (whole : Node α) (voicing' : Voicing α), g'.Reachable →
      g.Merged g' target socket sources whole → (patch.part? target).isSome →
      (m.build g voicing).2.1.rack.primitives.size ≤ Rack.destination →
      (m.build g' voicing').2.1.rack.primitives.size ≤ Rack.destination →
      ∃ (patch' : Patch α) (order order' : List (Node α)),
        (m.build g' voicing').1 = .ok patch' ∧
        g.Standing m patch order (m.build g voicing).2.1.rack ∧
        g'.Standing m patch' order' (m.build g' voicing').2.1.rack ∧
        ∀ t, m.rack.clock ≤ t →
          (∀ n ∈ order, n ∉ sources → n ∈ order' ∧ ∀ i < n.kind.outfit.length,
            (m.build g voicing).2.1.rack.SameAt (m.build g' voicing').2.1.rack t
              (firstIn order m.rack.primitives.size n.id + i)
              (firstIn order' m.rack.primitives.size n.id + i)) ∧
          ∀ q < m.rack.primitives.size,
            (m.build g voicing).2.1.rack.SameAt (m.build g' voicing').2.1.rack t q q := by
  constructor
  · intro n hn hbuilt hdriven s hs hreplaces hfed
    obtain ⟨order, hstands⟩ := h.exists_standing hg hpatch
    have hmem := hstands.mem_order hn hbuilt
    obtain ⟨hsignal, houtlet⟩ := Kind.signal_of_isDriven hdriven
    exact ⟨_, g.handle (firstIn order m.rack.primitives.size),
      hstands.output_of_signal hmem hsignal houtlet,
      fun c hc => hstands.output_of_part hmem (List.mem_filter.mp hc).1,
      fun t ht => hstands.effectiveAt_sum hmem hdriven hs hreplaces hfed ht⟩
  · intro g' target socket sources whole voicing' hg' hmerged hbuilt hsize hsize'
    exact h.sameAt_of_merged hg hg' hmerged hpatch hbuilt hsize hsize'

end Mixer.InUse

namespace Mixer

/-- A master chain on an empty rack. -/
noncomputable def desk : Mixer Reals :=
  (Mixer.new (Rack.new 48000.0) 0.5 ⟨2.0, 1⟩).toOption.getD ⟨.new 0.0, 0, 0, 0.0, ⟨2.0, 1⟩, []⟩

theorem inUse_desk : desk.InUse :=
  .new rfl (rfl : Mixer.new (Rack.new 48000.0) 0.5 ⟨2.0, 1⟩ = .ok desk)

/-- Two Constants with the standard value, which is one. -/
noncomputable def constants : List (Node Reals) :=
  [⟨"n1", .standard .constant⟩, ⟨"n2", .standard .constant⟩]

/-- They are added up at a Gain that is heard. -/
noncomputable def added : Graph Reals :=
  .run .empty [.addNode .constant, .addNode .constant, .addNode .gain, .addNode .audioOutput,
    .connect ⟨"n1", "value", "n3", "gain"⟩, .connect ⟨"n2", "value", "n3", "gain"⟩,
    .connect ⟨"n3", "signal", "n4", "signal"⟩]

/-- A Constant with their sum. -/
noncomputable def whole : Node Reals := ⟨"n5", ⟨.constant, [.number 2.0]⟩⟩

theorem made_whole : whole.panel.Made := by
  have haccepts : (Control.Domain.number (1.0 : Reals) .unbounded).Accepts (.number 2.0) := by
    apply Control.Domain.accepts_of_toReal <;>
      simp only [Range.unbounded, Scalar.Exact.toReal_neg, Scalar.Exact.toReal_ofScientific]
    all_goals
      have hlargest := Scalar.Exact.le_largest (α := Reals)
      norm_num
      linarith
  have hset : (Panel.standard .constant).set "value" (.number 2.0) = .ok whole.panel :=
    Panel.set_of_accepts rfl haccepts
  exact .set (.standard .constant) hset

/-- It takes the place of both. -/
noncomputable def merged : Graph Reals :=
  added.run [.removeNode "n1", .removeNode "n2", .insert whole made_whole,
    .connect (whole.into "n3" "gain")]

theorem merged_added : added.Merged merged "n3" "gain" constants whole := by
  have hnodes : added.nodes = [⟨"n1", .standard .constant⟩, ⟨"n2", .standard .constant⟩,
    ⟨"n3", .standard .gain⟩, ⟨"n4", .standard .audioOutput⟩] := rfl
  have hnodes' : merged.nodes =
    [⟨"n3", .standard .gain⟩, ⟨"n4", .standard .audioOutput⟩, whole] := rfl
  have hconnections : added.connections = [⟨"n1", "value", "n3", "gain"⟩,
    ⟨"n2", "value", "n3", "gain"⟩, ⟨"n3", "signal", "n4", "signal"⟩] := rfl
  have hconnections' : merged.connections =
    [⟨"n3", "signal", "n4", "signal"⟩, ⟨"n5", "value", "n3", "gain"⟩] := rfl
  refine ⟨?_, List.cons_ne_nil _ _, by simp [constants], ?_, ?_, rfl, ?_, ?_, ?_, ?_, ?_⟩
  · simp only [hnodes, List.forall_mem_cons, String.reduceEq, false_imp_iff, true_and,
      true_imp_iff]
    exact ⟨⟨Kind.gainLevel, .tail _ (.head _), rfl, rfl⟩, List.forall_mem_nil _⟩
  · simp [constants, hnodes, hconnections, Node.into, Node.kind, Panel.standard]
  · simp [hnodes']
  · show (2.0 : ℝ) = 1.0 + (1.0 + 0)
    norm_num
  · simp [hnodes, hconnections, whole]
  · simp [constants, hnodes, hnodes']
  · simp [hnodes, hnodes', whole]
  · rw [hconnections, hconnections']
    intro c
    simp only [constants, List.mem_cons, List.not_mem_nil, or_false, List.map_cons, List.map_nil]
    constructor
    · rintro (rfl | rfl)
      · exact .inr ⟨.inr (.inr rfl), by simp⟩
      · exact .inl rfl
    · rintro (rfl | ⟨rfl | rfl | rfl, hkept⟩)
      · exact .inr rfl
      · exact absurd ⟨.inl rfl, rfl, rfl⟩ hkept
      · exact absurd ⟨.inr rfl, rfl, rfl⟩ hkept
      · exact .inl rfl

/-- Two Constants with the standard value act on the Gain as one with twice that value. -/
theorem sums_of_added : ∃ (patch patch' : Patch Reals) (driven driven' : PrimitiveId),
    (desk.build added .empty).1 = .ok patch ∧ (desk.build merged .empty).1 = .ok patch' ∧
    (patch.part? "n3").bind (·.output? "signal") = some driven ∧
    (patch'.part? "n3").bind (·.output? "signal") = some driven' ∧
    ∀ t, desk.rack.clock ≤ t →
      (∃ x, (desk.build added .empty).2.1.rack.effectiveAt ⟨driven, .gain⟩ t = some x ∧
        toReal x = 2) ∧
      (desk.build added .empty).2.1.rack.SameAt (desk.build merged .empty).2.1.rack t
        driven driven' := by
  have hreachable : added.Reachable := ⟨_, rfl⟩
  obtain ⟨patch, hpatch⟩ := exists_eq_ok (x := (desk.build added .empty).1) (by decide +kernel)
  have hbuilt : (patch.part? "n3").isSome := by
    have hsome : ((desk.build added .empty).1.toOption.bind (·.part? "n3")).isSome := by
      decide +kernel
    rwa [hpatch] at hsome
  obtain ⟨hsums, hmerges⟩ := InUse.sums_of_build inUse_desk hreachable hpatch
  obtain ⟨patch', order, order', hpatch', hstands, hstands', hsame⟩ :=
    hmerges merged "n3" "gain" _ whole .empty (hreachable.run _) merged_added hbuilt
      (by decide +kernel) (by decide +kernel)
  have hn : (⟨"n3", .standard .gain⟩ : Node Reals) ∈ order :=
    hstands.mem_order (.tail _ (.tail _ (.head _))) hbuilt
  have hfeeding : added.feeding "n3" "gain" =
      [⟨"n1", "value", "n3", "gain"⟩, ⟨"n2", "value", "n3", "gain"⟩] := rfl
  obtain ⟨driven, source, hdriven, hsource, hsum⟩ :=
    hsums _ (hstands.mem_nodes hn) hbuilt rfl Kind.gainLevel (.tail _ (.head _)) rfl
      (hfeeding.trans_ne (List.cons_ne_nil _ _))
  refine ⟨patch, patch', driven, firstIn order' desk.rack.primitives.size "n3", hpatch, hpatch',
    hdriven, ?_, fun t ht => ⟨?_, ?_⟩⟩
  · have hn' := ((hsame _ (Scalar.Exact.le_refl _)).1 _ hn (by simp [constants])).1
    exact hstands'.output_of_signal hn' List.mem_cons_self rfl
  · have hones : ∀ c ∈ added.feeding "n3" "gain",
        (desk.build added .empty).2.1.rack.outputAt (source c) t = some 1.0 := by
      intro c hc
      have houtput := hsource c hc
      rw [hstands.output_of_part hn (List.mem_filter.mp hc).1] at houtput
      rw [← Option.some.inj houtput]
      obtain ⟨n, hmem, rfl⟩ := List.mem_map.mp
        (show c ∈ constants.map (·.into "n3" "gain") from hc)
      obtain ⟨hnode, hkind, -⟩ := merged_added.constants n hmem
      rw [hstands.outputAt_handle hn (List.mem_filter.mp hc).1 hnode rfl hkind ht]
      rcases List.mem_pair.mp hmem with rfl | rfl <;> rfl
    obtain ⟨x, hx, hvalue⟩ := (hsum t ht).1 (fun _ => 1.0) hones
    refine ⟨x, hx, hvalue.trans ?_⟩
    show (1.0 : ℝ) + (1.0 + 0) = 2
    norm_num
  · have hsame := ((hsame t ht).1 _ hn (by simp [constants])).2 0 Nat.one_pos
    rw [hstands.output_of_signal hn List.mem_cons_self rfl] at hdriven
    cases hdriven
    exact hsame

end Mixer

end Patchbay
