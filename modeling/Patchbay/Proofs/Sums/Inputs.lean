import Patchbay.Proofs.Sums.Standing
/-!
# The order of inputs

A primitive keeps the inlets that it is patched into, and no inlet keeps what is patched into it. So
the inputs of an inlet come in the order of their places, which is the order in which they were
created, and not in the order in which they were patched there (`Rack.arrivals`). Both are the same
primitives, and the same lists only when nothing was patched in before what is older
(`Rack.byPlace_callAll`).

A graph that is built creates the primitives of each node after those of all that feeds it. What
feeds a socket is therefore listed in the order in which the nodes were built
(`Graph.Reachable.byPlace_of_build`), and a node that feeds something else before may come before
those whose connections are older.
-/

namespace Patchbay

variable {α : Type}

/-- Inputs that are listed by their places, whatever the order in which they arrived: the same
primitives, and the same list just when those that arrived later are younger. -/
structure ByPlace (inputs arrived : List PrimitiveId) : Prop where
  perm : inputs.Perm arrived
  ascending : inputs.Pairwise (· < ·)
  eq_iff : inputs = arrived ↔ arrived.Pairwise (· < ·)

theorem byPlace_of_mem_iff {inputs arrived : List PrimitiveId} (horder : inputs.Pairwise (· < ·))
    (hnodup : arrived.Nodup) (hmem : ∀ id, id ∈ inputs ↔ id ∈ arrived) :
    ByPlace inputs arrived := by
  have hperm : inputs.Perm arrived :=
    (List.perm_ext_iff_of_nodup (horder.imp Nat.ne_of_lt) hnodup).mpr hmem
  refine ⟨hperm, horder, fun heq => heq ▸ horder, fun horder' => ?_⟩
  exact hperm.eq_of_pairwise (fun _ _ _ _ h h' => absurd h' (Nat.lt_asymm h)) horder horder'

/-! ## Calls -/

/-- A call that adds a primitive to a rack, patches one or releases one. -/
inductive Rack.Call (α : Type) where
  | create (setup : Setup α)
  | connect (source : PrimitiveId) (inlet : Inlet)
  | release (id : PrimitiveId)

namespace Rack

theorem pairwise_inputsOf (rack : Rack α) (inlet : Inlet) :
    (rack.inputsOf inlet).Pairwise (· < ·) :=
  List.pairwise_lt_range.filter _

theorem mem_unreleased_iff {rack : Rack α} {id : PrimitiveId} :
    id ∈ rack.unreleased ↔ ∃ p, rack.primitive? id = some p ∧ p.released = false := by
  unfold unreleased
  rw [List.mem_filter, List.mem_range]
  cases hp : rack.primitive? id with
  | none => simp
  | some p => simp [lt_size_of_primitive? hp]

theorem unreleased_of_mem_inputsOf {rack : Rack α} {inlet : Inlet} {id : PrimitiveId}
    (h : id ∈ rack.inputsOf inlet) : id ∈ rack.unreleased := by
  obtain ⟨p, hp, hlive, -⟩ := mem_inputsOf.mp h
  exact mem_unreleased_iff.mpr ⟨p, hp, hlive⟩

variable [Scalar α]

/-- The rack after a call. One that cannot create its primitive leaves it as it is. -/
def call (rack : Rack α) : Call α → Rack α
  | .create setup => ((rack.create setup).toOption.map (·.2)).getD rack
  | .connect source inlet => rack.connect source inlet
  | .release id => rack.release id

def callAll (rack : Rack α) (calls : List (Call α)) : Rack α := calls.foldl call rack

/-- The primitive that a call patches into an inlet. It has to be there. -/
def arrival? (rack : Rack α) (inlet : Inlet) : Call α → Option PrimitiveId
  | .connect source target =>
    if target = inlet ∧ source < rack.primitives.size then some source else none
  | .create _ | .release _ => none

/-- The primitives that calls patch into an inlet, each once, in the order in which they are first
patched there. -/
def arrivals (rack : Rack α) (inlet : Inlet) : List (Call α) → List PrimitiveId
  | [] => []
  | c :: calls =>
    let later := (rack.call c).arrivals inlet calls
    match rack.arrival? inlet c with
    | some source => source :: later.filter (· ≠ source)
    | none => later

theorem nodup_arrivals (rack : Rack α) (inlet : Inlet) (calls : List (Call α)) :
    (rack.arrivals inlet calls).Nodup := by
  induction calls generalizing rack with
  | nil => exact List.nodup_nil
  | cons c calls ih =>
    unfold arrivals
    cases rack.arrival? inlet c with
    | none => exact ih _
    | some source => exact List.nodup_cons.mpr ⟨by simp, (ih _).filter _⟩

theorem mem_arrivals_cons {rack : Rack α} {inlet : Inlet} {c : Call α} {calls : List (Call α)}
    {id : PrimitiveId} : id ∈ rack.arrivals inlet (c :: calls) ↔
      rack.arrival? inlet c = some id ∨ id ∈ (rack.call c).arrivals inlet calls := by
  rw [arrivals]
  cases rack.arrival? inlet c with
  | none => simp
  | some source =>
    by_cases hid : id = source
    · simp [hid]
    · simp [hid, Ne.symm hid]

/-! ## What a call does to inputs -/

variable {rack : Rack α} {inlet target : Inlet} {source id : PrimitiveId} {c : Call α}

theorem call_create (rack : Rack α) (setup : Setup α) :
    rack.call (.create setup) = rack ∨ rack.call (.create setup) = rack.add setup := by
  unfold call create
  dsimp only
  split
  next => exact .inl rfl
  next => exact .inr rfl

theorem size_le_call (rack : Rack α) (c : Call α) :
    rack.primitives.size ≤ (rack.call c).primitives.size := by
  cases c with
  | create setup =>
    rcases rack.call_create setup with hcall | hcall
    · rw [hcall]
    · rw [hcall, add, Array.size_push]
      exact Nat.le_succ _
  | connect source inlet => exact Nat.le_of_eq (size_update rack source _).symm
  | release id => exact Nat.le_of_eq (size_update rack id _).symm

/-- What is unreleased after a call was so before, if it was there. -/
theorem unreleased_of_call (hid : id < rack.primitives.size)
    (h : id ∈ (rack.call c).unreleased) : id ∈ rack.unreleased := by
  cases c with
  | create setup =>
    rcases rack.call_create setup with hcall | hcall
    · exact hcall ▸ h
    · rw [hcall, unreleased_add, List.mem_append] at h
      exact h.resolve_right fun hlast => Nat.ne_of_lt hid (List.mem_singleton.mp hlast)
  | connect source inlet =>
    have hplayed : Played (fun _ => True) rack (rack.connect source inlet) :=
      .connect rack trivial inlet
    exact hplayed.unreleased_eq ▸ h
  | release target =>
    have hreleased := rack.unreleased_releaseAll [target]
    exact (List.mem_filter.mp (hreleased ▸ h)).1

theorem mem_inputsOf_add {setup : Setup α} :
    id ∈ (rack.add setup).inputsOf inlet ↔ id ∈ rack.inputsOf inlet := by
  rw [mem_inputsOf, mem_inputsOf, primitive?_add]
  split
  next hid =>
    have hnone : rack.primitive? id = none := Array.getElem?_eq_none (Nat.le_of_eq hid.symm)
    rw [hnone]
    constructor
    · rintro ⟨p, hp, -, hinlet⟩
      cases hp
      cases hinlet
    · rintro ⟨p, hp, -⟩
      cases hp
  next => exact Iff.rfl

omit [Scalar α] in
theorem mem_inputsOf_connect : id ∈ (rack.connect source target).inputsOf inlet ↔
    id ∈ rack.inputsOf inlet ∨ target = inlet ∧ source = id ∧ id ∈ rack.unreleased := by
  rw [mem_inputsOf, mem_inputsOf, mem_unreleased_iff, connect, primitive?_update]
  cases rack.primitive? id with
  | none => simp
  | some p =>
    by_cases hsource : source = id
    · simp only [hsource, if_true, Option.map_some, Option.some.injEq, exists_eq_left', true_and,
        List.mem_append, List.mem_singleton, eq_comm (a := inlet)]
      tauto
    · simp [hsource]

omit [Scalar α] in
theorem mem_inputsOf_release :
    id ∈ (rack.release source).inputsOf inlet ↔ id ∈ rack.inputsOf inlet ∧ source ≠ id := by
  rw [mem_inputsOf, mem_inputsOf, release, primitive?_update]
  by_cases hsource : source = id
  · simp [hsource]
  · simp [hsource]

/-- After a call an inlet has the inputs that it had and the one that the call patches there, unless
they are released. -/
theorem mem_inputsOf_call : id ∈ (rack.call c).inputsOf inlet ↔
    (id ∈ rack.inputsOf inlet ∨ rack.arrival? inlet c = some id) ∧
      id ∈ (rack.call c).unreleased := by
  refine ⟨fun h => ⟨?_, unreleased_of_mem_inputsOf h⟩, fun ⟨h, hlive⟩ => ?_⟩
  · cases c with
    | create setup =>
      rcases rack.call_create setup with hcall | hcall
      · exact .inl (hcall ▸ h)
      · exact .inl (mem_inputsOf_add.mp (hcall ▸ h))
    | connect source target =>
      refine (mem_inputsOf_connect.mp h).imp_right fun ⟨htarget, hsource, hlive⟩ => ?_
      obtain ⟨p, hp, -⟩ := mem_unreleased_iff.mp hlive
      exact hsource ▸ if_pos ⟨htarget, hsource ▸ lt_size_of_primitive? hp⟩
    | release target => exact .inl (mem_inputsOf_release.mp h).1
  · cases c with
    | create setup =>
      have hold : id ∈ rack.inputsOf inlet := h.resolve_right fun harrival => by cases harrival
      rcases rack.call_create setup with hcall | hcall
      · exact hcall.symm ▸ hold
      · exact hcall.symm ▸ mem_inputsOf_add.mpr hold
    | connect source target =>
      refine mem_inputsOf_connect.mpr (h.imp_right fun harrival => ?_)
      obtain ⟨⟨htarget, hsize⟩, hsource⟩ := Option.ite_none_right_eq_some.mp harrival
      cases hsource
      exact ⟨htarget, rfl, unreleased_of_call hsize hlive⟩
    | release target =>
      refine mem_inputsOf_release.mpr ⟨h.resolve_right (fun harrival => by cases harrival), ?_⟩
      rintro rfl
      have hreleased := rack.unreleased_releaseAll [target]
      have hkept : target ∈ List.filter (· ∉ [target]) rack.unreleased := hreleased ▸ hlive
      exact of_decide_eq_true (List.mem_filter.mp hkept).2 (List.mem_singleton_self _)

/-! ## Runs -/

theorem unreleased_of_callAll {calls : List (Call α)} (hid : id < rack.primitives.size)
    (h : id ∈ (rack.callAll calls).unreleased) : id ∈ rack.unreleased := by
  induction calls generalizing rack with
  | nil => exact h
  | cons c calls ih =>
    exact unreleased_of_call hid (ih (Nat.lt_of_lt_of_le hid (rack.size_le_call c)) h)

omit [Scalar α] in
theorem lt_size_of_arrival? (h : rack.arrival? inlet c = some id) :
    id < rack.primitives.size := by
  cases c with
  | create | release => cases h
  | connect source target =>
    obtain ⟨⟨-, hsize⟩, hsource⟩ := Option.ite_none_right_eq_some.mp h
    cases hsource
    exact hsize

/-- After any calls an inlet has the inputs that it had and those that were patched there, unless
they are released. -/
theorem mem_inputsOf_callAll {calls : List (Call α)} :
    id ∈ (rack.callAll calls).inputsOf inlet ↔
      (id ∈ rack.inputsOf inlet ∨ id ∈ rack.arrivals inlet calls) ∧
        id ∈ (rack.callAll calls).unreleased := by
  induction calls generalizing rack with
  | nil => simpa [callAll, arrivals] using unreleased_of_mem_inputsOf
  | cons c calls ih =>
    show id ∈ ((rack.call c).callAll calls).inputsOf inlet ↔
      _ ∧ id ∈ ((rack.call c).callAll calls).unreleased
    rw [ih, mem_inputsOf_call, mem_arrivals_cons]
    refine and_congr_left fun hlive => ?_
    -- what is unreleased in the end was so right after the first call
    have hbetween : (id ∈ rack.inputsOf inlet ∨ rack.arrival? inlet c = some id) →
        id ∈ (rack.call c).unreleased := by
      intro h
      have hsize : id < rack.primitives.size := by
        rcases h with hold | harrival
        · obtain ⟨p, hp, -⟩ := mem_inputsOf.mp hold
          exact lt_size_of_primitive? hp
        · exact lt_size_of_arrival? harrival
      exact unreleased_of_callAll (Nat.lt_of_lt_of_le hsize (rack.size_le_call c)) hlive
    rw [and_iff_left_of_imp hbetween, or_assoc]

/-- Whatever calls are made on an empty rack, the inputs of an inlet are the primitives that were
patched there and not released, by their places. -/
theorem byPlace_callAll (hempty : rack.primitives = #[]) (calls : List (Call α)) (inlet : Inlet) :
    ByPlace ((rack.callAll calls).inputsOf inlet)
      ((rack.arrivals inlet calls).filter (· ∈ (rack.callAll calls).unreleased)) := by
  have hnone : rack.inputsOf inlet = [] := by
    unfold inputsOf
    rw [hempty]
    rfl
  refine byPlace_of_mem_iff (pairwise_inputsOf _ inlet) ((nodup_arrivals rack inlet calls).filter _)
    fun id => ?_
  rw [mem_inputsOf_callAll, hnone, List.mem_filter, decide_eq_true_iff]
  simp

end Rack

/-! ## Graphs -/

section

variable {order : List (Node α)} {start : PrimitiveId} {n m : Node α}

/-- The primitives of a node come before those of the nodes that are built later. -/
theorem firstIn_add_le_of_idxOf_lt (hnodup : (order.map (·.id)).Nodup) (hn : n ∈ order)
    (hm : m ∈ order) (h : (order.map (·.id)).idxOf n.id < (order.map (·.id)).idxOf m.id) :
    firstIn order start n.id + n.kind.outfit.length ≤ firstIn order start m.id := by
  obtain ⟨l, l', rfl, hl, -, -⟩ := exists_split_offsetIn hnodup hm (fun k => k.kind.outfit)
  have hnot : m.id ∉ l.map (·.id) := fun hmem => by
    obtain ⟨k, hk, hid⟩ := List.mem_map.mp hmem
    exact hl k hk hid
  have hbefore : n.id ∈ l.map (·.id) := by
    by_contra hafter
    rw [List.map_append, List.idxOf_append_of_notMem hafter, List.idxOf_append_of_notMem hnot,
      List.map_cons, List.idxOf_cons_self] at h
    exact absurd h (Nat.not_lt.mpr (Nat.le_add_right _ _))
  obtain ⟨k, hk, hid⟩ := List.mem_map.mp hbefore
  obtain rfl := List.inj_on_of_nodup_map hnodup (List.mem_append_left _ hk) hn hid
  rw [List.map_append] at hnodup
  rw [firstIn_append hbefore, firstIn_append_cons hnot]
  exact firstIn_add_le hnodup.of_append_left hk

theorem firstIn_lt_iff (hnodup : (order.map (·.id)).Nodup) (hn : n ∈ order) (hm : m ∈ order)
    {i j : Nat} (hi : i < n.kind.outfit.length) (hj : j < m.kind.outfit.length)
    (hne : n.id ≠ m.id) : firstIn order start n.id + i < firstIn order start m.id + j ↔
      (order.map (·.id)).idxOf n.id < (order.map (·.id)).idxOf m.id := by
  -- of two nodes, the block of the one ends before that of the other begins
  have hblock {k k' : Node α} (hk : k ∈ order) (hk' : k' ∈ order) {i j : Nat}
      (hi : i < k.kind.outfit.length)
      (hlt : (order.map (·.id)).idxOf k.id < (order.map (·.id)).idxOf k'.id) :
      firstIn order start k.id + i < firstIn order start k'.id + j :=
    Nat.lt_of_lt_of_le (Nat.add_lt_add_left hi _)
      (Nat.le_add_right_of_le (firstIn_add_le_of_idxOf_lt hnodup hk hk' hlt))
  rcases Nat.lt_trichotomy ((order.map (·.id)).idxOf n.id) ((order.map (·.id)).idxOf m.id)
    with hlt | heq | hgt
  · exact iff_of_true (hblock hn hm hi hlt) hlt
  · exact absurd ((List.idxOf_inj (List.mem_map_of_mem hn)).mp heq) hne
  · exact iff_of_false (Nat.lt_asymm (hblock hm hn hj hgt)) (Nat.lt_asymm hgt)

end

/-- A further node has its block where those of the others end. -/
theorem Assembly.Laid.places_step {g : Graph α} {base : Rack α} {order : List (Node α)}
    {first : NodeId → PrimitiveId} {a : Assembly α} {n : Node α} (h : Laid g base order first a)
    (hn : g.Next a.done n)
    (hplaces : ∀ m ∈ order, first m.id = firstIn order base.primitives.size m.id) :
    ∀ m ∈ order ++ [n], Function.update first n.id a.rack.primitives.size m.id =
      firstIn (order ++ [n]) base.primitives.size m.id := by
  refine List.forall_mem_append.mpr ⟨fun m hm => ?_, List.forall_mem_singleton.mpr ?_⟩
  · have hdone := List.mem_map_of_mem (f := (·.id)) hm
    rw [hn.update_of_mem _ (h.done ▸ hdone), firstIn_append hdone, hplaces m hm]
  · have hmade : a.made.length = (order.flatMap (·.kind.outfit)).length := by
      rw [h.made, List.length_flatMap, List.length_flatMap]
      simp only [length_numbered]
    rw [Function.update_self, firstIn_append_cons (h.done ▸ hn.new), h.size, hmade]

namespace Graph

variable {g : Graph α} {master base : PrimitiveId} {order : List (Node α)} {n : Node α}

/-- The nodes upstream of the sinks, each after all that feeds it. -/
structure Ordered (g : Graph α) (order : List (Node α)) : Prop where
  wellFormed : g.WellFormed
  upstream : ∀ n, n ∈ order ↔ n ∈ g.nodes ∧ g.Upstream n.id
  ready : g.Ready [] order

theorem Ordered.nodup (h : g.Ordered order) : (order.map (·.id)).Nodup :=
  h.ready.nodup List.nodup_nil

/-- A connection into a node that was built comes from one that was, and from its own primitive. -/
theorem Ordered.exists_source (h : g.Ordered order) (base : PrimitiveId) (hn : n ∈ order)
    {c : Connection} {socket : String} (hc : c ∈ g.feeding n.id socket) :
    ∃ k ∈ order, k.id = c.source ∧ k.kind.outlet < k.kind.outfit.length ∧
      g.handle (firstIn order base) c = firstIn order base k.id + k.kind.outlet := by
  obtain ⟨hc, htarget, -⟩ := mem_feeding.mp hc
  obtain ⟨k, hk, hid, houtput⟩ := h.wellFormed.source hc
  have hup : g.Upstream k.id := hid ▸ Upstream.source hc (htarget ▸ ((h.upstream n).mp hn).2)
  refine ⟨k, (h.upstream k).mpr ⟨hk, hup⟩, hid, ?_, ?_⟩
  · exact Kind.outlet_lt (List.ne_nil_of_mem (List.find?_isSome.mp houtput).choose_spec.1)
  · unfold handle
    rw [h.wellFormed.node?_eq_some_iff.mpr ⟨hk, hid⟩, hid]

theorem Ordered.connection_ext (h : g.Ordered order) {socket : String} {c c' : Connection}
    (hc : c ∈ g.feeding n.id socket) (hc' : c' ∈ g.feeding n.id socket)
    (hsource : c.source = c'.source) : c = c' := by
  obtain ⟨hc, htarget, hinput⟩ := mem_feeding.mp hc
  obtain ⟨hc', htarget', hinput'⟩ := mem_feeding.mp hc'
  exact h.wellFormed.connection_ext hc hc' hsource (htarget.trans htarget'.symm)
    (hinput.trans hinput'.symm)

/-- Of two connections into a socket, the one from the node that was built first comes from the
older primitive. -/
theorem Ordered.handle_lt_iff (h : g.Ordered order) (hn : n ∈ order) {socket : String}
    {c c' : Connection} (hc : c ∈ g.feeding n.id socket) (hc' : c' ∈ g.feeding n.id socket) :
    g.handle (firstIn order base) c < g.handle (firstIn order base) c' ↔
      (order.map (·.id)).idxOf c.source < (order.map (·.id)).idxOf c'.source := by
  by_cases hsource : c.source = c'.source
  · obtain rfl := h.connection_ext hc hc' hsource
    exact iff_of_false (Nat.lt_irrefl _) (Nat.lt_irrefl _)
  · obtain ⟨k, hk, hid, houtlet, hhandle⟩ := h.exists_source base hn hc
    obtain ⟨k', hk', hid', houtlet', hhandle'⟩ := h.exists_source base hn hc'
    rw [hhandle, hhandle', ← hid, ← hid']
    exact firstIn_lt_iff h.nodup hk hk' houtlet houtlet' (hid ▸ hid' ▸ hsource)

/-- Different connections into a socket come from different primitives. -/
theorem Ordered.nodup_handles (h : g.Ordered order) (hn : n ∈ order) (socket : String) :
    ((g.feeding n.id socket).map (g.handle (firstIn order base))).Nodup := by
  refine List.Nodup.map_on (fun c hc c' hc' heq => ?_) (h.wellFormed.nodup_feeding n.id socket)
  obtain ⟨k, hk, hid, houtlet, hhandle⟩ := h.exists_source base hn hc
  obtain ⟨k', hk', hid', houtlet', hhandle'⟩ := h.exists_source base hn hc'
  have hsame := (firstIn_inj h.nodup hk hk' houtlet houtlet'
    (hhandle.symm.trans (heq.trans hhandle'))).1
  exact h.connection_ext hc hc' (hid.symm.trans (hsame.trans hid'))

/-- On a rack that is wired as the graph describes, what feeds a socket is listed by its places,
which are in the order in which the nodes were built. -/
theorem Ordered.byPlace (h : g.Ordered order) {rack : Rack α}
    (hwires : g.Wires master base order rack)
    (halive : ∀ id p, base ≤ id → rack.primitive? id = some p → p.released = false)
    (hn : n ∈ order) {s : Socket} (hs : s ∈ n.kind.inputs) {inlet : Inlet}
    (hinlet : inlet ∈ n.kind.inlets master (firstIn order base n.id) s) :
    let sources := (g.feeding n.id s.name).map (g.handle (firstIn order base))
    ByPlace ((rack.inputsOf inlet).filter (· ∈ sources)) sources ∧
      (sources.Pairwise (· < ·) ↔ (g.feeding n.id s.name).Pairwise fun c c' =>
        (order.map (·.id)).idxOf c.source < (order.map (·.id)).idxOf c'.source) := by
  intro sources
  have hinputs : ∀ id ∈ sources, id ∈ rack.inputsOf inlet := by
    intro id hid
    obtain ⟨c, hc, rfl⟩ := List.mem_map.mp hid
    obtain ⟨k, -, -, -, hhandle⟩ := h.exists_source base hn hc
    have hnew : base ≤ g.handle (firstIn order base) c :=
      hhandle ▸ Nat.le_add_right_of_le (start_le_firstIn order base k.id)
    have hwired : inlet ∈ rack.outputsOf (g.handle (firstIn order base) c) := by
      obtain ⟨hinto, hname⟩ := List.mem_filter.mp hc
      have hsocket := Kind.input?_eq_some_iff.mpr ⟨hs, (beq_iff_eq.mp hname).symm⟩
      refine (hwires _ hnew inlet).mpr (List.mem_flatMap.mpr ⟨n, hn, List.mem_append_right _ ?_⟩)
      refine List.mem_flatMap.mpr ⟨c, hinto, List.mem_map_of_mem ?_⟩
      unfold Kind.inletsAt
      rw [hsocket]
      exact hinlet
    obtain ⟨p, hp⟩ := Rack.exists_primitive? (Rack.lt_size_of_mem_outputsOf hwired)
    exact Rack.mem_inputsOf.mpr
      ⟨p, hp, halive _ p hnew hp, Rack.outputsOf_of_primitive? hp ▸ hwired⟩
  refine ⟨byPlace_of_mem_iff ((Rack.pairwise_inputsOf rack inlet).filter _)
    (h.nodup_handles hn s.name) fun id => ?_, ?_⟩
  · rw [List.mem_filter, decide_eq_true_iff]
    exact ⟨And.right, fun hid => ⟨hinputs id hid, hid⟩⟩
  · rw [List.pairwise_map]
    exact List.Pairwise.iff_of_mem fun hc hc' => h.handle_lt_iff hn hc hc'

open Assembly in
/-- After a build the inputs of a node that come from the connections into one of its sockets are
listed by their places, and these are in the order in which the nodes were built. -/
theorem Reachable.byPlace_of_build [Scalar α] [StandardsAccepted α] (hg : g.Reachable)
    {noise : Noise.Source α} {rack : Rack α} {voicing : Voicing α} {patch : Patch α}
    (hpatch : (g.build master noise rack voicing).outcome = .ok patch) :
    ∃ order, g.Ordered order ∧
      (patch.primitives = order.flatMap fun n =>
        numbered (firstIn order rack.primitives.size n.id) n.kind.outfit) ∧
      ∀ n ∈ order, ∀ s ∈ n.kind.inputs,
        let feeding := g.feeding n.id s.name
        let handle := g.handle (firstIn order rack.primitives.size)
        (∀ c ∈ feeding, (patch.part? c.source).bind (·.output? c.output) = some (handle c)) ∧
        ∀ inlet ∈ n.kind.inlets master (firstIn order rack.primitives.size n.id) s,
          ByPlace (((g.build master noise rack voicing).rack.inputsOf inlet).filter
              (· ∈ feeding.map handle)) (feeding.map handle) ∧
            ((feeding.map handle).Pairwise (· < ·) ↔ feeding.Pairwise fun c c' =>
              (order.map (·.id)).idxOf c.source < (order.map (·.id)).idxOf c'.source) := by
  have hwell := hg.sound.wellFormed
  obtain ⟨order, first, b, hbuilt, hfinish, hready, horder, hclosed, hlaid, hwired, hplaces⟩ :=
    hwell.exists_laid_of_build hpatch
      (P := fun order first _ => ∀ n ∈ order, first n.id = firstIn order rack.primitives.size n.id)
      (fun h _ hn hnode hP => h.places_step hn hP) (fun n hn => absurd hn List.not_mem_nil)
  have hordered : g.Ordered order := ⟨hwell, horder, hready⟩
  have hwires := hlaid.wires hclosed hwired hplaces
  obtain ⟨-, -, -, halive⟩ := patch_of_build hpatch
  rw [hbuilt] at halive ⊢
  refine ⟨order, hordered, ?_, fun n hn s hs => ⟨fun c hc => ?_, fun inlet hinlet =>
    hordered.byPlace hwires halive hn hs hinlet⟩⟩
  · rw [← hfinish]
    exact hlaid.made.trans (List.flatMap_congr fun n hn => by rw [hplaces n hn])
  · obtain ⟨k, hk, hid, -, -⟩ := hordered.exists_source 0 hn hc
    obtain ⟨hc, -⟩ := mem_feeding.mp hc
    have hdone : c.source ∈ b.done := hlaid.done ▸ hid ▸ List.mem_map_of_mem hk
    rw [← hfinish, part?_finish, if_pos (hid ▸ List.mem_map_of_mem (hlaid.nodes k hk)),
      ← handle_congr (hid ▸ hplaces k hk)]
    exact (hlaid.handle hwell hc hdone).1

end Graph

/-- Inputs are listed by their places. After any calls on an empty rack an inlet has the primitives
that were patched there and not released, each once; and after a build the inlets of a node have,
for each of its sockets, the primitives of the connections into it, each once. They come in the
order in which they were created, for a built graph that of its nodes, and so in the order in which
they were patched there or connected just when that is the same. -/
theorem inputs_by_place [Scalar α] [StandardsAccepted α] :
    (∀ rack : Rack α, rack.primitives = #[] → ∀ (calls : List (Rack.Call α)) (inlet : Inlet),
      ByPlace ((rack.callAll calls).inputsOf inlet)
        ((rack.arrivals inlet calls).filter (· ∈ (rack.callAll calls).unreleased))) ∧
    ∀ (g : Graph α) (master : PrimitiveId) (noise : Noise.Source α) (rack : Rack α)
      (voicing : Voicing α) (patch : Patch α), g.Reachable →
      (g.build master noise rack voicing).outcome = .ok patch →
      ∃ order, g.Ordered order ∧
        (patch.primitives = order.flatMap fun n =>
          numbered (firstIn order rack.primitives.size n.id) n.kind.outfit) ∧
        ∀ n ∈ order, ∀ s ∈ n.kind.inputs,
          let feeding := g.feeding n.id s.name
          let handle := g.handle (firstIn order rack.primitives.size)
          (∀ c ∈ feeding, (patch.part? c.source).bind (·.output? c.output) = some (handle c)) ∧
          ∀ inlet ∈ n.kind.inlets master (firstIn order rack.primitives.size n.id) s,
            ByPlace (((g.build master noise rack voicing).rack.inputsOf inlet).filter
                (· ∈ feeding.map handle)) (feeding.map handle) ∧
              ((feeding.map handle).Pairwise (· < ·) ↔ feeding.Pairwise fun c c' =>
                (order.map (·.id)).idxOf c.source < (order.map (·.id)).idxOf c'.source) :=
  ⟨fun _ hempty calls inlet => Rack.byPlace_callAll hempty calls inlet,
    fun _ _ _ _ _ _ hg hpatch => hg.byPlace_of_build hpatch⟩

/-- Two oscillators that are connected into a gain, the second of which is heard of itself too. -/
def Graph.crossed : Graph Float :=
  empty.run [.addNode .oscillator, .addNode .oscillator, .addNode .gain, .addNode .audioOutput,
    .connect ⟨"n2", "signal", "n4", "signal"⟩, .connect ⟨"n1", "signal", "n3", "signal"⟩,
    .connect ⟨"n2", "signal", "n3", "signal"⟩, .connect ⟨"n3", "signal", "n4", "signal"⟩]

/-- Three gains, of which the first two are patched into the third, the second before the first. -/
def Rack.crossing : List (Call Float) :=
  [.create (.gain 1.0), .create (.gain 1.0), .create (.gain 1.0), .connect 1 (.input 2),
    .connect 0 (.input 2)]

theorem inputs_by_place_crossed :
    ByPlace ((Rack.callAll (.new 48000.0) Rack.crossing).inputsOf (.input 2))
        ((Rack.arrivals (.new 48000.0) (.input 2) Rack.crossing).filter
          (· ∈ (Rack.callAll (.new 48000.0) Rack.crossing).unreleased)) ∧
      ∃ patch, (Graph.crossed.build 9 ⟨2.0, 1⟩ (.new 48000.0) .empty).outcome = .ok patch ∧
        ∃ order, Graph.crossed.Ordered order ∧ patch.primitives = order.flatMap fun n =>
          numbered (firstIn order 0 n.id) n.kind.outfit := by
  have hok : (Graph.crossed.build 9 ⟨2.0, 1⟩ (.new 48000.0) .empty).outcome.isOk = true := by
    decide +kernel
  cases hpatch : (Graph.crossed.build 9 ⟨2.0, 1⟩ (.new 48000.0) .empty).outcome with
  | error fault =>
    rw [hpatch] at hok
    cases hok
  | ok patch =>
    obtain ⟨hcalls, hbuilds⟩ := inputs_by_place (α := Float)
    obtain ⟨order, hordered, hmade, -⟩ := hbuilds _ _ _ _ _ _ ⟨_, rfl⟩ hpatch
    exact ⟨hcalls _ rfl _ _, patch, rfl, order, hordered, hmade⟩

/-- The inputs of an inlet need not be in the order in which they were patched there, and those of a
node not in the order of the connections into it. -/
theorem inputs_not_as_connected :
    (Rack.arrivals (.new 48000.0) (.input 2) Rack.crossing = [1, 0] ∧
      (Rack.callAll (.new 48000.0) Rack.crossing).inputsOf (.input 2) = [0, 1]) ∧
    ∃ patch, (Graph.crossed.build 9 ⟨2.0, 1⟩ (.new 48000.0) .empty).outcome = .ok patch ∧
      (Graph.crossed.feeding "n3" "signal").map (fun c =>
        (patch.part? c.source).bind (·.output? c.output)) = [some 1, some 0] ∧
      (Graph.crossed.build 9 ⟨2.0, 1⟩ (.new 48000.0) .empty).rack.inputsOf (.input 2) = [0, 1] := by
  refine ⟨by decide +kernel, ?_⟩
  have hok : ((Graph.crossed.build 9 ⟨2.0, 1⟩ (.new 48000.0) .empty).outcome.toOption.map
      fun patch => (Graph.crossed.feeding "n3" "signal").map fun c =>
        (patch.part? c.source).bind (·.output? c.output)) = some [some 1, some 0] := by
    decide +kernel
  obtain ⟨patch, hpatch, hsources⟩ := Option.map_eq_some_iff.mp hok
  refine ⟨patch, ?_, hsources, by decide +kernel⟩
  cases houtcome : (Graph.crossed.build 9 ⟨2.0, 1⟩ (.new 48000.0) .empty).outcome with
  | error fault =>
    rw [houtcome] at hpatch
    cases hpatch
  | ok patch' =>
    rw [houtcome] at hpatch
    cases hpatch
    rfl

end Patchbay
