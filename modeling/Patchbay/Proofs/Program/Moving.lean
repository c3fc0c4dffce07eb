import Patchbay.Proofs.Patch.Places
import Patchbay.Proofs.Patch.Wiring
/-!
# Moving wires

How a node is wired does not depend on where its primitives lie: when they are moved, with those of
the nodes that feed it and with the master input, its wires move along (`Graph.wiring_move`). The
primitives of all nodes of an order can be moved to wherever they are to begin (`exists_move`).
-/

namespace Patchbay

/-- An inlet of a primitive that was moved. -/
def Inlet.move (f : PrimitiveId → PrimitiveId) : Inlet → Inlet
  | .input id => .input (f id)
  | .dial d => .dial ⟨f d.primitive, d.param⟩

/-- A wire between primitives that were moved. -/
def moveWire (f : PrimitiveId → PrimitiveId) (w : PrimitiveId × Inlet) : PrimitiveId × Inlet :=
  (f w.1, w.2.move f)

section

variable {f : PrimitiveId → PrimitiveId} {master first first' : PrimitiveId} {k : Kind}
  (hf : ∀ i < k.outfit.length, f (first + i) = first' + i)

include hf

/-- The oscillators of a keyboard instrument and their gates move with it. -/
theorem Kind.move_keyOscillator (hk : k = .keyboardNote) {osc : PrimitiveId}
    (hosc : osc ∈ keyOscillators first) : f (osc + 1) = f osc + 1 := by
  subst hk
  obtain ⟨i, hi, rfl⟩ := mem_keyOscillators.mp hosc
  have hplace : 1 + 2 * i + 1 < keyboardNote.outfit.length := by
    rw [show keyboardNote.outfit.length = 51 by decide]
    omega
  rw [Nat.add_assoc first, Nat.add_assoc first, hf _ hplace, hf _ (Nat.lt_of_succ_lt hplace)]
  exact (Nat.add_assoc first' _ _).symm

theorem Kind.map_keyOscillators (hk : k = .keyboardNote) :
    (keyOscillators first).map f = keyOscillators first' := by
  subst hk
  unfold keyOscillators
  rw [List.map_map]
  refine List.map_congr_left fun (i : Nat) hi => ?_
  have hi : i < 25 := List.mem_range.mp hi
  have hplace : 1 + 2 * i < keyboardNote.outfit.length := by
    rw [show keyboardNote.outfit.length = 51 by decide]
    omega
  rw [Function.comp_apply, Nat.add_assoc, hf _ hplace, Nat.add_assoc]

/-- The wires that a node has of itself move with it. -/
theorem Kind.inner_move :
    (k.inner master first).map (moveWire f) = k.inner (f master) first' := by
  cases k
  case clip =>
    have hfirst : f first = first' := hf 0 (by decide)
    simp [inner, moveWire, Inlet.move, hfirst, hf 1 (by decide)]
  case universalOutput =>
    have hfirst : f first = first' := hf 0 (by decide)
    simp [inner, moveWire, Inlet.move, hfirst, hf 1 (by decide), hf 2 (by decide)]
  case keyboardNote =>
    have hfirst : f first = first' := hf 0 (by decide)
    unfold inner
    rw [← map_keyOscillators hf rfl, List.map_flatMap, List.flatMap_map]
    refine List.flatMap_congr fun osc hosc => ?_
    simp [moveWire, Inlet.move, hfirst, move_keyOscillator hf rfl hosc]
  all_goals rfl

/-- What a connection is patched into moves with the node. -/
theorem Kind.inlets_move (s : Socket) :
    (k.inlets master first s).map (·.move f) = k.inlets (f master) first' s := by
  cases k
  case audioOutput => rfl
  case keyboardNote =>
    unfold inlets
    rw [← map_keyOscillators hf rfl, List.map_map, List.map_map]
    rfl
  all_goals
    have hfirst : f first = first' := hf 0 (by decide)
    simp only [inlets]
    split <;> simp [Inlet.move, hfirst]

theorem Kind.inletsAt_move (input : String) :
    (k.inletsAt master first input).map (·.move f) = k.inletsAt (f master) first' input := by
  unfold inletsAt
  cases k.input? input with
  | none => rfl
  | some s => exact inlets_move hf s

end

variable {α : Type} {g : Graph α} {master : PrimitiveId} {first first' : NodeId → PrimitiveId}

/-- The wires of a node move with it, with the nodes that feed it and with the master input. -/
theorem Graph.wiring_move (hg : g.WellFormed) {f : PrimitiveId → PrimitiveId} {n : Node α}
    (hn : ∀ i < n.kind.outfit.length, f (first n.id + i) = first' n.id + i)
    (hsources : ∀ c ∈ g.connections, c.target = n.id → ∀ m ∈ g.nodes, m.id = c.source →
      ∀ i < m.kind.outfit.length, f (first m.id + i) = first' m.id + i) :
    (g.wiring master first n).map (moveWire f) = g.wiring (f master) first' n := by
  unfold wiring
  rw [List.map_append, Kind.inner_move hn, List.map_flatMap]
  refine congrArg _ (List.flatMap_congr fun c hc => ?_)
  obtain ⟨hc, htarget⟩ := mem_connectionsInto.mp hc
  obtain ⟨m, hm, hid, houtput⟩ := hg.source hc
  have hhandle : ∀ first : NodeId → PrimitiveId,
      g.handle first c = first m.id + m.kind.outlet := by
    intro first
    unfold handle
    rw [hg.node?_eq_some_iff.mpr ⟨hm, hid⟩, hid]
  have houtlet : m.kind.outlet < m.kind.outfit.length :=
    Kind.outlet_lt (List.ne_nil_of_mem (List.find?_isSome.mp houtput).choose_spec.1)
  rw [← Kind.inletsAt_move hn, List.map_map, List.map_map, hhandle, hhandle,
    ← hsources c hc htarget m hm hid _ houtlet]
  rfl

/-- There is a way to move the primitives of all nodes of an order, each node to where it is to
begin, and those that lie before them in any other way. -/
theorem exists_move {order : List (Node α)} {start : PrimitiveId}
    (hnodup : (order.map (·.id)).Nodup) (first' : NodeId → PrimitiveId)
    (before : PrimitiveId → PrimitiveId) : ∃ f : PrimitiveId → PrimitiveId,
      (∀ id < start, f id = before id) ∧ ∀ n ∈ order, ∀ i < n.kind.outfit.length,
        f (firstIn order start n.id + i) = first' n.id + i := by
  let moved : List PrimitiveId := order.flatMap fun n =>
    (List.range n.kind.outfit.length).map (first' n.id + ·)
  refine ⟨fun id => if id < start then before id else (moved[id - start]?).getD 0,
    fun id hid => if_pos hid, fun n hn i hi => ?_⟩
  have hplace : ¬firstIn order start n.id + i < start :=
    Nat.not_lt.mpr (Nat.le_add_right_of_le (start_le_firstIn order start n.id))
  have hlength : ∀ m ∈ order, m.kind.outfit.length =
      ((List.range m.kind.outfit.length).map (first' m.id + ·)).length := by simp
  have hentry := getElem?_offsetIn
    (f := fun n => (List.range n.kind.outfit.length).map (first' n.id + ·)) hnodup hn
    (hlength n hn ▸ hi)
  rw [← offsetIn_congr hlength] at hentry
  simp only [hplace, if_false]
  rw [firstIn, Nat.add_assoc, Nat.add_sub_cancel_left, hentry]
  simp [hi]

end Patchbay
