import Mathlib.Data.List.TakeWhile
import Patchbay.Proofs.Patch.Blueprint
/-!
# Blocks one after another

When nodes are built one after another, what each adds to a list makes up a block. `offsetIn` says
where it begins, and the list can be looked up and changed node by node (`getElem?_offsetIn`,
`modify_offsetIn`). For the primitives on a rack this is said with their numbers: `firstIn` is the
first of a node, and no two nodes have one in common (`firstIn_inj`).
-/

namespace Patchbay

variable {α β : Type}

/-! ## Lists -/

/-- Changing an entry of the second of two lists. -/
theorem modify_append_add (l l' : List β) (i : Nat) (f : β → β) :
    (l ++ l').modify (l.length + i) f = l ++ l'.modify i f := by
  refine List.ext_getElem? fun k => ?_
  simp only [List.getElem?_modify, List.getElem?_append]
  grind

theorem getElem?_append_add (l l' : List β) (i : Nat) : (l ++ l')[l.length + i]? = l'[i]? := by
  rw [List.getElem?_append_right (Nat.le_add_right _ _), Nat.add_sub_cancel_left]

theorem getElem?_append_length (l l' : List β) : (l ++ l')[l.length]? = l'[0]? :=
  getElem?_append_add l l' 0

theorem modify_append_length (l l' : List β) (f : β → β) :
    (l ++ l').modify l.length f = l ++ l'.modify 0 f :=
  modify_append_add l l' 0 f

theorem modify_concat (l : List β) (x : β) (f : β → β) :
    (l ++ [x]).modify l.length f = l ++ [f x] :=
  modify_append_length l [x] f

theorem modify_append_left {l : List β} {i : Nat} (hi : i < l.length) (l' : List β) (f : β → β) :
    (l ++ l').modify i f = l.modify i f ++ l' := by
  refine List.ext_getElem? fun k => ?_
  simp only [List.getElem?_modify, List.getElem?_append, List.length_modify]
  grind

/-! ## Blocks -/

/-- How much of a list that is made up node by node lies before what a node adds. -/
def offsetIn (f : Node α → List β) (order : List (Node α)) (id : NodeId) : Nat :=
  ((order.takeWhile (·.id ≠ id)).flatMap f).length

section

variable {f : Node α → List β} {order order' : List (Node α)} {n : Node α}

/-- Further nodes do not move a block. -/
theorem offsetIn_append {id : NodeId} (h : id ∈ order.map (·.id)) :
    offsetIn f (order ++ order') id = offsetIn f order id := by
  obtain ⟨n, hn, rfl⟩ := List.mem_map.mp h
  unfold offsetIn
  rw [List.takeWhile_append, if_neg]
  intro hlength
  have hall := List.takeWhile_eq_self_iff.mp ((List.takeWhile_prefix _).eq_of_length hlength)
  simpa using hall n hn

/-- A block begins where those of the nodes before it end. -/
theorem offsetIn_append_cons (h : n.id ∉ order.map (·.id)) :
    offsetIn f (order ++ n :: order') n.id = (order.flatMap f).length := by
  have hne : ∀ m ∈ order, decide (m.id ≠ n.id) = true := fun m hm =>
    decide_eq_true fun hid : m.id = n.id => h (hid ▸ List.mem_map_of_mem hm)
  unfold offsetIn
  rw [List.takeWhile_append_of_pos hne]
  simp

theorem length_flatMap_congr {γ : Type} {f' : Node α → List γ}
    (h : ∀ n ∈ order, (f n).length = (f' n).length) :
    (order.flatMap f).length = (order.flatMap f').length := by
  rw [List.length_flatMap, List.length_flatMap]
  exact congrArg _ (List.map_congr_left h)

/-- Lists whose blocks have the same lengths have them at the same places. -/
theorem offsetIn_congr {γ : Type} {f' : Node α → List γ}
    (h : ∀ n ∈ order, (f n).length = (f' n).length) (id : NodeId) :
    offsetIn f order id = offsetIn f' order id :=
  length_flatMap_congr fun n hn => h n ((List.takeWhile_prefix _).subset hn)

variable (hnodup : (order.map (·.id)).Nodup) (hn : n ∈ order)

include hnodup hn

/-- A list that is made up node by node splits where a block begins. -/
theorem exists_split_offsetIn (f : Node α → List β) : ∃ l l', order = l ++ n :: l' ∧
    (∀ m ∈ l, m.id ≠ n.id) ∧ (∀ m ∈ l', m.id ≠ n.id) ∧
    (l.flatMap f).length = offsetIn f order n.id := by
  obtain ⟨l, l', rfl⟩ := List.append_of_mem hn
  rw [List.map_append, List.map_cons, List.nodup_middle, List.nodup_cons,
    ← List.map_append] at hnodup
  have hne : ∀ m ∈ l ++ l', m.id ≠ n.id := fun m hm hid =>
    hnodup.1 (hid ▸ List.mem_map_of_mem hm)
  refine ⟨l, l', rfl, fun m hm => hne m (List.mem_append_left _ hm),
    fun m hm => hne m (List.mem_append_right _ hm), (offsetIn_append_cons fun h => ?_).symm⟩
  obtain ⟨m, hm, hid⟩ := List.mem_map.mp h
  exact hne m (List.mem_append_left _ hm) hid

theorem getElem?_offsetIn {i : Nat} (hi : i < (f n).length) :
    (order.flatMap f)[offsetIn f order n.id + i]? = (f n)[i]? := by
  obtain ⟨l, l', horder, -, -, hlength⟩ := exists_split_offsetIn hnodup hn f
  rw [← hlength, horder, List.flatMap_append, List.flatMap_cons, getElem?_append_add,
    List.getElem?_append_left hi]

/-- A change in the block of a node leaves the other blocks. -/
theorem modify_offsetIn {i : Nat} (hi : i < (f n).length) (change : β → β) :
    (order.flatMap f).modify (offsetIn f order n.id + i) change =
      order.flatMap fun m => if m.id = n.id then (f n).modify i change else f m := by
  obtain ⟨l, l', horder, hl, hl', hlength⟩ := exists_split_offsetIn hnodup hn f
  have hother : ∀ k : List (Node α), (∀ m ∈ k, m.id ≠ n.id) →
      (k.flatMap fun m => if m.id = n.id then (f n).modify i change else f m) = k.flatMap f :=
    fun k hk => List.flatMap_congr fun m hm => if_neg (hk m hm)
  rw [← hlength, horder, List.flatMap_append, List.flatMap_cons, modify_append_add,
    modify_append_left hi, List.flatMap_append, List.flatMap_cons, hother l hl, hother l' hl',
    if_pos rfl]

/-- A block ends before the list does. -/
theorem offsetIn_add_le (f : Node α → List β) :
    offsetIn f order n.id + (f n).length ≤ (order.flatMap f).length := by
  obtain ⟨l, l', horder, -, -, hlength⟩ := exists_split_offsetIn hnodup hn f
  rw [← hlength, horder, List.flatMap_append, List.flatMap_cons, List.length_append,
    List.length_append]
  exact Nat.add_le_add_left (Nat.le_add_right _ _) _

end

/-! ## Primitives -/

/-- Where the primitives of a node begin, when those of the nodes of an order lie one after another
from a place on. -/
def firstIn (order : List (Node α)) (start : PrimitiveId) (id : NodeId) : PrimitiveId :=
  start + offsetIn (·.kind.outfit) order id

variable {order order' : List (Node α)} {start : PrimitiveId} {n m : Node α}

theorem start_le_firstIn (order : List (Node α)) (start : PrimitiveId) (id : NodeId) :
    start ≤ firstIn order start id :=
  Nat.le_add_right _ _

theorem firstIn_append {id : NodeId} (h : id ∈ order.map (·.id)) :
    firstIn (order ++ order') start id = firstIn order start id :=
  congrArg (start + ·) (offsetIn_append h)

theorem firstIn_append_cons (h : n.id ∉ order.map (·.id)) :
    firstIn (order ++ n :: order') start n.id = start + (order.flatMap (·.kind.outfit)).length :=
  congrArg (start + ·) (offsetIn_append_cons h)

/-- The last of all primitives is the last of those of a node. -/
theorem firstIn_add_le (hnodup : (order.map (·.id)).Nodup) (hn : n ∈ order) :
    firstIn order start n.id + n.kind.outfit.length ≤
      start + (order.flatMap (·.kind.outfit)).length := by
  unfold firstIn
  rw [Nat.add_assoc]
  exact Nat.add_le_add_left (offsetIn_add_le hnodup hn _) start

/-- No two primitives of nodes have the same place. -/
theorem firstIn_inj (hnodup : (order.map (·.id)).Nodup) (hn : n ∈ order) (hm : m ∈ order)
    {i j : Nat} (hi : i < n.kind.outfit.length) (hj : j < m.kind.outfit.length)
    (h : firstIn order start n.id + i = firstIn order start m.id + j) : n.id = m.id ∧ i = j := by
  -- in a list that names at each place the node and the primitive
  let tags (k : Node α) : List (NodeId × Nat) := (List.range k.kind.outfit.length).map (k.id, ·)
  have hlength : ∀ k ∈ order, k.kind.outfit.length = (tags k).length := by simp [tags]
  have htag := fun (k : Node α) (hk : k ∈ order) (l : Nat) (hl : l < k.kind.outfit.length) =>
    getElem?_offsetIn (f := tags) hnodup hk (hlength k hk ▸ hl)
  unfold firstIn at h
  rw [Nat.add_assoc, Nat.add_assoc, Nat.add_left_cancel_iff, offsetIn_congr hlength,
    offsetIn_congr hlength] at h
  have hsame := (htag n hn i hi).symm.trans ((congrArg _ h).trans (htag m hm j hj))
  simpa [tags, hi, hj] using hsame

end Patchbay
