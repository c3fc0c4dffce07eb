import Patchbay.Proofs.Patch.Frame
/-!
# Building takes effect as a whole

Whatever the graph, the rack and the families that the rack refuses, building puts a row of
primitives at the end of the rack and changes nothing else (`Graph.build_atomic`). When it ends
well the row is what the patch lists and none of it is released; when it stops anywhere all of the
row is released and patched into nothing.

What is new to `Assembly.Apart` is that the list of what was made tells the truth about the
families: they are those of the row (`Assembly.Listed`), and no step but a creation changes one.
-/

namespace Patchbay

variable {α : Type}

namespace Rack

/-- The families of the primitives, in the order of their places. -/
def families (rack : Rack α) : List Family := rack.primitives.toList.map (·.family)

theorem length_families (rack : Rack α) : rack.families.length = rack.primitives.size := by
  simp [families]

/-- A change that leaves the setup of a primitive alone. -/
theorem families_update (rack : Rack α) (id : PrimitiveId) {f : Primitive α → Primitive α}
    (hf : ∀ p, (f p).family = p.family) : (rack.update id f).families = rack.families := by
  unfold families update
  refine List.ext_getElem? fun i => ?_
  simp only [List.getElem?_map, Array.getElem?_toList, Array.getElem?_modify]
  split
  next => rw [Option.map_map]; exact Option.map_congr fun p _ => hf p
  next => rfl

theorem families_add [Scalar α] (rack : Rack α) (setup : Setup α) :
    (rack.add setup).families = rack.families ++ [setup.family] := by
  simp [families, add, Primitive.new, Primitive.family]

/-- A rack that extends another is the other with a row of primitives at its end. -/
theorem Extends.exists_added {base rack : Rack α} (h : base.Extends rack) :
    ∃ added : List (Primitive α),
      rack = { base with primitives := base.primitives ++ added.toArray } := by
  have hkept : base.primitives.toList = rack.primitives.toList.take base.primitives.size := by
    refine List.ext_getElem? fun id => ?_
    rw [List.getElem?_take, Array.getElem?_toList, Array.getElem?_toList]
    split
    next hid => exact (h.kept id hid).symm
    next hid => exact Array.getElem?_eq_none (Nat.le_of_not_lt hid)
  refine ⟨rack.primitives.toList.drop base.primitives.size, ?_⟩
  have hrow : base.primitives ++ (rack.primitives.toList.drop base.primitives.size).toArray =
      rack.primitives := by
    rw [← Array.toList_inj, Array.toList_append, hkept]
    exact List.take_append_drop _ _
  rw [hrow]
  exact h.rest

/-- What was added to a rack has a place after all that was there. -/
theorem exists_place_of_added {base rack : Rack α} {added : List (Primitive α)}
    (h : rack = { base with primitives := base.primitives ++ added.toArray }) {p : Primitive α}
    (hp : p ∈ added) : ∃ id, base.primitives.size ≤ id ∧ rack.primitive? id = some p := by
  obtain ⟨i, hi⟩ := List.mem_iff_getElem?.mp hp
  refine ⟨base.primitives.size + i, Nat.le_add_right _ _, ?_⟩
  rw [h, primitive?, Array.getElem?_append_right (Nat.le_add_right _ _), Nat.add_sub_cancel_left]
  simpa using hi

theorem families_append (base : Rack α) (added : List (Primitive α)) :
    families { base with primitives := base.primitives ++ added.toArray } =
      base.families ++ added.map (·.family) := by
  simp [families]

end Rack

/-- A list whose numbers count on from the first. -/
theorem eq_numbered {first : PrimitiveId} {l : List (PrimitiveId × Family)}
    (h : l.map (·.1) = List.range' first l.length) : l = numbered first (l.map (·.2)) := by
  induction l generalizing first with
  | nil => rfl
  | cons entry l ih =>
    obtain ⟨id, family⟩ := entry
    rw [List.map_cons, List.length_cons, List.range'_succ, List.cons.injEq] at h
    obtain ⟨rfl, hrest⟩ := h
    exact congrArg (List.cons (id, family)) (ih hrest)

namespace Assembly

/-- What was made is listed under the families that it has on the rack. -/
def Listed (base : Rack α) (a : Assembly α) : Prop :=
  a.rack.families = base.families ++ a.made.map (·.2)

theorem Listed.begun (rack : Rack α) (voicing : Voicing α) : Listed rack ⟨rack, voicing, [], []⟩ :=
  (List.append_nil _).symm

variable [Scalar α] {base : Rack α}

theorem keeps_listed_runStep (step : Step α) : Keeps (Listed base) (runStep · step) := by
  intro a ha
  cases step with
  | create setup =>
    dsimp only [runStep, Rack.create]
    by_cases hrefused : setup.family ∈ a.rack.refused
    · simp only [hrefused, if_true]
      exact ha
    · simp only [hrefused, if_false]
      show (a.rack.add setup).families = base.families ++ List.map _ (a.made ++ [_])
      rw [Rack.families_add, show a.rack.families = _ from ha, List.map_append, List.append_assoc]
      rfl
  | connect source inlet =>
    have hsame : (a.rack.connect source inlet).families = a.rack.families :=
      a.rack.families_update source fun _ => rfl
    exact hsame.trans ha
  | setValue dial value =>
    have hsame : (a.rack.setValue dial value).families = a.rack.families :=
      a.rack.families_update dial.primitive fun _ => rfl
    exact hsame.trans ha
  | register profile => exact ha
  | bind key voice => exact ha

theorem keeps_listed_buildNode (g : Graph α) (master : PrimitiveId) (noise : Noise.Source α)
    (n : Node α) : Keeps (Listed base) (buildNode g master noise n) := by
  intro a ha
  unfold buildNode
  split
  next => exact ha
  next plan _ =>
    have hsteps : Keeps (Listed base) (plan.steps.foldlM runStep) :=
      Keeps.foldlM fun step _ => keeps_listed_runStep step
    -- putting the part on record touches neither the rack nor the list
    have hrecord : Keeps (Listed base) fun b =>
        .ok { b with parts := b.parts ++ [(n.id, plan.part)] } := fun b hb => hb
    exact hsteps.bind hrecord a ha

end Assembly

namespace Graph

variable [Scalar α]

/-- Building adds a row of primitives at the end of a rack and leaves everything else as it was: the
clock, whether the rack runs, and the whole record of every primitive that was there. What a patch
lists is the row, in the order of its places, and nothing of it is released; after a fault the whole
row is released and patched into nothing. -/
theorem build_atomic (g : Graph α) (master : PrimitiveId) (noise : Noise.Source α) (rack : Rack α)
    (voicing : Voicing α) :
    let result := g.build master noise rack voicing
    ∃ added : List (Primitive α),
      result.rack = { rack with primitives := rack.primitives ++ added.toArray } ∧
      match result.outcome with
      | .ok patch =>
        patch.primitives = numbered rack.primitives.size (added.map (·.family)) ∧
          ∀ p ∈ added, p.released = false
      | .error _ => ∀ p ∈ added, p.released = true ∧ p.outputs = [] := by
  intro result
  obtain ⟨a, ⟨ha, hlisted⟩, hbuild⟩ :=
    g.build_of_keeps master noise rack voicing ⟨.begun rack voicing, .begun rack voicing⟩
      fun n hn => (Assembly.Assembling.keeps_buildNode hn).and
        (Assembly.keeps_listed_buildNode g master noise n)
  have hextends : rack.Extends result.rack := extends_build
  obtain ⟨added, hadded⟩ := hextends.exists_added
  refine ⟨added, hadded, ?_⟩
  have hfound := fun p (hp : p ∈ added) => Rack.exists_place_of_added hadded hp
  cases houtcome : result.outcome with
  | error fault =>
    intro p hp
    obtain ⟨id, hid, hp⟩ := hfound p hp
    exact released_of_build houtcome hid hp
  | ok patch =>
    rcases hbuild with hbuild | ⟨fault, hbuild⟩
    · have hpatch : a.finish g = patch := by
        simpa [result, hbuild] using houtcome
      have hfamilies : a.made.map (·.2) = added.map (·.family) := by
        have hrack : a.rack = result.rack := (congrArg (·.rack) hbuild).symm
        rw [Assembly.Listed, hrack, hadded, Rack.families_append] at hlisted
        exact (List.append_cancel_left hlisted).symm
      refine ⟨?_, fun p hp => ?_⟩
      · rw [← hpatch, ← hfamilies]
        exact eq_numbered ha.ids
      · obtain ⟨id, hid, hp⟩ := hfound p hp
        exact (patch_of_build houtcome).2.2.2 id p hid hp
    · rw [show result.outcome = .error fault from congrArg (·.outcome) hbuild] at houtcome
      cases houtcome

end Graph

end Patchbay
