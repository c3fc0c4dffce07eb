import Mathlib.Data.Finset.Card
import Mathlib.Logic.Relation
import Patchbay.Proofs.Rack
/-!
# Outputs are found

The output of a primitive is asked for through what is patched into it, and a rack looks through as
many primitives as it holds (`Rack.outputAt`). Where the primitives can be given heights so that
every wire leads up (`Rack.Rising`), nothing is patched in a circle, and that depth is enough: the
outputs are the only ones that agree with what feeds each primitive (`Rack.Rising.outputAt_eq`,
`Rack.Rising.eq_outputAt`).
-/

namespace Patchbay.Rack

open Relation (TransGen)

variable {α : Type} {rack : Rack α}

/-! ## What feeds a primitive -/

theorem mem_inputsOf {inlet : Inlet} {id : PrimitiveId} :
    id ∈ rack.inputsOf inlet ↔
      ∃ p, rack.primitive? id = some p ∧ p.released = false ∧ inlet ∈ p.outputs := by
  unfold inputsOf
  rw [List.mem_filter, List.mem_range]
  cases hp : rack.primitive? id with
  | none => simp
  | some p => simp [lt_size_of_primitive? hp]

theorem nodup_inputsOf (rack : Rack α) (inlet : Inlet) : (rack.inputsOf inlet).Nodup :=
  List.nodup_range.filter _

theorem outputsOf_of_primitive? {id : PrimitiveId} {p : Primitive α}
    (h : rack.primitive? id = some p) : rack.outputsOf id = p.outputs := by
  unfold outputsOf
  rw [h]
  rfl

theorem outputsOf_of_le {id : PrimitiveId} (h : rack.primitives.size ≤ id) :
    rack.outputsOf id = [] := by
  unfold outputsOf primitive?
  rw [Array.getElem?_eq_none h]
  rfl

theorem outputsOf_releaseAll (rack : Rack α) (ids : List PrimitiveId) (id : PrimitiveId) :
    (rack.releaseAll ids).outputsOf id ⊆ rack.outputsOf id := by
  unfold outputsOf
  rw [primitive?_releaseAll]
  split
  next =>
    cases rack.primitive? id with
    | none => exact List.Subset.refl _
    | some p => exact List.nil_subset _
  next => exact List.Subset.refl _

/-- An unreleased primitive is patched into the input or a parameter of another. -/
def Feeds (rack : Rack α) (source target : PrimitiveId) : Prop :=
  ∃ inlet : Inlet, inlet.place = target ∧ source ∈ rack.inputsOf inlet

theorem Feeds.lt_size {source target : PrimitiveId} (h : rack.Feeds source target) :
    source < rack.primitives.size := by
  obtain ⟨inlet, -, hsource⟩ := h
  obtain ⟨p, hp, -⟩ := mem_inputsOf.mp hsource
  exact lt_size_of_primitive? hp

/-! ## Heights -/

/-- Every wire leads up. -/
def Rising (rack : Rack α) (height : PrimitiveId → Nat) : Prop :=
  ∀ id, ∀ inlet ∈ rack.outputsOf id, height id < height inlet.place

variable {height : PrimitiveId → Nat}

theorem Rising.lt_of_feeds (h : rack.Rising height) {source target : PrimitiveId}
    (hfeeds : rack.Feeds source target) : height source < height target := by
  obtain ⟨inlet, rfl, hsource⟩ := hfeeds
  obtain ⟨p, hp, -, hinlet⟩ := mem_inputsOf.mp hsource
  exact h source inlet (outputsOf_of_primitive? hp ▸ hinlet)

theorem Rising.lt_of_transGen (h : rack.Rising height) {source target : PrimitiveId}
    (hfeeds : TransGen rack.Feeds source target) : height source < height target := by
  induction hfeeds with
  | single hfeeds => exact h.lt_of_feeds hfeeds
  | tail _ hfeeds ih => exact ih.trans (h.lt_of_feeds hfeeds)

theorem Rising.acyclic (h : rack.Rising height) (id : PrimitiveId) :
    ¬TransGen rack.Feeds id id :=
  fun hcircle => Nat.lt_irrefl _ (h.lt_of_transGen hcircle)

theorem Rising.wellFounded (h : rack.Rising height) : WellFounded rack.Feeds :=
  Subrelation.wf h.lt_of_feeds (measure height).wf

/-! ## Asking for outputs -/

section

variable [Scalar α] {output? output?' : PrimitiveId → Option α} {t : α}

/-- The value of a parameter with everything that is patched into it, when the outputs of what feeds
it are given. -/
def effectiveBy (rack : Rack α) (t : α) (output? : PrimitiveId → Option α) (dial : Dial) :
    Option α :=
  sumOutputs output? (rack.valueAt dial t) (rack.inputsOf (.dial dial))

/-- The output of a primitive, when the outputs of what feeds it are given. -/
def outputBy (rack : Rack α) (t : α) (output? : PrimitiveId → Option α) (id : PrimitiveId) :
    Option α := do
  let p ← rack.primitive? id
  match p.family with
  | .constantSource => rack.effectiveBy t output? ⟨id, .offset⟩
  | .gain =>
    let input ← sumOutputs output? 0.0 (rack.inputsOf (.input id))
    let level ← rack.effectiveBy t output? ⟨id, .gain⟩
    return input * level
  | _ => none

theorem outputWithin_succ (rack : Rack α) (t : α) (depth : Nat) (id : PrimitiveId) :
    rack.outputWithin t (depth + 1) id = rack.outputBy t (rack.outputWithin t depth) id := rfl

theorem sumOutputs_congr {start : α} {ids : List PrimitiveId}
    (h : ∀ id ∈ ids, output? id = output?' id) :
    sumOutputs output? start ids = sumOutputs output?' start ids := by
  unfold sumOutputs
  induction ids generalizing start with
  | nil => rfl
  | cons id ids ih =>
    rw [List.foldlM_cons, List.foldlM_cons, h id List.mem_cons_self]
    exact bind_congr fun sum => ih fun other hother => h other (List.mem_cons_of_mem _ hother)

theorem effectiveBy_congr (dial : Dial)
    (h : ∀ source, rack.Feeds source dial.primitive → output? source = output?' source) :
    rack.effectiveBy t output? dial = rack.effectiveBy t output?' dial :=
  sumOutputs_congr fun source hsource => h source ⟨.dial dial, rfl, hsource⟩

/-- The output of a primitive depends on the outputs of what feeds it only. -/
theorem outputBy_congr {id : PrimitiveId}
    (h : ∀ source, rack.Feeds source id → output? source = output?' source) :
    rack.outputBy t output? id = rack.outputBy t output?' id := by
  have hinput : sumOutputs output? 0.0 (rack.inputsOf (.input id)) =
      sumOutputs output?' 0.0 (rack.inputsOf (.input id)) :=
    sumOutputs_congr fun source hsource => h source ⟨.input id, rfl, hsource⟩
  unfold outputBy
  rw [hinput, effectiveBy_congr ⟨id, .offset⟩ h, effectiveBy_congr ⟨id, .gain⟩ h]

end

/-! ## The depth is enough -/

open Classical in
/-- The primitives from which wires lead to a primitive, over others or not. -/
noncomputable def feeders (rack : Rack α) (id : PrimitiveId) : Finset PrimitiveId :=
  (Finset.range rack.primitives.size).filter (TransGen rack.Feeds · id)

theorem mem_feeders {source target : PrimitiveId} :
    source ∈ rack.feeders target ↔ TransGen rack.Feeds source target := by
  classical
  unfold feeders
  rw [Finset.mem_filter, Finset.mem_range, and_iff_right_iff_imp]
  intro hfeeds
  obtain ⟨next, hnext, -⟩ := TransGen.head'_iff.mp hfeeds
  exact hnext.lt_size

theorem card_feeders_le (rack : Rack α) (id : PrimitiveId) :
    (rack.feeders id).card ≤ rack.primitives.size := by
  classical
  exact (Finset.card_filter_le _ _).trans_eq (Finset.card_range _)

/-- What feeds a primitive has fewer feeders, as it is none of its own. -/
theorem Rising.card_feeders_lt (h : rack.Rising height) {source target : PrimitiveId}
    (hfeeds : rack.Feeds source target) :
    (rack.feeders source).card < (rack.feeders target).card := by
  refine Finset.card_lt_card ((Finset.ssubset_iff_of_subset fun id hid => ?_).mpr
    ⟨source, mem_feeders.mpr (.single hfeeds), fun hmem => h.acyclic source (mem_feeders.mp hmem)⟩)
  exact mem_feeders.mpr ((mem_feeders.mp hid).tail hfeeds)

variable [Scalar α] {t : α}

/-- Looking further than there are feeders finds nothing else. -/
theorem Rising.outputWithin_succ_eq (h : rack.Rising height) {depth : Nat} {id : PrimitiveId}
    (hdepth : (rack.feeders id).card < depth) :
    rack.outputWithin t (depth + 1) id = rack.outputWithin t depth id := by
  induction depth generalizing id with
  | zero => exact absurd hdepth (Nat.not_lt_zero _)
  | succ depth ih =>
    rw [outputWithin_succ, outputWithin_succ]
    refine outputBy_congr fun source hsource => ih ?_
    exact Nat.lt_of_lt_of_le (h.card_feeders_lt hsource) (Nat.le_of_lt_succ hdepth)

/-- The output of a primitive is what the outputs of its feeders make of it. -/
theorem Rising.outputAt_eq (h : rack.Rising height) (id : PrimitiveId) :
    rack.outputAt id t = rack.outputBy t (rack.outputAt · t) id :=
  (h.outputWithin_succ_eq (Nat.lt_succ_of_le (rack.card_feeders_le id))).symm

/-- Nothing else agrees with the feeders of every primitive. -/
theorem Rising.eq_outputAt (h : rack.Rising height) {output? : PrimitiveId → Option α}
    (houtput : ∀ id, output? id = rack.outputBy t output? id) (id : PrimitiveId) :
    output? id = rack.outputAt id t := by
  induction id using h.wellFounded.induction with
  | _ id ih =>
    rw [houtput, h.outputAt_eq]
    exact outputBy_congr ih

end Patchbay.Rack
