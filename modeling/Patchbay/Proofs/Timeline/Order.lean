import Patchbay.Proofs.Comparison
import Patchbay.Proofs.Keyboard.Envelope
/-!
# Points in order

Whatever cues are scheduled, at whatever clocks, the points of a timeline stay in the order of their
times (`Timeline.InOrder.applyAll`), so at any time some points have been passed and the others lie
ahead (`Timeline.InOrder.split_at`). The value then depends on the last point passed and on the
first one ahead only (`Timeline.valueAt_of_ahead`).
-/

namespace Patchbay

variable {α : Type}

def Cue.time : Cue α → α
  | .set _ time | .linear _ time | .exponential _ time | .hold time => time

namespace Timeline

variable [Scalar α]

/-- Schedules cues one after the other, each at its own clock. -/
def applyAll (tl : Timeline α) (cues : List (α × Cue α)) : Timeline α :=
  cues.foldl (fun tl entry => tl.apply entry.1 entry.2) tl

/-- The times are numbers and none comes before a lesser one. -/
structure InOrder (points : List (Point α)) : Prop where
  timed : ∀ p ∈ points, (p.time == p.time) = true
  sorted : points.Pairwise fun p q => p.time ≤ q.time

/-! ## Following points -/

/-- When the stretch that leads to a point begins: at the point before it, or, when there is none,
at the clock when it was scheduled. -/
def departure (passed : List (Point α)) (p : Point α) : α :=
  (passed.getLast?.map (·.time)).getD (Scalar.least p.issued p.time)

/-- The value before a point depends on what was passed and on that point only. -/
theorem valueAt_of_ahead {tl : Timeline α} {t : α} {passed ahead : List (Point α)} {p : Point α}
    (hpoints : tl.points = passed ++ p :: ahead) (hpassed : ∀ q ∈ passed, q.time ≤ t)
    (hp : ¬p.time ≤ t) :
    tl.valueAt t =
      if t < departure passed p ∨ p.time ≤ departure passed p then rest ⟨tl.initial, passed⟩
      else along p.shape (rest ⟨tl.initial, passed⟩) p.value
        ((t - departure passed p) / (p.time - departure passed p)) := by
  unfold valueAt
  rw [hpoints, follow_of_passed hpassed, follow, if_neg hp, Option.or_none]
  rfl

/-- On the stretch to a point the value goes along its shape. -/
theorem follow_within [Scalar.Ordered α] {t : α} {since : Option α} {p : Point α}
    (hstart : since.getD (Scalar.least p.issued p.time) ≤ t) (hend : t < p.time) (value : α)
    (ahead : List (Point α)) :
    follow t value since (p :: ahead) = along p.shape value p.value
      ((t - since.getD (Scalar.least p.issued p.time)) /
        (p.time - since.getD (Scalar.least p.issued p.time))) := by
  have hp : ¬p.time ≤ t := fun hle => Scalar.Ordered.not_lt_of_le hle hend
  rw [follow, if_neg hp]
  refine if_neg ?_
  rintro (hlt | hle)
  · exact Scalar.Ordered.not_lt_of_le hstart hlt
  · exact hp (Scalar.Ordered.le_trans hle hstart)

/-! ## Keeping the order -/

namespace InOrder

variable {points : List (Point α)}

theorem nil : InOrder ([] : List (Point α)) := ⟨fun _ h => absurd h List.not_mem_nil, .nil⟩

theorem filter (h : InOrder points) (keep : Point α → Bool) : InOrder (points.filter keep) :=
  ⟨fun p hp => h.timed p (List.mem_filter.mp hp).1, h.sorted.filter keep⟩

theorem tail {p : Point α} (h : InOrder (p :: points)) : InOrder points :=
  ⟨fun q hq => h.timed q (List.mem_cons_of_mem _ hq), (List.pairwise_cons.mp h.sorted).2⟩

/-- The points of early times come first. -/
theorem exists_split (h : InOrder points) (early : α → Prop) [DecidablePred early]
    (hearly : ∀ {s t}, (s == s) = true → s ≤ t → early t → early s) :
    ∃ passed ahead, points = passed ++ ahead ∧ (∀ q ∈ passed, early q.time) ∧
      ∀ q ∈ ahead, ¬early q.time := by
  induction points with
  | nil => exact ⟨[], [], rfl, fun _ hq => absurd hq List.not_mem_nil,
      fun _ hq => absurd hq List.not_mem_nil⟩
  | cons p rest ih =>
    by_cases hp : early p.time
    · obtain ⟨passed, ahead, rfl, hpassed, hahead⟩ := ih h.tail
      exact ⟨p :: passed, ahead, rfl, List.forall_mem_cons.mpr ⟨hp, hpassed⟩, hahead⟩
    · have hlate : ∀ q ∈ rest, ¬early q.time := fun q hq hqearly =>
        hp (hearly (h.timed p List.mem_cons_self) ((List.pairwise_cons.mp h.sorted).1 q hq) hqearly)
      exact ⟨[], p :: rest, rfl, fun _ hq => absurd hq List.not_mem_nil,
        List.forall_mem_cons.mpr ⟨hp, hlate⟩⟩

variable [Scalar.Comparable α]

open Scalar (Comparable Ordered)

/-- At any time some points have been passed and the others lie ahead. -/
theorem split_at (h : InOrder points) (t : α) :
    ∃ passed ahead, points = passed ++ ahead ∧ (∀ q ∈ passed, q.time ≤ t) ∧
      ∀ q ∈ ahead, ¬q.time ≤ t :=
  h.exists_split (· ≤ t) fun _ hle ht => Ordered.le_trans hle ht

theorem insertPoint (h : InOrder points) {p : Point α} (hp : (p.time == p.time) = true) :
    InOrder (Timeline.insertPoint p points) := by
  obtain ⟨passed, ahead, rfl, hpassed, hahead⟩ := h.split_at p.time
  have hlater : ∀ q ∈ ahead, p.time < q.time := fun q hq =>
    Comparable.lt_of_not_le (h.timed q (List.mem_append_right _ hq)) hp (hahead q hq)
  rw [insertPoint_append (fun q hq => Ordered.not_lt_of_le (hpassed q hq)) hlater]
  obtain ⟨hearly, hlate, hcross⟩ := List.pairwise_append.mp h.sorted
  refine ⟨fun q hq => ?_, List.pairwise_append.mpr ⟨hearly, List.pairwise_cons.mpr
    ⟨fun q hq => Comparable.le_of_lt (hlater q hq), hlate⟩, fun q hq r hr => ?_⟩⟩
  · rcases List.mem_append.mp hq with hq | hq
    · exact h.timed q (List.mem_append_left _ hq)
    · rcases List.mem_cons.mp hq with rfl | hq
      · exact hp
      · exact h.timed q (List.mem_append_right _ hq)
  · rcases List.mem_cons.mp hr with rfl | hr
    · exact hpassed q hq
    · exact hcross q hq r hr

/-- A cue at a time that is a number keeps the points in order. -/
theorem apply {tl : Timeline α} (h : InOrder tl.points) (now : α) {cue : Cue α}
    (hcue : (cue.time == cue.time) = true) : InOrder (tl.apply now cue).points := by
  cases cue with
  | set | linear | exponential => exact h.insertPoint hcue
  | hold time => exact (h.filter _).insertPoint hcue

theorem applyAll {tl : Timeline α} (h : InOrder tl.points) {cues : List (α × Cue α)}
    (hcues : ∀ entry ∈ cues, (entry.2.time == entry.2.time) = true) :
    InOrder (tl.applyAll cues).points := by
  induction cues generalizing tl with
  | nil => exact h
  | cons entry cues ih =>
    exact ih (h.apply entry.1 (hcues entry List.mem_cons_self)) fun e he =>
      hcues e (List.mem_cons_of_mem _ he)

/-- Whatever cues are scheduled at times that are numbers, the points are in order. -/
theorem applyAll_starting (initial : α) {cues : List (α × Cue α)}
    (hcues : ∀ entry ∈ cues, (entry.2.time == entry.2.time) = true) :
    InOrder ((starting initial).applyAll cues).points := by
  have hstarting : InOrder (starting initial).points := .nil
  exact hstarting.applyAll hcues

/-- Where the stretch to a point has begun, everything before that point has been passed. -/
theorem passed_of_departure_le {passed ahead : List (Point α)} {p : Point α}
    (h : InOrder (passed ++ p :: ahead)) {t : α} (ht : departure passed p ≤ t) :
    ∀ q ∈ passed, q.time ≤ t := by
  rcases List.eq_nil_or_concat' passed with rfl | ⟨init, last, rfl⟩
  · exact fun q hq => absurd hq List.not_mem_nil
  · have hlast : last.time ≤ t := by simpa [departure] using ht
    have hsorted := (List.pairwise_append.mp h.sorted).1
    have hinit := (List.pairwise_append.mp hsorted).2.2
    intro q hq
    rcases List.mem_append.mp hq with hq | hq
    · exact Ordered.le_trans (hinit q hq last (List.mem_singleton_self last)) hlast
    · rw [List.mem_singleton.mp hq]
      exact hlast

/-- On the stretch to a point the value goes along its shape, from the value of the last point
before or from the initial value when there is none. -/
theorem valueAt_within {tl : Timeline α} (h : InOrder tl.points) {passed ahead : List (Point α)}
    {p : Point α} (hpoints : tl.points = passed ++ p :: ahead) {t : α}
    (hstart : departure passed p ≤ t) (hend : t < p.time) :
    tl.valueAt t = along p.shape (rest ⟨tl.initial, passed⟩) p.value
      ((t - departure passed p) / (p.time - departure passed p)) := by
  have hpassed := passed_of_departure_le (hpoints ▸ h) hstart
  unfold valueAt
  rw [hpoints, follow_of_passed hpassed, Option.or_none]
  exact follow_within hstart hend _ ahead

end InOrder

theorem initial_applyAll (tl : Timeline α) (cues : List (α × Cue α)) :
    (tl.applyAll cues).initial = tl.initial := by
  induction cues generalizing tl with
  | nil => rfl
  | cons entry cues ih =>
    refine (ih (tl.apply entry.1 entry.2)).trans ?_
    cases entry.2 <;> rfl

end Timeline

end Patchbay
