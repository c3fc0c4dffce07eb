import Patchbay.Proofs.Timeline.Holding
/-!
# Points in the order of their cues

Every cue puts one point on a timeline, and it stays there until a later cue holds a value from its
time on or from before it. What stays is listed in the order of the cues (`Timeline.lasting`). The
timeline has the same points in the order of their times, and where times are equal they are in the
order of the cues (`Timeline.Sorts`). One cue keeps this so (`Sorts.apply`), and so it holds after
any number of them (`Timeline.sorted_of_cues`).
-/

namespace Patchbay

variable {α : Type} [Scalar α]

/-- Whether a cue drops the points at a time. Only one that holds a value does, from then on. -/
def Cue.drops (time : α) : Cue α → Bool
  | .hold start => !decide (time < start)
  | .set .. | .linear .. | .exponential .. => false

namespace Timeline

open Scalar (Comparable Ordered)

/-- A point at a time. -/
def Point.isAt (t : α) (p : Point α) : Bool := decide (p.time ≤ t) && decide (t ≤ p.time)

/-- The point that a cue puts on a timeline. -/
def pointOf (tl : Timeline α) (now : α) : Cue α → Point α
  | .set value time => ⟨.set, value, time, now⟩
  | .linear value time => ⟨.linear, value, time, now⟩
  | .exponential value time => ⟨.exponential, value, time, now⟩
  | .hold time => ⟨.set, tl.valueAt time, time, now⟩

/-- The points of some cues that none of the cues after them drops, in the order of the cues. -/
def lasting (tl : Timeline α) : List (α × Cue α) → List (Point α)
  | [] => []
  | (now, cue) :: cues =>
    let p := tl.pointOf now cue
    let kept := if cues.any (·.2.drops p.time) then [] else [p]
    kept ++ lasting (tl.apply now cue) cues

/-- The points of a log in the order of their times. Points at the same time are in the order of the
log. -/
structure Sorts (points log : List (Point α)) : Prop where
  inOrder : InOrder points
  perm : points.Perm log
  stable : ∀ t, points.filter (·.isAt t) = log.filter (·.isAt t)

theorem time_pointOf (tl : Timeline α) (now : α) (cue : Cue α) :
    (tl.pointOf now cue).time = cue.time := by
  cases cue <;> rfl

/-- A cue drops points and puts its own. -/
theorem points_apply (tl : Timeline α) (now : α) (cue : Cue α) :
    (tl.apply now cue).points = insertPoint (tl.pointOf now cue)
      (tl.points.filter fun p => !cue.drops p.time) := by
  cases cue with
  | hold time =>
    show insertPoint _ (tl.points.filter fun p => decide (p.time < time)) = _
    simp only [Cue.drops, Bool.not_not]
    rfl
  | set | linear | exponential =>
    simp only [Cue.drops, Bool.not_false, List.filter_true]
    rfl

namespace Sorts

variable {points log : List (Point α)}

theorem nil : Sorts ([] : List (Point α)) [] := ⟨.nil, .nil, fun _ => rfl⟩

theorem filter (h : Sorts points log) (keep : Point α → Bool) :
    Sorts (points.filter keep) (log.filter keep) where
  inOrder := h.inOrder.filter keep
  perm := h.perm.filter keep
  stable t := by
    rw [List.filter_comm, h.stable t, List.filter_comm]

variable [Comparable α]

/-- A point that is put behind all that are not later comes last in the log. -/
theorem insertPoint (h : Sorts points log) {p : Point α} (hp : (p.time == p.time) = true) :
    Sorts (Timeline.insertPoint p points) (log ++ [p]) := by
  obtain ⟨passed, ahead, rfl, hpassed, hahead⟩ := h.inOrder.split_at p.time
  have hlater : ∀ q ∈ ahead, p.time < q.time := fun q hq =>
    Comparable.lt_of_not_le (h.inOrder.timed q (List.mem_append_right _ hq)) hp (hahead q hq)
  have hinserted := insertPoint_append (fun q hq => Ordered.not_lt_of_le (hpassed q hq)) hlater
  refine ⟨h.inOrder.insertPoint hp, ?_, fun t => ?_⟩
  · rw [hinserted]
    exact List.perm_middle.trans ((h.perm.cons p).trans (List.perm_append_singleton p log).symm)
  · rw [hinserted, List.filter_append, List.filter_append, ← h.stable t, List.filter_append,
      List.filter_cons]
    cases hat : p.isAt t with
    | false => simp [hat]
    | true =>
      -- what lies ahead is later than the point, so it is at no time at which the point is
      have hnone : ahead.filter (·.isAt t) = [] := List.filter_eq_nil_iff.mpr fun q hq hqt => by
        simp only [Point.isAt, Bool.and_eq_true, decide_eq_true_eq] at hat hqt
        exact hahead q hq (Ordered.le_trans hqt.1 hat.2)
      simp [hat, hnone]

/-- A cue drops points from the log, and its own point comes last. -/
theorem apply {tl : Timeline α} (h : Sorts tl.points log) (now : α) {cue : Cue α}
    (hcue : (cue.time == cue.time) = true) :
    Sorts (tl.apply now cue).points
      ((log.filter fun p => !cue.drops p.time) ++ [tl.pointOf now cue]) := by
  rw [points_apply]
  exact (h.filter _).insertPoint ((tl.time_pointOf now cue).symm ▸ hcue)

/-- After some cues the log holds what none of them dropped, and then what is left of theirs. -/
theorem applyAll {tl : Timeline α} (h : Sorts tl.points log) {cues : List (α × Cue α)}
    (hcues : ∀ entry ∈ cues, (entry.2.time == entry.2.time) = true) :
    Sorts (tl.applyAll cues).points
      ((log.filter fun p => !cues.any (·.2.drops p.time)) ++ tl.lasting cues) := by
  induction cues generalizing tl log with
  | nil => simpa [Timeline.applyAll, lasting] using h
  | cons entry cues ih =>
    obtain ⟨now, cue⟩ := entry
    have hrest := ih (h.apply now (hcues _ List.mem_cons_self)) fun e he =>
      hcues e (List.mem_cons_of_mem _ he)
    have hlog : (((log.filter fun p => !cue.drops p.time) ++ [tl.pointOf now cue]).filter
          fun p => !cues.any (·.2.drops p.time)) ++ (tl.apply now cue).lasting cues =
        (log.filter fun p => !((now, cue) :: cues).any (·.2.drops p.time)) ++
          tl.lasting ((now, cue) :: cues) := by
      rw [List.filter_append, List.filter_filter, List.append_assoc, lasting, List.filter_singleton]
      simp only [List.any_cons, Bool.not_or, Bool.and_comm]
      cases cues.any (·.2.drops (tl.pointOf now cue).time) <;> rfl
    exact hlog ▸ hrest

end Sorts

/-- Cues are scheduled at times that are numbers, whatever else they are and whenever they are
issued. The points are in the order of their times, those at the same time are in the order of their
cues, and none is missing or there twice: they are the points of all cues but those at or after the
time of a later cue that holds a value. Such a cue leaves the points before its time where they are,
drops all others, and puts one jump at its time. -/
theorem sorted_of_cues [Comparable α] (initial : α) {cues : List (α × Cue α)}
    (hcues : ∀ entry ∈ cues, (entry.2.time == entry.2.time) = true) :
    let tl := (starting initial).applyAll cues
    let log := (starting initial).lasting cues
    (tl.points.Pairwise fun p q => p.time ≤ q.time) ∧
    (∀ t, tl.points.filter (·.isAt t) = log.filter (·.isAt t)) ∧
    tl.points.Perm log ∧
    ∀ now time, ∃ early late, tl.points = early ++ late ∧ (∀ p ∈ early, p.time < time) ∧
      (∀ p ∈ late, ¬p.time < time) ∧
      (tl.apply now (.hold time)).points = early ++ [⟨.set, tl.valueAt time, time, now⟩] := by
  intro tl log
  have hstarting : Sorts (starting initial).points [] := .nil
  obtain ⟨hinOrder, hperm, hstable⟩ : Sorts tl.points log := hstarting.applyAll hcues
  refine ⟨hinOrder.sorted, hstable, hperm, fun now time => ?_⟩
  obtain ⟨late, hsplit, hlate⟩ := hinOrder.split_before time
  refine ⟨(tl.before time).points, late, hsplit, fun p hp => ?_, hlate, tl.points_holdAt time now⟩
  exact of_decide_eq_true (List.mem_filter.mp hp).2

/-- A ramp is cut half-way, after two jumps at its start, and then overtaken by an earlier jump. -/
def overtaken : List (Float × Cue Float) :=
  [(0.0, .set 1.0 1.0), (0.0, .linear 3.0 2.0), (0.0, .set 2.0 1.0), (1.5, .hold 1.5),
    (1.5, .set 5.0 0.5)]

theorem sorted_overtaken :
    (∀ entry ∈ overtaken, (entry.2.time == entry.2.time) = true) ∧
    ((starting 0.0).applyAll overtaken).points.Perm [⟨.set, 1.0, 1.0, 0.0⟩, ⟨.set, 2.0, 1.0, 0.0⟩,
      ⟨.set, 2.5, 1.5, 1.5⟩, ⟨.set, 5.0, 0.5, 1.5⟩] ∧
    ((starting 0.0).applyAll overtaken).points.filter (·.isAt 1.0) =
      [⟨.set, 1.0, 1.0, 0.0⟩, ⟨.set, 2.0, 1.0, 0.0⟩] := by
  have htimed : ∀ entry ∈ overtaken, (entry.2.time == entry.2.time) = true := by decide
  obtain ⟨-, hstable, hperm, -⟩ := sorted_of_cues 0.0 htimed
  exact ⟨htimed, hperm, hstable 1.0⟩

end Timeline

end Patchbay
