import Patchbay.Proofs.Timeline.Order
/-!
# Holding a value

To hold the value reached at some time drops every point from then on, so the value stays where it
was at that time. It can change before that time too: the stretch that the time falls into has lost
the point it led to, and a jump at the time of holding has come in its place. A ramp on that stretch
is gone (`Timeline.rewritten_rising`), and the value rests on the last point before; all earlier
stretches are as they were (`Timeline.valueAt_hold`).
-/

namespace Patchbay.Timeline

open Scalar (Comparable Ordered)

variable {α : Type} [Scalar α] [Scalar.Comparable α] {tl : Timeline α}

/-- Holding a value leaves the points before that time, and after these the value. -/
theorem points_holdAt (tl : Timeline α) (time now : α) :
    (tl.apply now (.hold time)).points =
      (tl.before time).points ++ [⟨.set, tl.valueAt time, time, now⟩] := by
  refine insertPoint_eq_append fun q hq => ?_
  have hearlier : q.time < time := of_decide_eq_true (List.mem_filter.mp hq).2
  exact Ordered.not_lt_of_le (Comparable.le_of_lt hearlier)

/-- From the time of holding on the value is the one that was reached then. -/
theorem valueAt_held (tl : Timeline α) {time t : α} (now : α) (ht : time ≤ t) :
    (tl.apply now (.hold time)).valueAt t = tl.valueAt time := by
  have hpast : (tl.before time).Past t := fun q hq => by
    have hearlier : q.time < time := of_decide_eq_true (List.mem_filter.mp hq).2
    exact Ordered.le_trans (Comparable.le_of_lt hearlier) ht
  have hpoints := tl.points_holdAt time now
  rw [valueAt_of_past (past_concat hpast hpoints ht), rest_of_append hpoints]

/-- The points before a time come first. -/
theorem InOrder.split_before (h : InOrder tl.points) (time : α) :
    ∃ late, tl.points = (tl.before time).points ++ late ∧ ∀ q ∈ late, ¬q.time < time := by
  obtain ⟨early, late, hpoints, hearly, hlate⟩ :=
    h.exists_split (· < time) Comparable.lt_of_le_of_lt
  have hbefore : (tl.before time).points = early := by
    show tl.points.filter (fun q => decide (q.time < time)) = early
    rw [hpoints, List.filter_append, List.filter_eq_self.mpr fun q hq => by simpa using hearly q hq,
      List.filter_eq_nil_iff.mpr fun q hq => by simpa using hlate q hq, List.append_nil]
  exact ⟨late, hbefore ▸ hpoints, hlate⟩

/-- A stretch that ends before the time of holding is as it was. -/
theorem InOrder.valueAt_of_between (h : InOrder tl.points) {time t : α} (now : α) {p : Point α}
    (hp : p ∈ tl.points) (htp : t < p.time) (hptime : p.time < time) :
    (tl.apply now (.hold time)).valueAt t = tl.valueAt t := by
  obtain ⟨passed, ahead, hsplit, hpassed, hahead⟩ := h.split_at t
  have hpahead : p ∈ ahead := by
    rcases List.mem_append.mp (hsplit ▸ hp) with hmem | hmem
    · exact absurd htp (Ordered.not_lt_of_le (hpassed p hmem))
    · exact hmem
  -- both timelines lead through the same points to the first that lies ahead
  obtain ⟨first, later, rfl⟩ := List.exists_cons_of_ne_nil (List.ne_nil_of_mem hpahead)
  have hmem : ∀ q ∈ passed ++ first :: later, (q.time == q.time) = true :=
    fun q hq => h.timed q (hsplit ▸ hq)
  have hkept : ∀ q ∈ passed, q.time < time := fun q hq => by
    have hq' := hmem q (List.mem_append_left _ hq)
    have hqp : q.time < p.time := Comparable.lt_of_le_of_lt hq' (hpassed q hq) htp
    exact Comparable.lt_of_le_of_lt hq' (Comparable.le_of_lt hqp) hptime
  have hearly : first.time < time := by
    rcases List.mem_cons.mp hpahead with rfl | hlater
    · exact hptime
    · have hsorted := (List.pairwise_append.mp (hsplit ▸ h.sorted)).2.1
      exact Comparable.lt_of_le_of_lt (hmem first (List.mem_append_right _ List.mem_cons_self))
        ((List.pairwise_cons.mp hsorted).1 p hlater) hptime
  have hbefore : (tl.before time).points =
      passed ++ first :: later.filter fun q => decide (q.time < time) := by
    show tl.points.filter (fun q => decide (q.time < time)) = _
    rw [hsplit, List.filter_append, List.filter_cons_of_pos (by simpa using hearly),
      List.filter_eq_self.mpr fun q hq => by simpa using hkept q hq]
  have hpoints := tl.points_holdAt time now
  rw [hbefore, List.append_assoc, List.cons_append] at hpoints
  have hfirst := hahead first List.mem_cons_self
  rw [valueAt_of_ahead hpoints hpassed hfirst, valueAt_of_ahead hsplit hpassed hfirst]
  rfl

/-- When no point lies between a time and the time of holding, the points before that are passed. -/
theorem InOrder.past_before (h : InOrder tl.points) {time t : α} (ht : t < time)
    (hnone : ¬∃ p ∈ tl.points, t < p.time ∧ p.time < time) : (tl.before time).Past t := by
  intro q hq
  obtain ⟨hmem, hearly⟩ := List.mem_filter.mp hq
  rcases Comparable.le_or_lt (h.timed q hmem) (Comparable.beq_self_of_lt ht).1 with hle | hlt
  · exact hle
  · exact absurd ⟨q, hmem, hlt, of_decide_eq_true hearly⟩ hnone

/-- On the stretch that the time of holding falls into, the value rests on the last point before. -/
theorem InOrder.valueAt_of_cut (h : InOrder tl.points) {time t : α} (now : α) (ht : t < time)
    (hnone : ¬∃ p ∈ tl.points, t < p.time ∧ p.time < time) :
    (tl.apply now (.hold time)).valueAt t = (tl.before time).rest := by
  have hnot : ¬time ≤ t := fun hle => Ordered.not_lt_of_le hle ht
  rw [valueAt_of_ahead (tl.points_holdAt time now) (h.past_before ht hnone) hnot]
  exact ite_self _

/-- The value rested on that point before, too, when the stretch led to a jump or to no point. -/
theorem InOrder.valueAt_of_jump (h : InOrder tl.points) {time t : α} (ht : t < time)
    (hnone : ¬∃ p ∈ tl.points, t < p.time ∧ p.time < time)
    (hjump : ∀ p, (tl.points.find? fun p => !decide (p.time < time)) = some p → p.shape = .set) :
    tl.valueAt t = (tl.before time).rest := by
  obtain ⟨late, hsplit, hlate⟩ := h.split_before time
  have hpast := h.past_before ht hnone
  cases late with
  | nil =>
    have hsame : tl.before time = tl :=
      congrArg (Timeline.mk tl.initial) (hsplit.trans (List.append_nil _)).symm
    rw [hsame] at hpast ⊢
    exact valueAt_of_past hpast
  | cons p later =>
    have hplate : ¬p.time < time := hlate p List.mem_cons_self
    have hmem : p ∈ tl.points := hsplit ▸ List.mem_append_right _ List.mem_cons_self
    have hp : ¬p.time ≤ t := fun hle => hplate (Comparable.lt_of_le_of_lt (h.timed p hmem) hle ht)
    have hfound : (tl.points.find? fun p => !decide (p.time < time)) = some p := by
      have hearly : (tl.before time).points.find? (fun p => !decide (p.time < time)) = none := by
        refine List.find?_eq_none.mpr fun q hq => ?_
        simpa using (List.mem_filter.mp hq).2
      rw [hsplit, List.find?_append, hearly, Option.none_or,
        List.find?_cons_of_pos (by simpa using hplate)]
    rw [valueAt_of_ahead hsplit hpast hp, hjump p hfound]
    exact ite_self _

/-- A value is held from a time on, whatever cues were scheduled before and at whatever clocks. From
that time on the value is the one that was reached then. Before it, nothing changes on the stretches
that end before that time, and on the stretch that the time falls into the value rests on the point
at which that begins. So the past stays as it was when this stretch led to no point or to a jump. -/
theorem valueAt_hold (initial : α) {cues : List (α × Cue α)}
    (hcues : ∀ entry ∈ cues, (entry.2.time == entry.2.time) = true) (time now : α) :
    let tl := (starting initial).applyAll cues
    let held := tl.apply now (.hold time)
    (∀ t, time ≤ t → held.valueAt t = tl.valueAt time) ∧
    (∀ t, t < time → (∃ p ∈ tl.points, t < p.time ∧ p.time < time) →
      held.valueAt t = tl.valueAt t) ∧
    (∀ t, t < time → (¬∃ p ∈ tl.points, t < p.time ∧ p.time < time) →
      held.valueAt t = (tl.before time).rest) ∧
    ((∀ p, (tl.points.find? fun p => !decide (p.time < time)) = some p → p.shape = .set) →
      ∀ t, t < time → held.valueAt t = tl.valueAt t) := by
  intro tl held
  have h : InOrder tl.points := .applyAll_starting initial hcues
  refine ⟨fun t ht => tl.valueAt_held now ht, fun t _ ⟨p, hp, htp, hptime⟩ =>
    h.valueAt_of_between now hp htp hptime, fun t ht hnone => h.valueAt_of_cut now ht hnone,
    fun hjump t ht => ?_⟩
  by_cases hbetween : ∃ p ∈ tl.points, t < p.time ∧ p.time < time
  · obtain ⟨p, hp, htp, hptime⟩ := hbetween
    exact h.valueAt_of_between now hp htp hptime
  · exact (h.valueAt_of_cut now ht hbetween).trans (h.valueAt_of_jump ht hbetween hjump).symm

/-! ## A ramp that is cut -/

/-- A ramp from zero at the start to one a second later. -/
noncomputable def rising : Timeline Reals :=
  (starting 0.0).applyAll [(0.0, .set 0.0 0.0), (0.0, .linear 1.0 1.0)]

theorem points_rising :
    rising.points = [⟨.set, 0.0, 0.0, 0.0⟩] ++ [⟨.linear, 1.0, 1.0, 0.0⟩] :=
  if_neg (show ¬(1.0 : ℝ) < 0.0 by norm_num)

theorem before_rising : (rising.before 0.5).points = [⟨.set, 0.0, 0.0, 0.0⟩] := by
  have hkept : decide ((0.0 : Reals) < 0.5) = true :=
    decide_eq_true (show (0.0 : ℝ) < 0.5 by norm_num)
  have hdropped : decide ((1.0 : Reals) < 0.5) = false :=
    decide_eq_false (show ¬(1.0 : ℝ) < 0.5 by norm_num)
  unfold before
  rw [points_rising]
  simp [hkept, hdropped]

theorem passed_rising : ∀ q ∈ [(⟨.set, 0.0, 0.0, 0.0⟩ : Point Reals)], q.time ≤ 0.25 :=
  List.forall_mem_singleton.mpr (show (0.0 : ℝ) ≤ 0.25 by norm_num)

/-- A quarter of a second in it is a quarter up. -/
theorem valueAt_rising : rising.valueAt 0.25 = (0.25 : ℝ) := by
  rw [valueAt_of_ahead points_rising passed_rising (show ¬(1.0 : ℝ) ≤ 0.25 by norm_num)]
  refine (if_neg (show ¬((0.25 : ℝ) < 0.0 ∨ (1.0 : ℝ) ≤ 0.0) by norm_num)).trans ?_
  show (0.0 : ℝ) + (1.0 - 0.0) * ((0.25 - 0.0) / (1.0 - 0.0)) = 0.25
  norm_num

/-- Held half-way up, it stays half-way up, but a quarter of a second in it is at zero. -/
theorem held_rising :
    (rising.apply 0.5 (.hold 0.5)).valueAt 2.0 = rising.valueAt 0.5 ∧
      (rising.apply 0.5 (.hold 0.5)).valueAt 0.25 = 0.0 := by
  obtain ⟨hafter, -, hcut, -⟩ := @valueAt_hold Reals _ _ 0.0
    [(0.0, .set 0.0 0.0), (0.0, .linear 1.0 1.0)] (fun _ _ => Scalar.Exact.beq_iff.mpr rfl) 0.5 0.5
  have hnone : ¬∃ p ∈ rising.points, (0.25 : Reals) < p.time ∧ p.time < 0.5 := by
    rw [points_rising]
    rintro ⟨p, hp, hlow, hhigh⟩
    rcases List.mem_cons.mp hp with rfl | hp
    · exact absurd hlow (show ¬(0.25 : ℝ) < 0.0 by norm_num)
    · rw [List.mem_singleton.mp hp] at hhigh
      exact absurd hhigh (show ¬(1.0 : ℝ) < 0.5 by norm_num)
  refine ⟨hafter 2.0 (show (0.5 : ℝ) ≤ 2.0 by norm_num), ?_⟩
  exact (hcut 0.25 (show (0.25 : ℝ) < 0.5 by norm_num) hnone).trans
    (rest_of_append (show (rising.before 0.5).points = [] ++ [_] from before_rising))

/-- What is held later is changed a quarter of a second in. -/
theorem rewritten_rising :
    (rising.apply 0.5 (.hold 0.5)).valueAt 0.25 ≠ rising.valueAt 0.25 := by
  have hpoints := rising.points_holdAt 0.5 0.5
  rw [before_rising] at hpoints
  rw [valueAt_rising, valueAt_of_ahead hpoints passed_rising (show ¬(0.5 : ℝ) ≤ 0.25 by norm_num)]
  refine (ite_self _).trans_ne ?_
  show (0.0 : ℝ) ≠ 0.25
  norm_num

end Patchbay.Timeline
