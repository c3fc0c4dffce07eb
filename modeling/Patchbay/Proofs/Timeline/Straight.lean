import Patchbay.Proofs.Timeline.Order
/-!
# Straight ramps

A ramp holds the value that a parameter has and leads from there to another one in a straight line.
What is left of earlier ramps is not taken out: a point on the way is met first, and a point behind
the target is led on to. So the ramp goes straight just when nothing is left on its way, and stays
at its target just when nothing is left behind that (`Rack.valueAt_rampTo_iff`). One that begins
half-way of another first goes where that one leads (`Rack.bent_lowering`).
-/

namespace Patchbay

open Scalar (Exact)

variable {α : Type} [Scalar α]

/-! ## Ramps in a timeline -/

namespace Timeline

/-- The points that have been passed, those that are left until another time, and those behind it.
-/
structure Cut (tl : Timeline α) (now stop : α) (passed between later : List (Point α)) : Prop where
  points : tl.points = passed ++ (between ++ later)
  passed : ∀ q ∈ passed, q.time ≤ now
  between : ∀ q ∈ between, now < q.time ∧ q.time ≤ stop
  later : ∀ q ∈ later, stop < q.time

variable [Exact α]

theorem InOrder.exists_cut {tl : Timeline α} (h : InOrder tl.points) (now stop : α) :
    ∃ passed between later, tl.Cut now stop passed between later := by
  obtain ⟨passed, ahead, hpoints, hpassed, hahead⟩ := h.split_at now
  have horder : InOrder ahead :=
    ⟨fun q hq => h.timed q (hpoints ▸ List.mem_append_right _ hq),
      (List.pairwise_append.mp (hpoints ▸ h.sorted)).2.1⟩
  obtain ⟨between, later, rfl, hbetween, hlater⟩ := horder.split_at stop
  refine ⟨passed, between, later, hpoints, hpassed, fun q hq => ⟨?_, hbetween q hq⟩, fun q hq => ?_⟩
  · exact Exact.not_le_iff.mp (hahead q (List.mem_append_left _ hq))
  · exact Exact.not_le_iff.mp (hlater q hq)

namespace Cut

variable {tl : Timeline α} {now stop t : α} {passed between later : List (Point α)}

/-- What is left on the way stays between the ends of the ramp, and what is left behind it stays
there. -/
theorem points_ramp (c : tl.Cut now stop passed between later) (hstop : now < stop) (value : α) :
    (tl.ramp now value stop).points = passed ++ ⟨.set, tl.valueAt now, now, now⟩ ::
      (between ++ ⟨.linear, value, stop, now⟩ :: later) := by
  have hset : (tl.apply now (.set (tl.valueAt now) now)).points =
      passed ++ ⟨.set, tl.valueAt now, now, now⟩ :: (between ++ later) := by
    refine (congrArg _ c.points).trans (insertPoint_append (fun q hq => ?_) fun q hq => ?_)
    · exact Exact.not_lt_iff.mpr (c.passed q hq)
    · rcases List.mem_append.mp hq with hq | hq
      · exact (c.between q hq).1
      · exact Exact.lt_of_lt_of_le hstop (Exact.le_of_lt (c.later q hq))
  -- the point at the end of the ramp comes after all that are left on its way
  have hearly : ∀ q ∈ passed ++ ⟨.set, tl.valueAt now, now, now⟩ :: between, q.time ≤ stop := by
    refine List.forall_mem_append.mpr ⟨fun q hq => ?_, List.forall_mem_cons.mpr
      ⟨Exact.le_of_lt hstop, fun q hq => (c.between q hq).2⟩⟩
    exact Scalar.Ordered.le_trans (c.passed q hq) (Exact.le_of_lt hstop)
  have hlinear := insertPoint_append (p := ⟨.linear, value, stop, now⟩)
    (fun q hq => Exact.not_lt_iff.mpr (hearly q hq)) c.later
  rw [List.append_assoc, List.cons_append, List.append_assoc, List.cons_append] at hlinear
  exact (congrArg _ hset).trans hlinear

/-- From the beginning of a ramp on the value follows from the one held there, through what is left.
-/
theorem valueAt_ramp (c : tl.Cut now stop passed between later) (hstop : now < stop) (ht : now ≤ t)
    (value : α) : (tl.ramp now value stop).valueAt t =
      follow t (tl.valueAt now) (some now) (between ++ ⟨.linear, value, stop, now⟩ :: later) := by
  have hpassed : ∀ q ∈ passed, q.time ≤ t := fun q hq =>
    Scalar.Ordered.le_trans (c.passed q hq) ht
  unfold valueAt
  rw [c.points_ramp hstop, follow_append hpassed ht]
  rfl

/-- A ramp with nothing on its way goes straight. -/
theorem valueAt_ramp_straight (c : tl.Cut now stop passed [] later) (hnow : now ≤ t)
    (hstop : t < stop) (value : α) : (tl.ramp now value stop).valueAt t =
      tl.valueAt now + (value - tl.valueAt now) * ((t - now) / (stop - now)) := by
  have hlong : now < stop := Exact.lt_iff.mpr
    ((Exact.le_iff.mp hnow).trans_lt (Exact.lt_iff.mp hstop))
  rw [c.valueAt_ramp hlong hnow]
  exact follow_within hnow hstop _ later

/-- A ramp with nothing behind it stays at its target. -/
theorem valueAt_ramp_arrived (c : tl.Cut now stop passed between []) (hstop : now < stop)
    (ht : stop ≤ t) (value : α) : (tl.ramp now value stop).valueAt t = value := by
  have hpassed : ∀ q ∈ between, q.time ≤ t := fun q hq =>
    Scalar.Ordered.le_trans (c.between q hq).2 ht
  rw [c.valueAt_ramp hstop (Scalar.Ordered.le_trans (Exact.le_of_lt hstop) ht),
    follow_append hpassed ht]
  rfl

/-- Before the first point on its way a ramp leads to that point, whatever its target. -/
theorem valueAt_ramp_bent {p : Point α} (c : tl.Cut now stop passed (p :: between) later)
    (hnow : now ≤ t) (ht : t < p.time) (value : α) : (tl.ramp now value stop).valueAt t =
      along p.shape (tl.valueAt now) p.value ((t - now) / (p.time - now)) := by
  obtain ⟨hafter, hbefore⟩ := c.between p List.mem_cons_self
  rw [c.valueAt_ramp (Exact.lt_of_lt_of_le hafter hbefore) hnow]
  exact follow_within hnow ht _ _

/-- At the first point behind it the value is what the points at that time lead to, whatever the
target. -/
theorem valueAt_ramp_led {p : Point α} (c : tl.Cut now stop passed between (p :: later))
    (hstop : now < stop) (value : α) :
    (tl.ramp now value stop).valueAt p.time = follow p.time p.value (some p.time) later := by
  have hp : stop < p.time := c.later p List.mem_cons_self
  have hpassed : ∀ q ∈ between ++ [⟨.linear, value, stop, now⟩], q.time ≤ p.time := by
    refine List.forall_mem_append.mpr ⟨fun q hq => ?_,
      List.forall_mem_singleton.mpr (Exact.le_of_lt hp)⟩
    exact Scalar.Ordered.le_trans (c.between q hq).2 (Exact.le_of_lt hp)
  rw [c.valueAt_ramp hstop (Exact.le_of_lt (Exact.lt_of_lt_of_le hstop (Exact.le_of_lt hp))),
    List.append_cons, follow_append hpassed (Exact.le_refl _)]

end Cut

variable {tl : Timeline α} {now duration : α}

/-- Ramps go straight, whatever their target, just when no point is left on the way. -/
theorem InOrder.ramp_straight_iff (h : InOrder tl.points) (hduration : (0.0 : α) < duration) :
    (∀ value t, now ≤ t → t < now + duration →
      Exact.toReal ((tl.ramp now value (now + duration)).valueAt t) =
        Exact.toReal (tl.valueAt now) +
          (Exact.toReal value - Exact.toReal (tl.valueAt now)) *
            ((Exact.toReal t - Exact.toReal now) / Exact.toReal duration)) ↔
      ∀ p ∈ tl.points, p.time ≤ now ∨ now + duration < p.time := by
  obtain ⟨passed, between, later, c⟩ := h.exists_cut now (now + duration)
  cases between with
  | nil =>
    refine iff_of_true (fun value t hnow hstop => ?_) fun p hp => ?_
    · rw [c.valueAt_ramp_straight hnow hstop]
      simp only [Exact.toReal_add, Exact.toReal_sub, Exact.toReal_mul, Exact.toReal_div,
        add_sub_cancel_left]
    · rcases List.mem_append.mp (c.points ▸ hp) with hp | hp
      · exact .inl (c.passed p hp)
      · exact .inr (c.later p hp)
  | cons p between =>
    obtain ⟨hafter, hbefore⟩ := c.between p List.mem_cons_self
    refine iff_of_false (fun hstraight => ?_) fun hclear => ?_
    · obtain ⟨t, hnow, ht⟩ := Exact.exists_between hafter
      -- on the way to the point that is left the value is the same for every target
      have hline (value : α) :=
        hstraight value t (Exact.le_of_lt hnow) (Exact.lt_of_lt_of_le ht hbefore)
      simp only [c.valueAt_ramp_bent (Exact.le_of_lt hnow) ht] at hline
      have hsame := (hline 0.0).symm.trans (hline 1.0)
      rw [Exact.toReal_zero, Exact.toReal_one] at hsame
      have hpart : 0 < (Exact.toReal t - Exact.toReal now) / Exact.toReal duration :=
        div_pos (sub_pos.mpr (Exact.lt_iff.mp hnow)) (Exact.pos_iff.mp hduration)
      linarith
    · rcases hclear p (c.points ▸ by simp) with hle | hlt
      · exact Exact.not_lt_iff.mpr hle hafter
      · exact Exact.not_lt_iff.mpr hbefore hlt

/-- Ramps stay at their target, whatever it is, just when no point is left behind it. -/
theorem InOrder.ramp_arrived_iff (h : InOrder tl.points) (hduration : (0.0 : α) < duration) :
    (∀ value t, now + duration ≤ t → (tl.ramp now value (now + duration)).valueAt t = value) ↔
      ∀ p ∈ tl.points, p.time ≤ now + duration := by
  obtain ⟨passed, between, later, c⟩ := h.exists_cut now (now + duration)
  have hstop : now < now + duration := Exact.lt_add hduration
  cases later with
  | nil =>
    refine iff_of_true (fun value t ht => c.valueAt_ramp_arrived hstop ht value) fun p hp => ?_
    rcases List.mem_append.mp (c.points ▸ hp) with hp | hp
    · exact Scalar.Ordered.le_trans (c.passed p hp) (Exact.le_of_lt hstop)
    · exact (c.between p (by simpa using hp)).2
  | cons p later =>
    have hp : now + duration < p.time := c.later p List.mem_cons_self
    refine iff_of_false (fun harrived => ?_) fun hclear =>
      Exact.not_lt_iff.mpr (hclear p (c.points ▸ by simp)) hp
    -- at the first point behind it the value is the same for every target
    have hvalue (value : α) := harrived value p.time (Exact.le_of_lt hp)
    simp only [c.valueAt_ramp_led hstop] at hvalue
    have hsame : Exact.toReal (0.0 : α) = Exact.toReal (1.0 : α) :=
      congrArg Exact.toReal ((hvalue 0.0).symm.trans (hvalue 1.0))
    rw [Exact.toReal_zero, Exact.toReal_one] at hsame
    exact zero_ne_one hsame

end Timeline

/-! ## Ramps in a rack -/

namespace Rack

/-- What can be done to a rack, call by call. -/
inductive Change (α : Type) where
  | refuse (family : Family)
  | accept (family : Family)
  | advanceTo (time : α)
  | advanceBy (seconds : α)
  | setRunning (running : Bool)
  | create (setup : Setup α)
  | connect (source : PrimitiveId) (inlet : Inlet)
  | release (id : PrimitiveId)
  | schedule (dial : Dial) (cue : Cue α)
  | setValue (dial : Dial) (value : α)
  | rampTo (dial : Dial) (value duration : α)
  | start (id : PrimitiveId) (time : α)
  | stop (id : PrimitiveId) (time : α)

/-- The rack after a change. What is refused is not created. -/
def change (rack : Rack α) : Change α → Rack α
  | .refuse family => rack.refuse family
  | .accept family => rack.accept family
  | .advanceTo time => rack.advanceTo time
  | .advanceBy seconds => rack.advanceBy seconds
  | .setRunning running => rack.setRunning running
  | .create setup =>
    match rack.create setup with
    | .ok (_, rack') => rack'
    | .error _ => rack
  | .connect source inlet => rack.connect source inlet
  | .release id => rack.release id
  | .schedule dial cue => rack.schedule dial cue
  | .setValue dial value => rack.setValue dial value
  | .rampTo dial value duration => rack.rampTo dial value duration
  | .start id time => rack.start id time
  | .stop id time => rack.stop id time

def changeAll (rack : Rack α) (changes : List (Change α)) : Rack α := changes.foldl change rack

/-- In the course of every parameter the points are in order. -/
def InOrder (rack : Rack α) : Prop :=
  ∀ dial, ∀ tl ∈ rack.timeline? dial, Timeline.InOrder tl.points

variable {rack rack' : Rack α}

theorem inOrder_new (sampleRate : α) : (new sampleRate).InOrder := by
  intro dial tl htl
  cases htl

theorem InOrder.of_timeline? (h : rack.InOrder)
    (hsame : ∀ dial, rack'.timeline? dial = rack.timeline? dial) : rack'.InOrder :=
  fun dial tl htl => h dial tl (hsame dial ▸ htl)

theorem InOrder.add (h : rack.InOrder) (setup : Setup α) : (rack.add setup).InOrder := by
  intro dial tl htl
  rw [timeline?_add] at htl
  split at htl
  next =>
    rw [Primitive.points_new htl]
    exact .nil
  next => exact h dial tl htl

variable [Exact α]

theorem InOrder.schedule (h : rack.InOrder) (dial : Dial) (cue : Cue α) :
    (rack.schedule dial cue).InOrder := by
  intro other tl htl
  rcases eq_or_ne other dial with rfl | hother
  · rw [timeline?_schedule] at htl
    obtain ⟨before, hbefore, rfl⟩ := Option.map_eq_some_iff.mp htl
    exact (h other before hbefore).apply rack.clock (Exact.beq_iff.mpr rfl)
  · rw [timeline?_schedule_of_ne _ hother] at htl
    exact h other tl htl

/-- No change brings points out of order. -/
theorem InOrder.change (h : rack.InOrder) (c : Change α) : (rack.change c).InOrder := by
  cases c with
  | refuse family =>
    show (rack.refuse family).InOrder
    unfold refuse
    split
    next => exact h
    next => exact h.of_timeline? fun _ => rfl
  | accept | advanceTo | advanceBy | setRunning => exact h.of_timeline? fun _ => rfl
  | create setup =>
    unfold Rack.change
    dsimp only
    split
    next hcreated =>
      obtain ⟨-, -, rfl⟩ := create_eq_ok.mp hcreated
      exact h.add setup
    next => exact h
  | connect source inlet => exact h.of_timeline? (rack.timeline?_connect source inlet)
  | release | start | stop =>
    refine h.of_timeline? (timeline?_update _ _ ?_)
    exact fun _ => rfl
  | schedule dial cue => exact h.schedule dial cue
  | setValue dial value => exact h.schedule dial _
  | rampTo dial value duration => exact (h.schedule dial _).schedule dial _

theorem InOrder.changeAll (h : rack.InOrder) (changes : List (Change α)) :
    (rack.changeAll changes).InOrder := by
  induction changes generalizing rack with
  | nil => exact h
  | cons c changes ih => exact ih (h.change c)

/-- A parameter is moved, in a rack that any changes have led to. From now on it goes in a straight
line from the value it has to any target just when no point is left that lies ahead and not behind
the end of the ramp, and from that end on it stays at any target just when no point is left behind
it. -/
theorem valueAt_rampTo_iff (sampleRate : α) (changes : List (Change α)) {dial : Dial}
    {tl : Timeline α}
    (htl : ((new sampleRate).changeAll changes).timeline? dial = some tl) {duration : α}
    (hduration : (0.0 : α) < duration) :
    let rack := (new sampleRate).changeAll changes
    let now := rack.clock
    let held := Exact.toReal (rack.valueNow dial)
    ((∀ value t, now ≤ t → t < now + duration →
        Exact.toReal ((rack.rampTo dial value duration).valueAt dial t) =
          held + (Exact.toReal value - held) *
            ((Exact.toReal t - Exact.toReal now) / Exact.toReal duration)) ↔
      ∀ p ∈ tl.points, p.time ≤ now ∨ now + duration < p.time) ∧
    ((∀ value t, now + duration ≤ t →
        (rack.rampTo dial value duration).valueAt dial t = value) ↔
      ∀ p ∈ tl.points, p.time ≤ now + duration) := by
  intro rack now held
  have h : Timeline.InOrder tl.points :=
    (inOrder_new sampleRate).changeAll changes dial tl htl
  have hheld : held = Exact.toReal (tl.valueAt now) :=
    congrArg Exact.toReal (valueAt_of_timeline? htl now)
  have hramp (value : α) := valueAt_of_timeline? (timeline?_rampTo (h := htl) value duration)
  rw [hheld]
  simp only [rack, hramp]
  exact ⟨h.ramp_straight_iff hduration, h.ramp_arrived_iff hduration⟩

/-! ## A ramp that begins on another one -/

/-- The level of the first primitive. -/
def firstLevel : Dial := ⟨0, .gain⟩

/-- A gain half-way down from one to zero. -/
noncomputable def lowering : Rack Reals :=
  (new 48000.0).changeAll [.create (.gain 1.0), .rampTo firstLevel 0.0 1.0, .advanceTo 0.5]

/-- The course of its level, which ends at zero. -/
noncomputable def lowered : Timeline Reals :=
  ⟨1.0, [⟨.set, 1.0, 0.0, 0.0⟩, ⟨.linear, 0.0, 0.0 + 1.0, 0.0⟩]⟩

theorem timeline?_lowering : lowering.timeline? firstLevel = some lowered := by
  have hnew : ((new (48000.0 : Reals)).add (.gain 1.0)).timeline? firstLevel =
      some (.starting 1.0) := rfl
  have hramp := timeline?_rampTo hnew 0.0 1.0
  have hpoints : (Timeline.starting (1.0 : Reals)).ramp 0.0 0.0 (0.0 + 1.0) = lowered :=
    congrArg (Timeline.mk 1.0) (if_neg (show ¬(0.0 + 1.0 : ℝ) < 0.0 by norm_num))
  exact hramp.trans (congrArg some hpoints)

theorem clock_lowering : lowering.clock = 0.5 :=
  (if_pos (Exact.beq_iff.mpr rfl)).trans (if_pos (show (0.0 : ℝ) < 0.5 by norm_num))

/-- Moved back to one within a second, it is there another half a second later. -/
theorem arrived_lowering :
    (lowering.rampTo firstLevel 1.0 1.0).valueAt firstLevel 2.0 = 1.0 := by
  obtain ⟨-, harrived⟩ := valueAt_rampTo_iff (48000.0 : Reals)
    [.create (.gain 1.0), .rampTo firstLevel 0.0 1.0, .advanceTo 0.5] timeline?_lowering
    (show (0.0 : ℝ) < 1.0 by norm_num)
  have hend : lowering.clock + 1.0 = (1.5 : ℝ) := by
    rw [clock_lowering]
    show (0.5 : ℝ) + 1.0 = 1.5
    norm_num
  refine harrived.mpr (fun p hp => ?_) 1.0 2.0 (hend.trans_le ?_)
  · refine Exact.le_iff.mpr (le_of_le_of_eq ?_ hend.symm)
    rcases List.mem_cons.mp hp with rfl | hp
    · exact show (0.0 : ℝ) ≤ 1.5 by norm_num
    · rw [List.mem_singleton.mp hp]
      exact show (0.0 + 1.0 : ℝ) ≤ 1.5 by norm_num
  · exact show (1.5 : ℝ) ≤ 2.0 by norm_num

/-- The points on its way are passed, left half-way, and gone behind it. -/
theorem cut_lowered : lowered.Cut 0.5 (0.5 + 1.0) [⟨.set, 1.0, 0.0, 0.0⟩]
    [⟨.linear, 0.0, 0.0 + 1.0, 0.0⟩] [] where
  points := rfl
  passed := List.forall_mem_singleton.mpr (show (0.0 : ℝ) ≤ 0.5 by norm_num)
  between := List.forall_mem_singleton.mpr
    ⟨show (0.5 : ℝ) < 0.0 + 1.0 by norm_num, show (0.0 + 1.0 : ℝ) ≤ 0.5 + 1.0 by norm_num⟩
  later := fun _ hq => absurd hq List.not_mem_nil

theorem valueNow_lowering : lowering.valueNow firstLevel = 0.5 := by
  have hnow : (0.0 : Reals) ≤ 0.5 := show (0.0 : ℝ) ≤ 0.5 by norm_num
  have hend : (0.5 : Reals) < 0.0 + 1.0 := show (0.5 : ℝ) < 0.0 + 1.0 by norm_num
  have hvalue := valueAt_of_timeline? timeline?_lowering lowering.clock
  rw [clock_lowering] at hvalue
  refine (congrArg _ clock_lowering).trans (hvalue.trans ?_)
  refine (if_pos hnow).trans ((Timeline.follow_within hnow hend 1.0 []).trans ?_)
  show (1.0 : ℝ) + (0.0 - 1.0) * ((0.5 - 0.0) / (0.0 + 1.0 - 0.0)) = 0.5
  norm_num

/-- Moved back to one, the level is at zero where the earlier ramp ends. -/
theorem valueAt_lowering :
    (lowering.rampTo firstLevel 1.0 1.0).valueAt firstLevel 1.0 = 0.0 := by
  have hlong : (0.5 : Reals) < 0.5 + 1.0 := show (0.5 : ℝ) < 0.5 + 1.0 by norm_num
  have hnow : (0.5 : Reals) ≤ 1.0 := show (0.5 : ℝ) ≤ 1.0 by norm_num
  have hend : (0.0 + 1.0 : Reals) ≤ 1.0 := show (0.0 + 1.0 : ℝ) ≤ 1.0 by norm_num
  have hstop : (1.0 : Reals) < 0.5 + 1.0 := show (1.0 : ℝ) < 0.5 + 1.0 by norm_num
  rw [valueAt_of_timeline? (timeline?_rampTo timeline?_lowering 1.0 1.0), clock_lowering,
    cut_lowered.valueAt_ramp hlong hnow]
  refine (if_pos hend).trans ((Timeline.follow_within hend hstop 0.0 []).trans ?_)
  show (0.0 : ℝ) + (1.0 - 0.0) * ((1.0 - (0.0 + 1.0)) / (0.5 + 1.0 - (0.0 + 1.0))) = 0.0
  norm_num

/-- So it is not where a straight line from its value to one leads. -/
theorem bent_lowering :
    (lowering.rampTo firstLevel 1.0 1.0).valueAt firstLevel 1.0 ≠
      lowering.valueNow firstLevel + (1.0 - lowering.valueNow firstLevel) *
        ((1.0 - lowering.clock) / 1.0) := by
  rw [valueAt_lowering, valueNow_lowering, clock_lowering]
  show (0.0 : ℝ) ≠ 0.5 + (1.0 - 0.5) * ((1.0 - 0.5) / 1.0)
  norm_num

end Rack

end Patchbay
