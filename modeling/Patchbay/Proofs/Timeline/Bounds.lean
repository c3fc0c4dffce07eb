import Patchbay.Proofs.Timeline.Order
import Patchbay.Proofs.Unrounded
/-!
# Between the least and the greatest value

A value is read off the stretch that a time falls into (`Timeline.valueAt_eq_stretch`). On a stretch
the part that is over lies between none and all, so that a ramp stays between the values at its ends
(`Timeline.along_mem`), and nothing is divided by zero. A value that is held was read in this way
and is the start of later stretches: whatever cues are scheduled, no value lies outside of those
that were given (`Timeline.valueAt_bounded`).
-/

namespace Patchbay

open Scalar (Unrounded PowBetween)
open Scalar.Unrounded (toReal)

variable {α : Type}

/-- The value that a cue gives. One that holds a value gives none. -/
def Cue.value? : Cue α → Option α
  | .set value _ | .linear value _ | .exponential value _ => some value
  | .hold _ => none

/-- The same scalars with another division. -/
@[reducible]
def Scalar.withDivision [Scalar α] (divide : α → α → α) : Scalar α :=
  { ‹Scalar α› with div := divide }

namespace Timeline

variable [Scalar α]

/-! ## Stretches -/

/-- A part of a course on which the value is on its way: since when, from which value, and to which
point. -/
structure Stretch (α : Type) where
  since : α
  value : α
  point : Point α

namespace Stretch

def length (s : Stretch α) : α := s.point.time - s.since

/-- The part that is over. -/
def progress (s : Stretch α) (t : α) : α := (t - s.since) / s.length

def valueAt (s : Stretch α) (t : α) : α :=
  along s.point.shape s.value s.point.value (s.progress t)

end Stretch

/-- What has been passed at a time. -/
def passed (tl : Timeline α) (t : α) : Timeline α :=
  { tl with points := tl.points.takeWhile fun p => p.time ≤ t }

/-- The stretch that a time falls into. There is none behind the last point, nor before the first
one while its ramp has not begun. -/
def stretch? (tl : Timeline α) (t : α) : Option (Stretch α) :=
  (tl.points.dropWhile fun p => p.time ≤ t).head?.bind fun p =>
    let since := departure (tl.passed t).points p
    if t < since ∨ p.time ≤ since then none else some ⟨since, (tl.passed t).rest, p⟩

/-- What lies ahead first has not been passed. -/
theorem not_le_of_ahead {tl : Timeline α} {t : α} {p : Point α}
    (h : (tl.points.dropWhile fun p => p.time ≤ t).head? = some p) : ¬p.time ≤ t := by
  have hfirst := List.head?_dropWhile_not (fun p : Point α => decide (p.time ≤ t)) tl.points
  rw [h] at hfirst
  exact of_decide_eq_false hfirst

/-- A value is read off the stretch that the time falls into. Without one it is that of the last
point passed. -/
theorem valueAt_eq_stretch (tl : Timeline α) (t : α) :
    tl.valueAt t = ((tl.stretch? t).map (·.valueAt t)).getD (tl.passed t).rest := by
  have hpassed : ∀ q ∈ (tl.passed t).points, q.time ≤ t := fun q hq => by
    simpa using List.mem_takeWhile_imp hq
  have hsplit : tl.points = (tl.passed t).points ++ tl.points.dropWhile fun p => p.time ≤ t :=
    List.takeWhile_append_dropWhile.symm
  unfold stretch?
  cases hahead : tl.points.dropWhile fun p => p.time ≤ t with
  | nil =>
    have hall : tl.passed t = tl := by
      rw [hahead, List.append_nil] at hsplit
      exact congrArg (Timeline.mk tl.initial) hsplit.symm
    rw [hall] at hpassed ⊢
    exact valueAt_of_past hpassed
  | cons p ahead =>
    have hp : ¬p.time ≤ t := not_le_of_ahead (congrArg List.head? hahead)
    rw [valueAt_of_ahead (hahead ▸ hsplit) hpassed hp]
    show _ = (Option.map _ (if _ then none else some _)).getD _
    split <;> rfl

/-- A point that was put in among others. -/
theorem mem_insertPoint {p q : Point α} {points : List (Point α)} (h : q ∈ insertPoint p points) :
    q = p ∨ q ∈ points := by
  induction points with
  | nil => exact .inl (List.mem_singleton.mp h)
  | cons first points ih =>
    unfold insertPoint at h
    split at h
    next => exact List.mem_cons.mp h
    next =>
      rcases List.mem_cons.mp h with rfl | hq
      · exact .inr List.mem_cons_self
      · exact (ih hq).imp_right (List.mem_cons_of_mem _)

variable [Unrounded α]

/-- From one time on and before another, at least none of the way is over and less than all. -/
theorem progress_mem {since t stop : α} (hbegun : since ≤ t) (hahead : t < stop) :
    0 < toReal (stop - since) ∧ 0 ≤ toReal ((t - since) / (stop - since)) ∧
      toReal ((t - since) / (stop - since)) < 1 := by
  have hbegun := Unrounded.le_iff.mp hbegun
  have hahead := Unrounded.lt_iff.mp hahead
  have hlong : 0 < toReal stop - toReal since := sub_pos.mpr (hbegun.trans_lt hahead)
  rw [Unrounded.toReal_div, Unrounded.toReal_sub, Unrounded.toReal_sub]
  refine ⟨hlong, div_nonneg (sub_nonneg.mpr hbegun) hlong.le, ?_⟩
  rw [div_lt_one hlong]
  exact sub_lt_sub_right hahead _

/-- On a stretch the divisor is above zero, and the part that is over is at least none and less than
all. -/
theorem progress_of_stretch {tl : Timeline α} {t : α} {s : Stretch α}
    (h : tl.stretch? t = some s) :
    0 < toReal s.length ∧ 0 ≤ toReal (s.progress t) ∧ toReal (s.progress t) < 1 := by
  obtain ⟨p, hp, hstretch⟩ := Option.bind_eq_some_iff.mp h
  have hahead := Unrounded.not_le_iff.mp (not_le_of_ahead hp)
  dsimp only at hstretch
  split at hstretch
  next => cases hstretch
  next hguard =>
    cases hstretch
    exact progress_mem (Unrounded.not_lt_iff.mp (not_or.mp hguard).1) hahead

/-! ## Along a ramp -/

/-- The quotient of two values that are written with the same sign is not below zero. -/
theorem div_nonneg_of_sameSign {start target : α} (h : Scalar.sameSign start target = true) :
    0 ≤ toReal (target / start) := by
  have hsign : Scalar.isSigned start = Scalar.isSigned target := by
    simp only [Scalar.sameSign, Bool.and_eq_true, beq_iff_eq] at h
    exact h.2
  rw [Unrounded.toReal_div]
  cases hsigned : Scalar.isSigned start with
  | true =>
    have hbelow {a : α} (ha : Scalar.isSigned a = true) : toReal a ≤ 0 := not_lt.mp fun hpos =>
      Bool.false_ne_true ((Unrounded.isSigned_of_pos hpos).symm.trans ha)
    exact div_nonneg_of_nonpos (hbelow (hsign ▸ hsigned)) (hbelow hsigned)
  | false =>
    have habove {a : α} (ha : Scalar.isSigned a = false) : 0 ≤ toReal a := not_lt.mp fun hneg =>
      Bool.false_ne_true (ha.symm.trans (Unrounded.isSigned_of_neg hneg))
    exact div_nonneg (habove (hsign ▸ hsigned)) (habove hsigned)

/-- Part of the way along a ramp the value lies between the ends, when the power does that an
exponential ramp takes. -/
theorem along_mem {shape : Shape} {start target progress : α} (hzero : 0 ≤ toReal progress)
    (hone : toReal progress ≤ 1)
    (hpow : 0 ≤ toReal (target / start) →
      toReal (Scalar.pow (target / start) progress) ∈ Set.uIcc 1 (toReal (target / start))) :
    toReal (along shape start target progress) ∈ Set.uIcc (toReal start) (toReal target) := by
  cases shape with
  | set => exact Set.left_mem_uIcc
  | linear =>
    have hpart := Set.mem_image_of_mem ((toReal target - toReal start) * ·)
      (Set.Icc_subset_uIcc ⟨hzero, hone⟩)
    rw [Set.image_const_mul_uIcc, mul_zero, mul_one] at hpart
    have hvalue := Set.mem_image_of_mem (toReal start + ·) hpart
    rw [Set.image_const_add_uIcc, add_zero, add_sub_cancel] at hvalue
    show toReal (start + (target - start) * progress) ∈ _
    rw [Unrounded.toReal_add, Unrounded.toReal_mul, Unrounded.toReal_sub]
    exact hvalue
  | exponential =>
    unfold along
    dsimp only
    split
    next => exact Set.left_mem_uIcc
    next hguard =>
      simp only [Bool.or_eq_true, Bool.not_eq_true', not_or, Bool.not_eq_false] at hguard
      obtain ⟨hstart, hsign⟩ := hguard
      have hstart : toReal start ≠ 0 := fun hnone =>
        hstart (Unrounded.beq_iff.mpr (hnone.trans Unrounded.toReal_zero.symm))
      have hvalue := Set.mem_image_of_mem (toReal start * ·) (hpow (div_nonneg_of_sameSign hsign))
      rw [Set.image_const_mul_uIcc, mul_one, Unrounded.toReal_div, mul_div_cancel₀ _ hstart]
        at hvalue
      rw [Unrounded.toReal_mul]
      exact hvalue

/-! ## Bounds -/

/-- The values that are given for a course lie between two bounds. -/
structure Within (low high : ℝ) (tl : Timeline α) : Prop where
  initial : toReal tl.initial ∈ Set.Icc low high
  points : ∀ p ∈ tl.points, toReal p.value ∈ Set.Icc low high

namespace Within

variable {low high : ℝ} {tl : Timeline α}

theorem rest (h : tl.Within low high) : toReal tl.rest ∈ Set.Icc low high := by
  unfold Timeline.rest
  cases hlast : tl.points.getLast? with
  | none => exact h.initial
  | some p => exact h.points p (List.mem_of_getLast? hlast)

theorem passed (h : tl.Within low high) (t : α) : (tl.passed t).Within low high where
  initial := h.initial
  points p hp := h.points p ((List.takeWhile_prefix _).subset hp)

/-- Then all values of the course lie there too. -/
theorem valueAt (h : tl.Within low high) (hpow : PowBetween α) (t : α) :
    toReal (tl.valueAt t) ∈ Set.Icc low high := by
  rw [valueAt_eq_stretch]
  cases hstretch : tl.stretch? t with
  | none => exact (h.passed t).rest
  | some s =>
    obtain ⟨-, hzero, hone⟩ := progress_of_stretch hstretch
    obtain ⟨p, hp, hs⟩ := Option.bind_eq_some_iff.mp hstretch
    have hends : toReal s.value ∈ Set.Icc low high ∧ toReal s.point.value ∈ Set.Icc low high := by
      dsimp only at hs
      split at hs
      next => cases hs
      next =>
        cases hs
        have hmem : p ∈ tl.points := (List.dropWhile_suffix _).subset (List.mem_of_head? hp)
        exact ⟨(h.passed t).rest, h.points p hmem⟩
    exact Set.uIcc_subset_Icc hends.1 hends.2
      (along_mem hzero hone.le fun hbase => hpow _ _ hbase hzero hone.le)

/-- A cue that gives a value between the bounds, or holds one that was reached, keeps the course
there. -/
theorem apply (h : tl.Within low high) (hpow : PowBetween α) (now : α) {cue : Cue α}
    (hcue : ∀ value ∈ cue.value?, toReal value ∈ Set.Icc low high) :
    (tl.apply now cue).Within low high := by
  have hinsert (tl : Timeline α) (h : tl.Within low high) {p : Point α}
      (hp : toReal p.value ∈ Set.Icc low high) : (tl.insert p).Within low high := by
    refine ⟨h.initial, fun q hq => ?_⟩
    rcases mem_insertPoint hq with rfl | hq
    · exact hp
    · exact h.points q hq
  cases cue with
  | set value | linear value | exponential value => exact hinsert tl h (hcue value rfl)
  | hold time =>
    refine hinsert { tl with points := tl.points.filter _ } ⟨h.initial, fun q hq => ?_⟩
      (h.valueAt hpow time)
    exact h.points q (List.mem_filter.mp hq).1

theorem applyAll (h : tl.Within low high) (hpow : PowBetween α) {cues : List (α × Cue α)}
    (hcues : ∀ entry ∈ cues, ∀ value ∈ entry.2.value?, toReal value ∈ Set.Icc low high) :
    (tl.applyAll cues).Within low high := by
  induction cues generalizing tl with
  | nil => exact h
  | cons entry cues ih =>
    exact ih (h.apply hpow entry.1 (hcues entry List.mem_cons_self)) fun e he =>
      hcues e (List.mem_cons_of_mem _ he)

end Within

/-! ## Division -/

section

variable {divide : α → α → α}

/-- A ramp that does not start at zero divides by its start. -/
theorem along_withDivision (hdivide : ∀ a b : α, toReal b ≠ 0 → divide a b = a / b) (shape : Shape)
    (start target progress : α) :
    @along α (Scalar.withDivision divide) shape start target progress =
      along shape start target progress := by
  cases shape with
  | set | linear => rfl
  | exponential =>
    show (if _ then start else start * Scalar.pow (divide target start) progress) =
      if _ then start else _
    refine ite_congr rfl (fun _ => rfl) fun hguard => ?_
    have hstart : toReal start ≠ 0 := fun hnone =>
      hguard (by simp [Unrounded.beq_iff.mpr (hnone.trans Unrounded.toReal_zero.symm)])
    rw [hdivide target start hstart]

/-- What division by zero gives does not count when a course is read. -/
theorem follow_withDivision (hdivide : ∀ a b : α, toReal b ≠ 0 → divide a b = a / b) (t value : α)
    (since : Option α) (points : List (Point α)) :
    @follow α (Scalar.withDivision divide) t value since points = follow t value since points := by
  induction points generalizing value since with
  | nil => rfl
  | cons p points ih =>
    unfold follow
    refine ite_congr rfl (fun _ => ih _ _) fun _ => ?_
    refine ite_congr rfl (fun _ => rfl) fun hguard => ?_
    have hlong := Unrounded.lt_iff.mp (Unrounded.not_le_iff.mp (not_or.mp hguard).2)
    have hlength : toReal (p.time - since.getD (Scalar.least p.issued p.time)) ≠ 0 := by
      rw [Unrounded.toReal_sub]
      exact (sub_pos.mpr hlong).ne'
    exact (along_withDivision hdivide p.shape value p.value _).trans
      (congrArg (along p.shape value p.value) (hdivide _ _ hlength))

end

/-- Whatever cues are scheduled, at whatever times and clocks, and whenever the course is read. The
value is that of the last point passed, or it is read off a stretch, where the divisor is above zero
and the part that is over is at least none and less than all. What division by zero gives does not
count. The value lies between two of those that were given. -/
theorem valueAt_bounded (hpow : PowBetween α) (initial : α) (cues : List (α × Cue α)) (t : α) :
    let tl := (starting initial).applyAll cues
    let given := initial :: cues.filterMap (·.2.value?)
    tl.valueAt t = ((tl.stretch? t).map (·.valueAt t)).getD (tl.passed t).rest ∧
    (∀ s, tl.stretch? t = some s →
      0 < toReal s.length ∧ 0 ≤ toReal (s.progress t) ∧ toReal (s.progress t) < 1) ∧
    (∀ divide : α → α → α, (∀ a b : α, toReal b ≠ 0 → divide a b = a / b) →
      @valueAt α (Scalar.withDivision divide) tl t = tl.valueAt t) ∧
    ∃ low ∈ given, ∃ high ∈ given, low ≤ tl.valueAt t ∧ tl.valueAt t ≤ high := by
  intro tl given
  refine ⟨tl.valueAt_eq_stretch t, fun s => progress_of_stretch, fun divide hdivide =>
    follow_withDivision hdivide t tl.initial none tl.points, ?_⟩
  obtain ⟨low, hlow⟩ := Option.ne_none_iff_exists'.mp
    (mt (List.argmin_eq_none (f := toReal)).mp (List.cons_ne_nil initial _))
  obtain ⟨high, hhigh⟩ := Option.ne_none_iff_exists'.mp
    (mt (List.argmax_eq_none (f := toReal)).mp (List.cons_ne_nil initial _))
  have hgiven : ∀ value ∈ given, toReal value ∈ Set.Icc (toReal low) (toReal high) :=
    fun value hvalue => ⟨List.le_of_mem_argmin hvalue hlow, List.le_of_mem_argmax hvalue hhigh⟩
  have hstarting : (starting initial).Within (toReal low) (toReal high) :=
    ⟨hgiven initial List.mem_cons_self, fun _ hp => absurd hp List.not_mem_nil⟩
  have hwithin : tl.Within (toReal low) (toReal high) :=
    hstarting.applyAll hpow fun entry hentry value hvalue =>
      hgiven value (List.mem_cons_of_mem _ (List.mem_filterMap.mpr ⟨entry, hentry, hvalue⟩))
  obtain ⟨habove, hbelow⟩ := hwithin.valueAt hpow t
  exact ⟨low, List.argmin_mem hlow, high, List.argmax_mem hhigh, Unrounded.le_iff.mpr habove,
    Unrounded.le_iff.mpr hbelow⟩

/-- On its way down to zero the value is held, and then it is led on to below zero. -/
noncomputable def crossing : Timeline Reals :=
  (starting 1.0).applyAll [(0.0, .set 1.0 0.0), (0.0, .exponential 0.0 2.0), (1.0, .hold 1.0),
    (0.5, .linear (-1.0) 1.5)]

theorem bounded_crossing :
    (-1.0 : Reals) ≤ crossing.valueAt 1.25 ∧ crossing.valueAt 1.25 ≤ (1.0 : Reals) := by
  obtain ⟨-, -, -, low, hlow, high, hhigh, habove, hbelow⟩ := valueAt_bounded Reals.powBetween 1.0
    [(0.0, .set 1.0 0.0), (0.0, .exponential 0.0 2.0), (1.0, .hold 1.0), (0.5, .linear (-1.0) 1.5)]
    1.25
  have hgiven : ∀ value ∈ [(1.0 : Reals), 1.0, 0.0, -1.0],
      (-1.0 : Reals) ≤ value ∧ value ≤ (1.0 : Reals) := by
    refine List.forall_mem_cons.mpr ⟨?_, List.forall_mem_cons.mpr ⟨?_, List.forall_mem_cons.mpr
      ⟨?_, List.forall_mem_singleton.mpr ?_⟩⟩⟩
    · exact show (-1.0 : ℝ) ≤ 1.0 ∧ (1.0 : ℝ) ≤ 1.0 by norm_num
    · exact show (-1.0 : ℝ) ≤ 1.0 ∧ (1.0 : ℝ) ≤ 1.0 by norm_num
    · exact show (-1.0 : ℝ) ≤ 0.0 ∧ (0.0 : ℝ) ≤ 1.0 by norm_num
    · exact show (-1.0 : ℝ) ≤ -1.0 ∧ (-1.0 : ℝ) ≤ 1.0 by norm_num
  exact ⟨Scalar.Ordered.le_trans (hgiven low hlow).1 habove,
    Scalar.Ordered.le_trans hbelow (hgiven high hhigh).2⟩

end Timeline

end Patchbay
