import Patchbay.Proofs.Timeline.Order
/-!
# Exponential ramps

An exponential ramp leads from the last point passed to its own by equal ratios. There is no such
way from zero or to the other side of zero, and the value is held until the time of the point. To
zero there is none either, but a zero that is written with the sign of the value does not count as
the other side: the value falls to zero at once (`Timeline.fallen_fading`).
-/

namespace Patchbay.Timeline

open Scalar (Comparable Ordered Signed Exact)

variable {α : Type} [Scalar α]

/-! ## Along a ramp -/

section

variable {start target : α} (progress : α)

theorem along_of_zero (h : (start == (0.0 : α)) = true) :
    along .exponential start target progress = start := by
  unfold along
  rw [h]
  rfl

theorem along_of_not_sameSign (h : Scalar.sameSign start target = false) :
    along .exponential start target progress = start := by
  unfold along
  rw [h]
  exact if_pos (by simp)

theorem along_of_sameSign (hstart : (start == (0.0 : α)) = false)
    (h : Scalar.sameSign start target = true) :
    along .exponential start target progress = start * Scalar.pow (target / start) progress := by
  unfold along
  rw [hstart, h]
  rfl

end

/-- Whether two numbers have the same sign is read off how they are written. -/
theorem sameSign_eq {a b : α} (ha : (a == a) = true) (hb : (b == b) = true) :
    Scalar.sameSign a b = (Scalar.isSigned a == Scalar.isSigned b) := by
  unfold Scalar.sameSign
  rw [ha, hb]
  rfl

variable [Signed α]

/-- From a value above zero a ramp leads to any number that is written without a sign. -/
theorem along_of_pos {start target : α} (hstart : (0.0 : α) < start)
    (htarget : (target == target) = true) (progress : α) :
    along .exponential start target progress =
      if Scalar.isSigned target then start
      else start * Scalar.pow (target / start) progress := by
  have hsign := sameSign_eq (Comparable.beq_self_of_lt hstart).2 htarget
  rw [Signed.isSigned_of_pos hstart] at hsign
  cases htargetSign : Scalar.isSigned target with
  | true =>
    rw [htargetSign] at hsign
    exact along_of_not_sameSign progress hsign
  | false =>
    rw [htargetSign] at hsign
    exact along_of_sameSign progress (Signed.not_beq_of_lt hstart).2 hsign

/-- From a value below zero a ramp leads to any number that is written with a sign. -/
theorem along_of_neg {start target : α} (hstart : start < (0.0 : α))
    (htarget : (target == target) = true) (progress : α) :
    along .exponential start target progress =
      if Scalar.isSigned target then start * Scalar.pow (target / start) progress
      else start := by
  have hsign := sameSign_eq (Comparable.beq_self_of_lt hstart).1 htarget
  rw [Signed.isSigned_of_neg hstart] at hsign
  cases htargetSign : Scalar.isSigned target with
  | true =>
    rw [htargetSign] at hsign
    exact along_of_sameSign progress (Signed.not_beq_of_lt hstart).1 hsign
  | false =>
    rw [htargetSign] at hsign
    exact along_of_not_sameSign progress hsign

/-! ## On the stretch to a point -/

omit [Signed α] in
/-- Without rounding, the part of a stretch that is over is at least none and less than all. -/
theorem progress_bounds [Exact α] {start t stop : α} (hstart : start ≤ t) (hstop : t < stop) :
    0 ≤ Exact.toReal ((t - start) / (stop - start)) ∧
      Exact.toReal ((t - start) / (stop - start)) < 1 := by
  have hstart := Exact.le_iff.mp hstart
  have hstop := Exact.lt_iff.mp hstop
  rw [Exact.toReal_div, Exact.toReal_sub, Exact.toReal_sub]
  constructor
  · exact div_nonneg (by linarith) (by linarith)
  · rw [div_lt_one (by linarith)]
    linarith

/-- On the stretch to the point of an exponential ramp, in a timeline that any cues have led to.
From zero, and to the other side of zero, the value is held. To the same side it goes by equal
ratios. To zero it is held when the zero is written with the other sign, and else goes along the
curve to zero. The part of the stretch that is over lies between none and all when nothing is
rounded. -/
theorem valueAt_exponential (initial : α) {cues : List (α × Cue α)}
    (hcues : ∀ entry ∈ cues, (entry.2.time == entry.2.time) = true)
    {passed ahead : List (Point α)} {p : Point α}
    (hpoints : ((starting initial).applyAll cues).points = passed ++ p :: ahead)
    (hshape : p.shape = .exponential) {t : α} (hstart : departure passed p ≤ t)
    (hend : t < p.time) :
    let value := ((starting initial).applyAll cues).valueAt t
    let start := rest ⟨initial, passed⟩
    let progress := (t - departure passed p) / (p.time - departure passed p)
    let curve := start * Scalar.pow (p.value / start) progress
    ((start == (0.0 : α)) = true → value = start) ∧
    ((0.0 : α) < start →
      (p.value < (0.0 : α) → value = start) ∧ ((0.0 : α) < p.value → value = curve) ∧
      ((p.value == (0.0 : α)) = true →
        value = if Scalar.isSigned p.value then start else curve)) ∧
    (start < (0.0 : α) →
      ((0.0 : α) < p.value → value = start) ∧ (p.value < (0.0 : α) → value = curve) ∧
      ((p.value == (0.0 : α)) = true →
        value = if Scalar.isSigned p.value then curve else start)) ∧
    ∀ exact : Exact α, 0 ≤ exact.toReal progress ∧ exact.toReal progress < 1 := by
  intro value start progress curve
  have h : InOrder ((starting initial).applyAll cues).points := .applyAll_starting initial hcues
  have hvalue : value = along .exponential start p.value progress := by
    have hwithin := h.valueAt_within hpoints hstart hend
    rwa [hshape, initial_applyAll] at hwithin
  -- what is left to see is whether the target is written with the sign of the start
  rw [hvalue]
  refine ⟨along_of_zero progress, fun hpos => ?_, fun hneg => ?_,
    fun _ => progress_bounds hstart hend⟩
  · refine ⟨fun htarget => ?_, fun htarget => ?_, fun htarget =>
      along_of_pos hpos (Signed.beq_self_of_beq htarget) progress⟩
    · rw [along_of_pos hpos (Comparable.beq_self_of_lt htarget).1,
        Signed.isSigned_of_neg htarget, if_pos rfl]
    · rw [along_of_pos hpos (Comparable.beq_self_of_lt htarget).2,
        Signed.isSigned_of_pos htarget, if_neg Bool.false_ne_true]
  · refine ⟨fun htarget => ?_, fun htarget => ?_, fun htarget =>
      along_of_neg hneg (Signed.beq_self_of_beq htarget) progress⟩
    · rw [along_of_neg hneg (Comparable.beq_self_of_lt htarget).2,
        Signed.isSigned_of_pos htarget, if_neg Bool.false_ne_true]
    · rw [along_of_neg hneg (Comparable.beq_self_of_lt htarget).1,
        Signed.isSigned_of_neg htarget, if_pos rfl]

/-- Below zero a zero without a sign is the other side. -/
theorem held_below :
    ((starting (-1.0 : Float)).applyAll
      [(0.0, .set (-1.0) 0.0), (0.0, .exponential 0.0 1.0)]).valueAt 0.5 = -1.0 := by
  obtain ⟨-, -, hbelow, -⟩ := @valueAt_exponential Float _ _ (-1.0)
    [(0.0, .set (-1.0) 0.0), (0.0, .exponential 0.0 1.0)] (by decide)
    [⟨.set, -1.0, 0.0, 0.0⟩] [] ⟨.exponential, 0.0, 1.0, 0.0⟩ rfl rfl 0.5 (by decide) (by decide)
  exact (hbelow (by decide)).2.2 (by decide)

/-! ## A ramp to zero -/

/-- A ramp from one at the start to zero a second later. -/
noncomputable def fading : Timeline Reals :=
  (starting 1.0).applyAll [(0.0, .set 1.0 0.0), (0.0, .exponential 0.0 1.0)]

theorem points_fading :
    fading.points = [⟨.set, 1.0, 0.0, 0.0⟩] ++ [⟨.exponential, 0.0, 1.0, 0.0⟩] :=
  if_neg (show ¬(1.0 : ℝ) < 0.0 by norm_num)

/-- No ratio but zero leads to zero. -/
theorem valueAt_fading {t : ℝ} (hstart : 0 ≤ t) (hend : t < 1) :
    fading.valueAt t = (0 : ℝ) ^ t := by
  have h : InOrder fading.points := .applyAll_starting 1.0 fun _ _ => Exact.beq_iff.mpr rfl
  have hstart : (0.0 : ℝ) ≤ t := by norm_num [hstart]
  have hend : t < (1.0 : ℝ) := by norm_num [hend]
  have hpos : (0.0 : Reals) < 1.0 := show (0.0 : ℝ) < 1.0 by norm_num
  have hunsigned : ¬Scalar.isSigned (0.0 : Reals) = true := fun hsigned =>
    absurd (Exact.isSigned_iff.mp hsigned) (show ¬(0.0 : ℝ) < 0 by norm_num)
  rw [h.valueAt_within points_fading hstart hend]
  refine ((along_of_pos hpos (Exact.beq_iff.mpr rfl) _).trans (if_neg hunsigned)).trans ?_
  show (1.0 : ℝ) * (0.0 / 1.0) ^ ((t - 0.0) / (1.0 - 0.0)) = 0 ^ t
  norm_num

/-- Half-way to zero the value is not the one that the ramp began with. -/
theorem fallen_fading : fading.valueAt 0.5 ≠ fading.valueAt 0.0 := by
  have hhalf := valueAt_fading (t := 0.5) (by norm_num) (by norm_num)
  have hstart := valueAt_fading (t := 0.0) (by norm_num) (by norm_num)
  intro hsame
  have hpow : (0 : ℝ) ^ (0.5 : ℝ) = 0 ^ (0.0 : ℝ) := hhalf.symm.trans (hsame.trans hstart)
  norm_num [Real.zero_rpow] at hpow

end Patchbay.Timeline
