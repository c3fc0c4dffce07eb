import Patchbay.Proofs.Comparison
/-!
# Scalars without rounding

What is said of ramps does not depend on how powers are computed, only on how they lie to one and to
their base. So scalars may be taken that compute as real numbers do but for powers
(`Scalar.Unrounded`), with a power of which no more is known than that it lies between one and its
base (`Scalar.PowBetween`), or that it goes from one to its base in one direction
(`Scalar.PowMonotone`). Exact scalars are such scalars.
-/

namespace Patchbay

/-- Scalars that stand for real numbers, and are compared, added, subtracted, multiplied and divided
as these are. Nothing is said of powers, and a zero may be written with either sign. -/
class Scalar.Unrounded (α : Type) [Scalar α] where
  toReal : α → ℝ
  lt_iff {a b : α} : a < b ↔ toReal a < toReal b
  le_iff {a b : α} : a ≤ b ↔ toReal a ≤ toReal b
  beq_iff {a b : α} : (a == b) = true ↔ toReal a = toReal b
  toReal_add (a b : α) : toReal (a + b) = toReal a + toReal b
  toReal_sub (a b : α) : toReal (a - b) = toReal a - toReal b
  toReal_mul (a b : α) : toReal (a * b) = toReal a * toReal b
  toReal_div (a b : α) : toReal (a / b) = toReal a / toReal b
  toReal_ofScientific (mantissa : Nat) (negative : Bool) (exponent : Nat) :
    toReal (OfScientific.ofScientific mantissa negative exponent) =
      OfScientific.ofScientific mantissa negative exponent
  isSigned_of_neg {a : α} : toReal a < 0 → isSigned a = true
  isSigned_of_pos {a : α} : 0 < toReal a → isSigned a = false

instance {α : Type} [Scalar α] [Scalar.Exact α] : Scalar.Unrounded α where
  toReal := Scalar.Exact.toReal
  lt_iff := Scalar.Exact.lt_iff
  le_iff := Scalar.Exact.le_iff
  beq_iff := Scalar.Exact.beq_iff
  toReal_add := Scalar.Exact.toReal_add
  toReal_sub := Scalar.Exact.toReal_sub
  toReal_mul := Scalar.Exact.toReal_mul
  toReal_div := Scalar.Exact.toReal_div
  toReal_ofScientific := Scalar.Exact.toReal_ofScientific
  isSigned_of_neg := Scalar.Exact.isSigned_iff.mpr
  isSigned_of_pos h := Bool.eq_false_iff.mpr fun hsigned =>
    h.not_gt (Scalar.Exact.isSigned_iff.mp hsigned)

namespace Scalar

variable {α : Type} [Scalar α] [Unrounded α]

namespace Unrounded

variable {a b : α}

@[simp]
theorem toReal_zero : toReal (0.0 : α) = 0 := by
  rw [toReal_ofScientific]
  norm_num

@[simp]
theorem toReal_one : toReal (1.0 : α) = 1 := by
  rw [toReal_ofScientific]
  norm_num

theorem pos_iff : (0.0 : α) < a ↔ 0 < toReal a := by
  rw [lt_iff, toReal_zero]

theorem beq_self (a : α) : (a == a) = true := beq_iff.mpr rfl

theorem le_refl (a : α) : a ≤ a := le_iff.mpr le_rfl

theorem not_lt_iff : ¬a < b ↔ b ≤ a := by
  rw [lt_iff, le_iff, not_lt]

theorem not_le_iff : ¬a ≤ b ↔ b < a := by
  rw [lt_iff, le_iff, not_le]

theorem lt_add (h : (0.0 : α) < b) : a < a + b := by
  rw [lt_iff, toReal_add]
  exact lt_add_of_pos_right _ (pos_iff.mp h)

/-- The greater of two is not less than the second. -/
theorem le_greatest_right (a b : α) : b ≤ greatest a b := by
  unfold greatest
  rw [if_pos (beq_self a)]
  split
  next => exact le_refl b
  next h => exact not_lt_iff.mp h

instance : Signed α where
  le_trans h h' := le_iff.mpr ((le_iff.mp h).trans (le_iff.mp h'))
  not_lt_of_le h hlt := (le_iff.mp h).not_gt (lt_iff.mp hlt)
  le_of_lt h := le_iff.mpr (lt_iff.mp h).le
  le_or_lt {a b} _ _ := by
    rw [le_iff, lt_iff]
    exact le_or_gt _ _
  beq_self_of_lt _ := ⟨beq_self _, beq_self _⟩
  beq_self_of_beq _ := beq_self _
  not_beq_of_lt h := by
    have hlt := lt_iff.mp h
    simp only [Bool.eq_false_iff, ne_eq, beq_iff]
    exact ⟨hlt.ne, hlt.ne'⟩
  isSigned_of_neg h := isSigned_of_neg (toReal_zero (α := α) ▸ lt_iff.mp h)
  isSigned_of_pos h := isSigned_of_pos (pos_iff.mp h)

end Unrounded

open Unrounded (toReal)

/-! ## Powers -/

/-- A power of a base that is not below zero, with an exponent from zero to one, lies between one
and the base. -/
def PowBetween (α : Type) [Scalar α] [Unrounded α] : Prop :=
  ∀ base exponent : α, 0 ≤ toReal base → 0 ≤ toReal exponent → toReal exponent ≤ 1 →
    toReal (pow base exponent) ∈ Set.uIcc 1 (toReal base)

/-- The powers of a base above zero go from one to the base while the exponent goes from zero to
one: upwards to a base above one, and downwards to a base below one. -/
structure PowMonotone (α : Type) [Scalar α] [Unrounded α] : Prop where
  pow_of_zero {base exponent : α} : 0 < toReal base → toReal exponent = 0 →
    toReal (pow base exponent) = 1
  pow_of_one {base exponent : α} : 0 < toReal base → toReal exponent = 1 →
    toReal (pow base exponent) = toReal base
  monotone {base low high : α} : 1 ≤ toReal base → 0 ≤ toReal low → toReal low ≤ toReal high →
    toReal high ≤ 1 → toReal (pow base low) ≤ toReal (pow base high)
  antitone {base low high : α} : 0 < toReal base → toReal base ≤ 1 → 0 ≤ toReal low →
    toReal low ≤ toReal high → toReal high ≤ 1 → toReal (pow base high) ≤ toReal (pow base low)

/-- Powers that go from one to the base lie between them. -/
theorem PowMonotone.pow_mem (h : PowMonotone α) {base exponent : α} (hbase : 0 < toReal base)
    (hzero : 0 ≤ toReal exponent) (hone : toReal exponent ≤ 1) :
    toReal (pow base exponent) ∈ Set.uIcc 1 (toReal base) := by
  have hfirst : toReal (pow base (0.0 : α)) = 1 := h.pow_of_zero hbase Unrounded.toReal_zero
  have hlast : toReal (pow base (1.0 : α)) = toReal base := h.pow_of_one hbase Unrounded.toReal_one
  have hlow : toReal (0.0 : α) ≤ toReal exponent := by rwa [Unrounded.toReal_zero]
  have hhigh : toReal exponent ≤ toReal (1.0 : α) := by rwa [Unrounded.toReal_one]
  rcases le_total 1 (toReal base) with hup | hdown
  · refine Set.mem_uIcc.mpr (.inl ⟨hfirst ▸ h.monotone hup ?_ hlow hone,
      hlast ▸ h.monotone hup hzero hhigh ?_⟩)
    · exact Unrounded.toReal_zero.ge
    · exact Unrounded.toReal_one.le
  · refine Set.mem_uIcc.mpr (.inr ⟨hlast ▸ h.antitone hbase hdown hzero hhigh ?_,
      hfirst ▸ h.antitone hbase hdown ?_ hlow hone⟩)
    · exact Unrounded.toReal_one.le
    · exact Unrounded.toReal_zero.ge

end Scalar

/-- The powers of real numbers go from one to the base. -/
theorem Scalar.Exact.powMonotone {α : Type} [Scalar α] [Exact α] : PowMonotone α where
  pow_of_zero hbase hzero := by
    refine (Exact.toReal_pow hbase _).trans ?_
    rw [show Exact.toReal _ = 0 from hzero, Real.rpow_zero]
  pow_of_one hbase hone := by
    refine (Exact.toReal_pow hbase _).trans ?_
    rw [show Exact.toReal _ = 1 from hone, Real.rpow_one]
    rfl
  monotone hup _ hle _ := by
    have hbase := zero_lt_one.trans_le hup
    refine (Exact.toReal_pow hbase _).trans_le (le_of_le_of_eq ?_ (Exact.toReal_pow hbase _).symm)
    exact Real.rpow_le_rpow_of_exponent_le hup hle
  antitone hbase hdown _ hle _ := by
    refine (Exact.toReal_pow hbase _).trans_le (le_of_le_of_eq ?_ (Exact.toReal_pow hbase _).symm)
    exact Real.rpow_le_rpow_of_exponent_ge hbase hdown hle

/-- The powers of zero are one and zero. -/
theorem Reals.powBetween : Scalar.PowBetween Reals := by
  refine fun (base exponent : ℝ) hbase hzero hone => ?_
  have hbase : 0 ≤ base := hbase
  rcases hbase.eq_or_lt with rfl | hpos
  · show (0 : ℝ) ^ exponent ∈ Set.uIcc 1 (0 : ℝ)
    rcases eq_or_ne exponent 0 with rfl | hexponent
    · rw [Real.rpow_zero]
      exact Set.left_mem_uIcc
    · rw [Real.zero_rpow hexponent]
      exact Set.right_mem_uIcc
  · exact Scalar.Exact.powMonotone.pow_mem hpos hzero hone

end Patchbay
