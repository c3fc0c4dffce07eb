import Patchbay.Proofs.Comparison
/-!
# Ranges

A number that is clamped lies within the bounds (`Range.holds_clamp`), and it stays as it is exactly
when it was within them before (`Range.clamp_eq_self_iff`). One that is clamped to
two ranges lies within both, when the second begins within the first
(`Range.holds_clamp_clamp`). The parameters of primitives have such ranges in binary64
(`Param.proper_range`). Only that of a frequency depends on the rate of the rack: it ends at half
the rate, and half of a positive number is never below zero (`Binary64.half_of_pos`).
-/

namespace Patchbay

/-- The greater of two is not less than the second, when that is a number. -/
theorem Scalar.Comparable.le_greatest_right {α : Type} [Scalar α] [Scalar.Comparable α] {a b : α}
    (hb : (b == b) = true) : b ≤ greatest a b := by
  have hrefl : b ≤ b := (le_or_lt hb hb).elim id le_of_lt
  unfold greatest
  split
  next ha =>
    split
    next => exact hrefl
    next hnot => exact (le_or_lt hb ha).resolve_right hnot
  next => exact hrefl

namespace Range

variable {α : Type} [Scalar α]

/-- The number lies within the bounds. -/
def Holds (r : Range α) (x : α) : Prop := r.low ≤ x ∧ x ≤ r.high

instance (r : Range α) (x : α) : Decidable (r.Holds x) := inferInstanceAs (Decidable (_ ∧ _))

/-- Both bounds are numbers, and they are in order. -/
structure Proper (r : Range α) : Prop where
  low : (r.low == r.low) = true
  high : (r.high == r.high) = true
  ordered : r.low ≤ r.high

variable {r d : Range α} {x : α}

open Scalar (Comparable Ordered)

/-- A number within the bounds stays as it is. -/
theorem clamp_of_holds [Ordered α] (h : r.Holds x) : r.clamp x = x := by
  have hlow : ¬x < r.low := Ordered.not_lt_of_le h.1
  have hhigh : ¬r.high < x := Ordered.not_lt_of_le h.2
  simp only [clamp, Scalar.clamp, if_neg hlow, if_neg hhigh]

variable [Comparable α]

/-- Clamping gives the bound that was passed, or the number itself when it lies within. -/
theorem clamp_cases (hr : r.Proper) (hx : (x == x) = true) :
    (x < r.low ∧ r.clamp x = r.low) ∨ (r.high < x ∧ r.clamp x = r.high) ∨
      (r.Holds x ∧ r.clamp x = x) := by
  rcases Comparable.le_or_lt hr.low hx with hlow | hlow
  · rcases Comparable.le_or_lt hx hr.high with hhigh | hhigh
    · exact .inr (.inr ⟨⟨hlow, hhigh⟩, clamp_of_holds ⟨hlow, hhigh⟩⟩)
    · refine .inr (.inl ⟨hhigh, ?_⟩)
      simp only [clamp, Scalar.clamp, if_neg (Ordered.not_lt_of_le hlow), if_pos hhigh]
  · refine .inl ⟨hlow, ?_⟩
    simp only [clamp, Scalar.clamp, if_pos hlow, if_neg (Ordered.not_lt_of_le hr.ordered)]

theorem Proper.holds_low (hr : r.Proper) : r.Holds r.low :=
  ⟨(Comparable.le_or_lt hr.low hr.low).elim id Comparable.le_of_lt, hr.ordered⟩

theorem Proper.holds_high (hr : r.Proper) : r.Holds r.high :=
  ⟨hr.ordered, (Comparable.le_or_lt hr.high hr.high).elim id Comparable.le_of_lt⟩

/-- A number that is clamped lies within the bounds. -/
theorem holds_clamp (hr : r.Proper) (hx : (x == x) = true) : r.Holds (r.clamp x) := by
  rcases clamp_cases hr hx with ⟨-, hclamp⟩ | ⟨-, hclamp⟩ | ⟨hholds, hclamp⟩
  · exact hclamp ▸ hr.holds_low
  · exact hclamp ▸ hr.holds_high
  · exact hclamp.symm ▸ hholds

theorem clamp_eq_self_iff (hr : r.Proper) (hx : (x == x) = true) : r.clamp x = x ↔ r.Holds x := by
  refine ⟨fun h => ?_, clamp_of_holds⟩
  have hholds := holds_clamp hr hx
  rwa [h] at hholds

theorem beq_self_clamp (hr : r.Proper) (hx : (x == x) = true) :
    (r.clamp x == r.clamp x) = true := by
  rcases clamp_cases hr hx with ⟨-, hclamp⟩ | ⟨-, hclamp⟩ | ⟨-, hclamp⟩
  · exact hclamp ▸ hr.low
  · exact hclamp ▸ hr.high
  · exact hclamp.symm ▸ hx

/-- A number that is clamped to one range and then to a second that begins within the first lies
within both. -/
theorem holds_clamp_clamp (hd : d.Proper) (hr : r.Proper) (hlow : d.Holds r.low)
    (hx : (x == x) = true) : d.Holds (r.clamp (d.clamp x)) ∧ r.Holds (r.clamp (d.clamp x)) := by
  have hinner : d.Holds (d.clamp x) := holds_clamp hd hx
  have hself : (d.clamp x == d.clamp x) = true := beq_self_clamp hd hx
  refine ⟨?_, holds_clamp hr hself⟩
  rcases clamp_cases hr hself with ⟨-, hclamp⟩ | ⟨hhigh, hclamp⟩ | ⟨-, hclamp⟩
  · exact hclamp ▸ hlow
  · rw [hclamp]
    exact ⟨Ordered.le_trans hlow.1 hr.ordered,
      Ordered.le_trans (Comparable.le_of_lt hhigh) hinner.2⟩
  · exact hclamp.symm ▸ hinner

end Range

/-! ## Halves -/

namespace Binary64

open Float.Model Float.Model.UnpackedFloat

/-- A number that is written without a minus sign. -/
def Unsigned : UnpackedFloat → Prop
  | .notANumber => False
  | .infinity s | .zero s | .finite s _ _ _ => s = .positive

theorem zero_le_of_unsigned {a : UnpackedFloat} (h : Unsigned a) :
    (UnpackedFloat.zero .positive).le a = true := by
  rcases a with s | _ | s | ⟨s, m, e, _⟩
  · obtain rfl : s = .positive := h
    rfl
  · cases h
  · rfl
  · obtain rfl : s = .positive := h
    rfl

theorem unsigned_of_zero_lt {a : UnpackedFloat}
    (h : (UnpackedFloat.zero .positive).compare a = some .lt) : Unsigned a := by
  rcases a with (_ | _) | _ | _ | ⟨_ | _, _⟩ <;> first | rfl | cases h

/-- The greatest exponent is that of no number, unless the mantissa is empty. -/
theorem unsigned_packComponents {e : BitVec 11} {m : BitVec 52} (h : e = -1#11 → m = 0#52) :
    Unsigned (UnpackedFloat.unpack .binary64 (packComponents .binary64 .positive e m)) := by
  unfold UnpackedFloat.unpack
  simp only [unpackMantissa_packComponents, unpackExponent_packComponents,
    unpackSign_packComponents, Sign.ofBitVec_toBitVec]
  split
  next he =>
    rw [if_pos (h he)]
    rfl
  next =>
    split
    next => split <;> rfl
    next => rfl

/-- Packing may round to zero or infinity, but keeps the sign. -/
theorem unsigned_pack {a : UnpackedFloat} (h : Unsigned a) :
    Unsigned (Float.Model.pack a).unpack := by
  show Unsigned (UnpackedFloat.unpack .binary64 (UnpackedFloat.pack .binary64 a))
  rcases a with s | _ | s | ⟨s, m, e, _⟩
  · obtain rfl : s = .positive := h
    exact unsigned_packComponents fun _ => rfl
  · cases h
  · obtain rfl : s = .positive := h
    exact unsigned_packComponents fun _ => rfl
  · obtain rfl : s = .positive := h
    unfold UnpackedFloat.pack
    dsimp only
    split
    next => exact unsigned_packComponents fun _ => rfl
    next hexponent =>
      split
      next =>
        refine unsigned_packComponents fun he => ?_
        have hnat := congrArg BitVec.toNat he
        rw [BitVec.toNat_ofNat] at hnat
        change ¬2 ^ 11 ≤ _ + 1 at hexponent
        change _ % 2 ^ 11 = 2 ^ 11 - 1 at hnat
        rw [Nat.mod_eq_of_lt (by omega)] at hnat
        omega
      next => exact unsigned_packComponents fun he => absurd he (by decide : ¬0#11 = -1#11)

theorem unsigned_roundWithAccuracy (m : Nat) (e : Int) (accuracy : Accuracy) :
    Unsigned (roundWithAccuracy .binary64 .positive m e accuracy) := by
  unfold roundWithAccuracy
  dsimp only
  split <;> rfl

/-- Half of a positive number is not below zero, though it may be zero. -/
theorem half_of_pos {x : Float} (h : (0.0 : Float) < x) : (0.0 : Float) ≤ x / 2.0 := by
  have hlt := lt_iff_compare.mp h
  rw [unpack_zero] at hlt
  have htwo : (2.0 : Float).toModel.unpack = .finite .positive (2 ^ 52) (-51) (by decide) := rfl
  have hquotient : Unsigned
      (UnpackedFloat.div .binary64 x.toModel.unpack (2.0 : Float).toModel.unpack) := by
    rw [htwo]
    have hx := unsigned_of_zero_lt hlt
    revert hx
    rcases x.toModel.unpack with s | _ | s | ⟨s, m, e, _⟩
    · rintro rfl
      rfl
    · exact False.elim
    · rintro rfl
      rfl
    · rintro rfl
      exact unsigned_roundWithAccuracy _ _ _
  rw [le_iff, unpack_zero]
  exact zero_le_of_unsigned (unsigned_pack hquotient)

/-- What is less than or equal to another is a number, and so is the other. -/
theorem beq_self_of_le {x y : Float} (h : x ≤ y) : (x == x) = true ∧ (y == y) = true := by
  rw [le_iff, UnpackedFloat.le] at h
  rw [beq_self_iff, beq_self_iff]
  obtain ⟨o, ho, -⟩ := (Option.any_eq_true _ _).mp h
  exact ne_notANumber_of_compare ho

theorem proper_of_le {r : Range Float} (h : r.low ≤ r.high) : r.Proper :=
  ⟨(beq_self_of_le h).1, (beq_self_of_le h).2, h⟩

end Binary64

/-! ## Parameters -/

namespace Param

/-- Only the range of a frequency depends on the rate. -/
theorem range_congr {α : Type} [Scalar α] {param : Param} (h : param ≠ .frequency)
    (rate rate' : α) :
    param.range rate = param.range rate' := by
  cases param with
  | frequency => exact absurd rfl h
  | detune | q | delayTime | attack | release | threshold | knee | ratio | gain | offset => rfl

theorem proper_range {rate : Float} (h : 0.0 < rate) (param : Param) :
    (param.range rate).Proper := by
  refine Binary64.proper_of_le ?_
  by_cases hfrequency : param = .frequency
  · subst hfrequency
    exact Binary64.half_of_pos h
  · rw [range_congr hfrequency rate 1.0]
    have hall : ∀ param : Param, param ≠ .frequency →
        (param.range (1.0 : Float)).low ≤ (param.range 1.0).high := by
      intro param
      cases param <;> decide +kernel
    exact hall param hfrequency

end Param

end Patchbay
