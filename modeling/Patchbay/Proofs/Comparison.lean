import Patchbay.Proofs.Exact
import Patchbay.Proofs.Number.Whole
/-!
# Comparing scalars

Two scalars that are numbers can be compared (`Scalar.Comparable`), and one that is above or below
zero is written with the sign that says so (`Scalar.Signed`). Both hold of exact scalars and of
binary64, where some values are no numbers and a zero can have either sign.
-/

namespace Patchbay

/-- Of two scalars that are numbers, the first is not greater or the second is less. A scalar is a
number when it equals itself. -/
class Scalar.Comparable (α : Type) [Scalar α] : Prop extends Scalar.Ordered α where
  le_of_lt : ∀ {a b : α}, a < b → a ≤ b
  le_or_lt : ∀ {a b : α}, (a == a) = true → (b == b) = true → a ≤ b ∨ b < a
  beq_self_of_lt : ∀ {a b : α}, a < b → (a == a) = true ∧ (b == b) = true

/-- Equal scalars are numbers and neither is less, and what is less or greater than zero has the
sign that says so. -/
class Scalar.Signed (α : Type) [Scalar α] : Prop extends Scalar.Comparable α where
  beq_self_of_beq : ∀ {a b : α}, (a == b) = true → (a == a) = true
  not_beq_of_lt : ∀ {a b : α}, a < b → (a == b) = false ∧ (b == a) = false
  isSigned_of_neg : ∀ {a : α}, a < (0.0 : α) → isSigned a = true
  isSigned_of_pos : ∀ {a : α}, (0.0 : α) < a → isSigned a = false

namespace Scalar.Comparable

variable {α : Type} [Scalar α] [Scalar.Comparable α] {a b c : α}

theorem lt_of_not_le (ha : (a == a) = true) (hb : (b == b) = true) (h : ¬a ≤ b) : b < a :=
  (le_or_lt ha hb).resolve_left h

theorem lt_of_le_of_lt (ha : (a == a) = true) (h : a ≤ b) (h' : b < c) : a < c := by
  refine lt_of_not_le (beq_self_of_lt h').2 ha fun hca => ?_
  exact Ordered.not_lt_of_le (Ordered.le_trans hca h) h'

end Scalar.Comparable

/-! ## Exact scalars -/

instance {α : Type} [Scalar α] [Scalar.Exact α] : Scalar.Signed α where
  le_of_lt := Scalar.Exact.le_of_lt
  le_or_lt {a b} _ _ := by
    rw [Scalar.Exact.le_iff, Scalar.Exact.lt_iff]
    exact le_or_gt _ _
  beq_self_of_lt _ := ⟨Scalar.Exact.beq_iff.mpr rfl, Scalar.Exact.beq_iff.mpr rfl⟩
  beq_self_of_beq _ := Scalar.Exact.beq_iff.mpr rfl
  not_beq_of_lt h := by
    have hlt := Scalar.Exact.lt_iff.mp h
    simp only [Bool.eq_false_iff, ne_eq, Scalar.Exact.beq_iff]
    exact ⟨hlt.ne, hlt.ne'⟩
  isSigned_of_neg h := by
    have hlt := Scalar.Exact.lt_iff.mp h
    rw [Scalar.Exact.toReal_zero] at hlt
    exact Scalar.Exact.isSigned_iff.mpr hlt
  isSigned_of_pos h := by
    rw [Bool.eq_false_iff, ne_eq, Scalar.Exact.isSigned_iff]
    exact (Scalar.Exact.pos_iff.mp h).not_gt

/-! ## Binary64 -/

namespace Binary64

open Float.Model (UnpackedFloat)
open Patchbay.Number

/-- Two values that are numbers compare in some way. -/
theorem exists_compare {a b : UnpackedFloat} (ha : a ≠ .notANumber) (hb : b ≠ .notANumber) :
    ∃ o, a.compare b = some o := by
  rcases a with (_ | _) | _ | _ | ⟨_ | _, _⟩ <;>
    rcases b with (_ | _) | _ | _ | ⟨_ | _, _⟩ <;>
    first
    | exact absurd rfl ha
    | exact absurd rfl hb
    | exact ⟨_, rfl⟩

/-- What compares in some way is a number. -/
theorem ne_notANumber_of_compare {a b : UnpackedFloat} {o : Ordering} (h : a.compare b = some o) :
    a ≠ .notANumber ∧ b ≠ .notANumber := by
  constructor
  · rintro rfl
    cases h
  · rintro rfl
    cases a <;> cases h

/-- The sign with which a value other than zero is written. -/
def sign? : UnpackedFloat → Option UnpackedFloat.Sign
  | .infinity s | .finite s _ _ _ => some s
  | .notANumber | .zero _ => none

theorem negative_of_compare_zero {a : UnpackedFloat} {s : UnpackedFloat.Sign}
    (h : a.compare (.zero s) = some .lt) : sign? a = some .negative := by
  rcases a with (_ | _) | _ | _ | ⟨_ | _, _⟩ <;> first | rfl | cases h

theorem positive_of_compare_zero {a : UnpackedFloat} {s : UnpackedFloat.Sign}
    (h : (UnpackedFloat.zero s).compare a = some .lt) : sign? a = some .positive := by
  rcases a with (_ | _) | _ | _ | ⟨_ | _, _⟩ <;> first | rfl | cases h

variable {x y : Float}

theorem beq_iff : (x == y) = true ↔ x.toModel.unpack.compare y.toModel.unpack = some .eq := by
  show (x.toModel.unpack.compare y.toModel.unpack == some .eq) = true ↔ _
  exact beq_iff_eq

theorem lt_iff_compare : x < y ↔ x.toModel.unpack.compare y.toModel.unpack = some .lt := by
  rw [lt_iff, UnpackedFloat.lt]
  exact beq_iff_eq

theorem beq_self_iff : (x == x) = true ↔ x.toModel.unpack ≠ .notANumber := by
  show (UnpackedFloat.beq _ _) = true ↔ _
  rw [UnpackedFloat.beq_iff_ne_notANumber_and_eq]
  exact ⟨fun h => h.1, fun h => ⟨h, h, Or.inl rfl⟩⟩

theorem unpack_zero : (0.0 : Float).toModel.unpack = .zero .positive := rfl

/-- The topmost bit is the sign. -/
theorem isSigned_eq {s : UnpackedFloat.Sign} (h : sign? x.toModel.unpack = some s) :
    Scalar.isSigned x = isNegative s := by
  have hbits : Binary.ofBits x.toBits.toNat = toBinary x.toModel.unpack := ofFloat_eq x
  show decide (Nat.pow 2 63 ≤ x.toBits.toNat) = isNegative s
  unfold Binary.ofBits at hbits
  revert hbits
  generalize x.toModel.unpack = a at h
  cases a with
  | notANumber | zero => cases h
  | infinity s' =>
    cases h
    intro hbits
    dsimp only [toBinary] at hbits
    split at hbits
    next =>
      split at hbits
      next => exact Binary.infinite.inj hbits
      next => cases hbits
    next => split at hbits <;> cases hbits
  | finite s' m e hm =>
    cases h
    intro hbits
    dsimp only [toBinary] at hbits
    split at hbits
    next => split at hbits <;> cases hbits
    next =>
      split at hbits
      next => exact (Binary.finite.inj hbits).1
      next => exact (Binary.finite.inj hbits).1

end Binary64

instance : Scalar.Signed Float where
  le_of_lt h := by
    rw [Binary64.le_iff, Float.Model.UnpackedFloat.le, Binary64.lt_iff_compare.mp h]
    rfl
  le_or_lt {a b} ha hb := by
    obtain ⟨o, ho⟩ := Binary64.exists_compare (Binary64.beq_self_iff.mp ha)
      (Binary64.beq_self_iff.mp hb)
    rw [Binary64.le_iff, Float.Model.UnpackedFloat.le, ho, Binary64.lt_iff_compare,
      Binary64.compare_swap, ho]
    cases o <;> simp
  beq_self_of_lt h := by
    obtain ⟨ha, hb⟩ := Binary64.ne_notANumber_of_compare (Binary64.lt_iff_compare.mp h)
    exact ⟨Binary64.beq_self_iff.mpr ha, Binary64.beq_self_iff.mpr hb⟩
  beq_self_of_beq h :=
    Binary64.beq_self_iff.mpr (Binary64.ne_notANumber_of_compare (Binary64.beq_iff.mp h)).1
  not_beq_of_lt h := by
    have hlt := Binary64.lt_iff_compare.mp h
    rw [Bool.eq_false_iff, Bool.eq_false_iff, ne_eq, ne_eq, Binary64.beq_iff, Binary64.beq_iff, hlt,
      Binary64.compare_swap, hlt]
    exact ⟨by decide, by decide⟩
  isSigned_of_neg h := by
    have hlt := Binary64.lt_iff_compare.mp h
    rw [Binary64.unpack_zero] at hlt
    exact Binary64.isSigned_eq (Binary64.negative_of_compare_zero hlt)
  isSigned_of_pos h := by
    have hlt := Binary64.lt_iff_compare.mp h
    rw [Binary64.unpack_zero] at hlt
    exact Binary64.isSigned_eq (Binary64.positive_of_compare_zero hlt)

end Patchbay
