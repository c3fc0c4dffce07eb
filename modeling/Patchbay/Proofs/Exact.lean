import Mathlib.Analysis.SpecialFunctions.Pow.Real
import Patchbay.Proofs.Panel
import Patchbay.Proofs.Scalar
/-!
# Exact scalars

Without rounding, scalars compute as the real numbers that they stand for (`Scalar.Exact`). The real
numbers themselves are such scalars (`Reals`).
-/

namespace Patchbay

/-- Scalars that stand for real numbers and are compared and combined as these are. A power is known
for a positive base only. -/
class Scalar.Exact (α : Type) [Scalar α] where
  toReal : α → ℝ
  lt_iff {a b : α} : a < b ↔ toReal a < toReal b
  le_iff {a b : α} : a ≤ b ↔ toReal a ≤ toReal b
  beq_iff {a b : α} : (a == b) = true ↔ toReal a = toReal b
  toReal_add (a b : α) : toReal (a + b) = toReal a + toReal b
  toReal_sub (a b : α) : toReal (a - b) = toReal a - toReal b
  toReal_mul (a b : α) : toReal (a * b) = toReal a * toReal b
  toReal_div (a b : α) : toReal (a / b) = toReal a / toReal b
  toReal_neg (a : α) : toReal (-a) = -toReal a
  toReal_ofScientific (mantissa : Nat) (negative : Bool) (exponent : Nat) :
    toReal (OfScientific.ofScientific mantissa negative exponent) =
      OfScientific.ofScientific mantissa negative exponent
  toReal_pow {base : α} (h : 0 < toReal base) (exponent : α) :
    toReal (pow base exponent) = toReal base ^ toReal exponent
  isFinite_eq (a : α) : isFinite a = true
  isSigned_iff {a : α} : isSigned a = true ↔ toReal a < 0

namespace Scalar.Exact

variable {α : Type} [Scalar α] [Exact α] {a b c : α}

instance : Ordered α where
  le_trans h h' := le_iff.mpr ((le_iff.mp h).trans (le_iff.mp h'))
  not_lt_of_le h hlt := (le_iff.mp h).not_gt (lt_iff.mp hlt)

theorem le_refl (a : α) : a ≤ a := le_iff.mpr le_rfl

theorem le_of_lt (h : a < b) : a ≤ b := le_iff.mpr (lt_iff.mp h).le

theorem lt_of_lt_of_le (h : a < b) (h' : b ≤ c) : a < c :=
  lt_iff.mpr ((lt_iff.mp h).trans_le (le_iff.mp h'))

theorem not_lt_iff : ¬a < b ↔ b ≤ a := by
  rw [lt_iff, le_iff, not_lt]

theorem not_le_iff : ¬a ≤ b ↔ b < a := by
  rw [lt_iff, le_iff, not_le]

@[simp]
theorem toReal_zero : toReal (0.0 : α) = 0 := by
  rw [toReal_ofScientific]
  norm_num

@[simp]
theorem toReal_one : toReal (1.0 : α) = 1 := by
  rw [toReal_ofScientific]
  norm_num

theorem pos_iff : (0.0 : α) < a ↔ 0 < toReal a := by
  rw [lt_iff, toReal_zero]

theorem lt_add (h : (0.0 : α) < b) : a < a + b := by
  rw [lt_iff, toReal_add]
  exact lt_add_of_pos_right _ (pos_iff.mp h)

/-- Half-way between two lies a third. -/
theorem exists_between (h : a < b) : ∃ c, a < c ∧ c < b := by
  have hlt := lt_iff.mp h
  have hmiddle : toReal ((a + b) / (2.0 : α)) = (toReal a + toReal b) / 2 := by
    rw [toReal_div, toReal_add, toReal_ofScientific]
    norm_num
  refine ⟨(a + b) / (2.0 : α), ?_, ?_⟩
  · rw [lt_iff, hmiddle]
    linarith
  · rw [lt_iff, hmiddle]
    linarith

theorem pos_mul (ha : (0.0 : α) < a) (hb : (0.0 : α) < b) : (0.0 : α) < a * b := by
  rw [pos_iff, toReal_mul]
  exact mul_pos (pos_iff.mp ha) (pos_iff.mp hb)

theorem pos_div (ha : (0.0 : α) < a) (hb : (0.0 : α) < b) : (0.0 : α) < a / b := by
  rw [pos_iff, toReal_div]
  exact div_pos (pos_iff.mp ha) (pos_iff.mp hb)

theorem pos_pow (ha : (0.0 : α) < a) (b : α) : (0.0 : α) < pow a b := by
  rw [pos_iff, toReal_pow (pos_iff.mp ha)]
  exact Real.rpow_pos_of_pos (pos_iff.mp ha) _

theorem toReal_ofNat (n : Nat) : toReal (ofNat n : α) = n := by
  rw [ofNat, toReal_ofScientific]
  show ((Rat.ofScientific n false 0 : ℚ) : ℝ) = n
  rw [Rat.ofScientific_false_def, Nat.pow_zero, Nat.mul_one, Rat.cast_natCast]

end Scalar.Exact

/-! ## Standard values -/

section

variable {α : Type} [Scalar α]

open Scalar (Exact)

theorem Profile.fault?_eq_none_iff {p : Profile α} : p.fault? = none ↔
    (∀ entry ∈ p.levels ++ p.lengths, Scalar.isFinite entry.2 = true) ∧
    (∀ entry ∈ p.levels, ¬entry.2 < (0.0 : α)) ∧ ∀ entry ∈ p.lengths, ¬entry.2 ≤ (0.0 : α) := by
  simp [fault?, List.find?_eq_none, or_imp, forall_and]

variable [Exact α]

theorem Profile.fault?_standard : (standard : Profile α).fault? = none := by
  refine fault?_eq_none_iff.mpr ⟨fun _ _ => Exact.isFinite_eq _, ?_, ?_⟩
  · simp only [levels, standard, List.forall_mem_cons, Exact.lt_iff, Exact.toReal_ofScientific]
    norm_num
  · simp only [lengths, standard, List.forall_mem_cons, Exact.le_iff, Exact.toReal_ofScientific]
    norm_num

theorem Control.Domain.accepts_of_toReal {standard x : α} {range : Range α}
    (hlow : Exact.toReal range.low ≤ Exact.toReal x)
    (hhigh : Exact.toReal x ≤ Exact.toReal range.high) :
    (Control.Domain.number standard range).Accepts (.number x) := by
  refine accepts_number_iff.mpr ⟨Exact.isFinite_eq x, not_or.mpr ⟨?_, ?_⟩⟩
  · exact Exact.not_lt_iff.mpr (Exact.le_iff.mpr hlow)
  · exact Exact.not_lt_iff.mpr (Exact.le_iff.mpr hhigh)

omit [Exact α] in
theorem Control.Domain.accepts_of_mem {name : String} {options : List String}
    (h : name ∈ options) : (Control.Domain.choice (α := α) name options).Accepts (.choice name) :=
  accepts_iff.mpr (if_pos h)

theorem Scalar.Exact.le_largest : (1000 : ℝ) ≤ Exact.toReal (Scalar.largest : α) := by
  have hscaled (k : Nat) :
      (1000 : ℝ) ≤ Exact.toReal (Scalar.ofNat ((Nat.pow 2 53 - 1) * Nat.pow 2 k) : α) := by
    have hlow : (1000 : ℝ) ≤ (Nat.pow 2 53 - 1 : Nat) := Nat.ofNat_le_cast.mpr (by decide)
    rw [Exact.toReal_ofNat, Nat.cast_mul]
    exact hlow.trans (le_mul_of_one_le_right (Nat.cast_nonneg _)
      (Nat.one_le_cast.mpr Nat.one_le_two_pow))
  unfold Scalar.largest
  apply hscaled

/-- The standard values lie in their domains, as they are written. -/
instance : StandardsAccepted α where
  accepted k := by
    have hlargest := Exact.le_largest (α := α)
    have hprofile : (Control.Domain.profile (α := α)).Accepts (.profile .standard) := by
      rw [Control.Domain.accepts_iff, Control.Domain.fault?, Profile.fault?_standard,
        Option.map_none]
    have hkey : (Control.Domain.key (α := α) .a).Accepts (.choice Key.a.code) := by
      rw [Control.Domain.accepts_iff, Control.Domain.fault?, Key.ofCode?_code, Option.isSome_some,
        if_pos rfl]
    cases k
    all_goals
      simp only [Kind.controls, Kind.waveformControl, Kind.scaleControl, Kind.profileControl,
        List.forall_mem_cons]
    all_goals
      repeat' apply And.intro
    all_goals
      first
      | exact List.forall_mem_nil _
      | exact hprofile
      | exact Control.Domain.accepts_of_mem (by decide)
      | exact hkey
      | apply Control.Domain.accepts_of_toReal <;>
          simp only [Range.unbounded, Range.atLeast, Kind.leastClip, Exact.toReal_neg,
            Exact.toReal_ofScientific] <;>
          norm_num <;> linarith

theorem Scalar.Exact.greatest_amp {panel : Panel α} (h : panel.Accepted)
    (hkind : panel.kind = .clip) :
    Scalar.greatest (panel.number "amp") Kind.leastClip = panel.number "amp" :=
  h.greatest_amp_of_beq_self hkind fun _ _ => Exact.beq_iff.mpr rfl

end

/-! ## The real numbers -/

/-- The real numbers as scalars. -/
def Reals : Type := ℝ

namespace Reals

open Float.Model (UnpackedFloat)

/-- The number that a binary64 value stands for. What is no number stands for zero. -/
noncomputable def ofUnpacked : UnpackedFloat → ℝ
  | .finite .positive m e _ => m * 2 ^ e
  | .finite .negative m e _ => -(m * 2 ^ e)
  | _ => 0

noncomputable def ofFloat (x : Float) : ℝ := ofUnpacked x.toModel.unpack

/-- A binary64 value than which none is nearer. -/
noncomputable def toFloat (x : ℝ) : Float :=
  Classical.epsilon fun near => ∀ other, |ofFloat near - x| ≤ |ofFloat other - x|

open Classical in
noncomputable instance : Scalar Reals where
  toAdd := inferInstanceAs (Add ℝ)
  toSub := inferInstanceAs (Sub ℝ)
  toMul := inferInstanceAs (Mul ℝ)
  toDiv := inferInstanceAs (Div ℝ)
  toNeg := inferInstanceAs (Neg ℝ)
  toLT := inferInstanceAs (LT ℝ)
  toLE := inferInstanceAs (LE ℝ)
  toOfScientific := inferInstanceAs (OfScientific ℝ)
  beq a b := decide (a = b)
  decLt _ _ := inferInstance
  decLe _ _ := inferInstance
  pow := Real.rpow
  isFinite _ := true
  isSigned (a : ℝ) := decide (a < 0)
  toCount (a : ℝ) := ⌊a⌋₊
  ofFloat := ofFloat
  toFloat := toFloat

noncomputable instance : Scalar.Exact Reals where
  toReal a := a
  lt_iff := Iff.rfl
  le_iff := Iff.rfl
  beq_iff {_ _} := @decide_eq_true_iff _ (Classical.propDecidable _)
  toReal_add _ _ := rfl
  toReal_sub _ _ := rfl
  toReal_mul _ _ := rfl
  toReal_div _ _ := rfl
  toReal_neg _ := rfl
  toReal_ofScientific _ _ _ := rfl
  toReal_pow _ _ := rfl
  isFinite_eq _ := rfl
  isSigned_iff {a} := @decide_eq_true_iff (@LT.lt ℝ _ a 0) (Real.decidableLT a 0)

end Reals

end Patchbay
