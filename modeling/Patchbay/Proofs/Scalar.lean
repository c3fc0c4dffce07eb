import Mathlib.Tactic.Basic
import Patchbay.Scalar
/-!
# The order of scalars

Times are compared, and what is known of them follows from two laws that hold whether or not all
scalars are numbers (`Scalar.Ordered`). For binary64 they are read off the way in which numbers are
written: first the sign and whether the number is zero or infinite, then the exponent, then the
mantissa.
-/

namespace Patchbay

/-- Less or equal is transitive, and excludes greater. -/
class Scalar.Ordered (α : Type) [Scalar α] : Prop where
  le_trans : ∀ {a b c : α}, a ≤ b → b ≤ c → a ≤ c
  not_lt_of_le : ∀ {a b : α}, a ≤ b → ¬b < a

namespace Binary64

open Float.Model (UnpackedFloat)

/-- The place of a number among all numbers: its class, then its exponent, then its mantissa. -/
def place? : UnpackedFloat → Option (Int × Int × Int)
  | .notANumber => none
  | .infinity .negative => some (-2, 0, 0)
  | .finite .negative m e _ => some (-1, -e, -m)
  | .zero _ => some (0, 0, 0)
  | .finite .positive m e _ => some (1, e, m)
  | .infinity .positive => some (2, 0, 0)

/-- Places in the order of their parts. -/
def NotAfter (x y : Int × Int × Int) : Prop :=
  x.1 < y.1 ∨ x.1 = y.1 ∧ (x.2.1 < y.2.1 ∨ x.2.1 = y.2.1 ∧ x.2.2 ≤ y.2.2)

theorem NotAfter.trans {x y z : Int × Int × Int} (h : NotAfter x y) (h' : NotAfter y z) :
    NotAfter x z := by
  unfold NotAfter at *
  omega

/-- Numbers are compared by their places. -/
theorem le_iff_place? (a b : UnpackedFloat) :
    a.le b = true ↔ ∃ x y, place? a = some x ∧ place? b = some y ∧ NotAfter x y := by
  rcases a with (_ | _) | _ | (_ | _) | ⟨_ | _, m, e, _⟩ <;>
    rcases b with (_ | _) | _ | (_ | _) | ⟨_ | _, m', e', _⟩ <;>
    dsimp only [UnpackedFloat.le, UnpackedFloat.compare, place?] <;>
    simp [NotAfter, Ordering.isLE_then_iff_or, Int.compare_eq_lt, Int.compare_eq_gt,
      Nat.isLE_compare, Nat.isGE_compare, Ordering.swap_then] <;>
    rfl

theorem compare_swap (a b : UnpackedFloat) : a.compare b = (b.compare a).map .swap := by
  rcases a with (_ | _) | _ | (_ | _) | ⟨_ | _, m, e, _⟩ <;>
    rcases b with (_ | _) | _ | (_ | _) | ⟨_ | _, m', e', _⟩ <;>
    first
    | rfl
    | dsimp only [UnpackedFloat.compare]
      simp [Ordering.swap_then, Int.compare_swap, Nat.compare_swap]

theorem le_trans {a b c : UnpackedFloat} (h : a.le b = true) (h' : b.le c = true) :
    a.le c = true := by
  obtain ⟨x, y, hx, hy, hxy⟩ := (le_iff_place? a b).mp h
  obtain ⟨y', z, hy', hz, hyz⟩ := (le_iff_place? b c).mp h'
  obtain rfl : y = y' := Option.some.inj (hy.symm.trans hy')
  exact (le_iff_place? a c).mpr ⟨x, z, hx, hz, hxy.trans hyz⟩

theorem not_lt_of_le {a b : UnpackedFloat} (h : a.le b = true) : ¬b.lt a = true := by
  intro hlt
  have hba : b.compare a = some .lt := by simpa [UnpackedFloat.lt] using hlt
  have hab : a.compare b = some .gt := by rw [compare_swap, hba]; rfl
  simp [UnpackedFloat.le, hab] at h

theorem le_iff {a b : Float} : a ≤ b ↔ a.toModel.unpack.le b.toModel.unpack = true :=
  decide_eq_true_iff

theorem lt_iff {a b : Float} : a < b ↔ a.toModel.unpack.lt b.toModel.unpack = true :=
  decide_eq_true_iff

theorem lt_irrefl (x : Float) : ¬x < x := by
  intro hlt
  have hcompare : x.toModel.unpack.compare x.toModel.unpack = some .lt := by
    simpa [UnpackedFloat.lt] using lt_iff.mp hlt
  have hswap := compare_swap x.toModel.unpack x.toModel.unpack
  rw [hcompare] at hswap
  cases hswap

end Binary64

instance : Scalar.Ordered Float where
  le_trans h h' := Binary64.le_iff.mpr (Binary64.le_trans (Binary64.le_iff.mp h)
    (Binary64.le_iff.mp h'))
  not_lt_of_le h hlt := Binary64.not_lt_of_le (Binary64.le_iff.mp h) (Binary64.lt_iff.mp hlt)

end Patchbay
