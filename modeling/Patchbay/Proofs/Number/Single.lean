import Patchbay.Proofs.Number.Formats
/-!
# Single precision

Samples are binary32 numbers. With a full mantissa and an exponent in range nothing is lost when one
is packed, and a product with a power of two or a quotient by one only moves the exponent
(`unpack_mul_two_pow`, `unpack_div_two_pow`). What is less than one before it is rounded is less
than one or one itself afterwards (`round_inner`), so a number below two stays between both when one
is taken away (`inner_sub_one`).
-/

namespace Patchbay.Binary32

open Float.Model Float.Model.UnpackedFloat Patchbay.Rounding

variable {x y : Float32} {s : Sign} {m : Nat} {q c : Int} {hpos : 0 < m}

theorem lt_iff : x < y ↔ x.toModel.unpack.compare y.toModel.unpack = some .lt := by
  have hlt : x < y ↔ x.toModel.unpack.lt y.toModel.unpack = true := decide_eq_true_iff
  rw [hlt, UnpackedFloat.lt, beq_iff_eq]

theorem le_iff : x ≤ y ↔ x.toModel.unpack.le y.toModel.unpack = true := decide_eq_true_iff

theorem le_of_lt (h : x < y) : x ≤ y := by
  rw [le_iff, UnpackedFloat.le, lt_iff.mp h]
  rfl

/-- A number whose mantissa fills its bits and whose exponent is in range is packed without loss. -/
theorem unpack_pack (hm : m.log2 = 23) (hlow : -149 ≤ q) (hhigh : q ≤ 104) :
    (Float32.Model.pack (.finite s m q hpos)).unpack = .finite s m q hpos := by
  refine unpack_pack_full .binary32 s (congrArg (· + 1) hm) hlow ?_ hpos
  show q + (23 : Nat) < 128
  omega

/-! ## Powers of two -/

theorem unpack_mul_two_pow (hx : x.toModel.unpack = .finite s m q hpos) (hm : m.log2 = 23)
    (hy : y.toModel.unpack = .finite .positive (2 ^ 23) c (by decide)) (hlow : -149 ≤ q + c + 23)
    (hhigh : q + c + 23 ≤ 104) :
    (x * y).toModel.unpack = .finite s m (q + c + 23) hpos := by
  have hsign : s * .positive = s := by cases s <;> rfl
  have hround := roundWithAccuracy_exact .binary32 s (congrArg (· + 1) hm) hlow hpos 23
  rw [show q + c + 23 - ((23 : Nat) : Int) = q + c by omega] at hround
  show (Float32.Model.pack (UnpackedFloat.mul .binary32 x.toModel.unpack
    y.toModel.unpack)).unpack = _
  rw [hx, hy, UnpackedFloat.mul, hsign, hround, unpack_pack hm hlow hhigh]

theorem divCore_two_pow (hm : m.log2 = 23) (hlow : -125 ≤ q - c) :
    divCore .binary32 m q (2 ^ 23) c = (m * 2 ^ 1, q - c - 24, .exact) := by
  have htarget : min (q - c) (Format.binary32.targetExponent
      (totalExponent m q - totalExponent (2 ^ 23) c)) = q - c - 24 := by
    unfold Format.targetExponent totalExponent
    rw [hm, Nat.log2_two_pow]
    show min (q - c) (max (((23 : Nat) : Int) + 1 + q - ((23 : Nat) + 1 + c) - (24 : Nat)) (-149)) =
      q - c - 24
    omega
  have hdouble : m * 2 ^ 24 = m * 2 ^ 1 * 2 ^ 23 := by ring
  unfold divCore
  simp only [htarget, show (q - c - (q - c - 24)).toNat = 24 by omega, Nat.shiftLeft_eq, hdouble,
    Nat.mul_div_cancel _ (Nat.two_pow_pos 23), Nat.mul_mod_left]
  rfl

theorem unpack_div_two_pow (hx : x.toModel.unpack = .finite s m q hpos) (hm : m.log2 = 23)
    (hy : y.toModel.unpack = .finite .positive (2 ^ 23) c (by decide)) (hlow : -125 ≤ q - c)
    (hhigh : q - c ≤ 127) :
    (x / y).toModel.unpack = .finite s m (q - c - 23) hpos := by
  have hsign : s / .positive = s := by cases s <;> rfl
  have hleast : -149 ≤ q - c - 23 := by omega
  have hround := roundWithAccuracy_exact .binary32 s (congrArg (· + 1) hm) hleast hpos 1
  rw [show q - c - 23 - ((1 : Nat) : Int) = q - c - 24 by omega] at hround
  show (Float32.Model.pack (UnpackedFloat.div .binary32 x.toModel.unpack
    y.toModel.unpack)).unpack = _
  rw [hx, hy]
  simp only [UnpackedFloat.div, divCore_two_pow hm hlow]
  rw [hsign, hround, unpack_pack hm hleast (by omega)]

/-! ## Between minus one and one -/

/-- At least minus one and less than one. -/
def Inner : UnpackedFloat → Prop
  | .zero _ => True
  | .finite .positive _ q _ => q ≤ -24
  | .finite .negative m q _ => q ≤ -24 ∨ q = -23 ∧ m = 2 ^ 23
  | .notANumber | .infinity _ => False

theorem unpack_one :
    (1.0 : Float32).toModel.unpack = .finite .positive (2 ^ 23) (-23) (by decide) :=
  rfl

theorem unpack_neg_one :
    (-1.0 : Float32).toModel.unpack = .finite .negative (2 ^ 23) (-23) (by decide) := rfl

/-- A number is less than one when its exponent is. -/
theorem lt_one (h : Inner x.toModel.unpack) : x < 1.0 := by
  rw [lt_iff, unpack_one]
  rcases hx : x.toModel.unpack with _ | _ | _ | ⟨_ | _, m, q, _⟩ <;> rw [hx] at h
  · cases h
  · cases h
  · rfl
  · rfl
  · have hless : compare q (-23) = .lt := Int.compare_eq_lt.mpr (by have : q ≤ -24 := h; omega)
    simp only [UnpackedFloat.compare, hless, Ordering.lt_then]

theorem neg_one_le (h : Inner x.toModel.unpack) : -1.0 ≤ x := by
  rw [le_iff, unpack_neg_one]
  rcases hx : x.toModel.unpack with _ | _ | _ | ⟨_ | _, m, q, _⟩ <;> rw [hx] at h
  · cases h
  · cases h
  · rfl
  · rcases h with hless | ⟨rfl, rfl⟩
    · have hmore : compare (-23) q = .gt := Int.compare_eq_gt.mpr (by omega)
      simp only [UnpackedFloat.le, UnpackedFloat.compare, hmore]
      rfl
    · rfl
  · rfl

/-- What is less than one in magnitude is rounded to what is not more. -/
theorem round_inner (hm : 0 < m) (hlow : -100 ≤ q) (hless : (m.log2 : Int) + q ≤ -1) :
    Inner (Float32.Model.pack (UnpackedFloat.round .binary32 .negative m q)).unpack := by
  obtain ⟨M, Q, hpos, hround, hfull, hexponent, -⟩ := round_full .binary32 .negative (e := q) hm rfl
    (show (-149 : Int) ≤ (m.log2 : Int) + 1 - (24 : Nat) + q by omega)
  have hexponent' : Q = (m.log2 : Int) + 1 - (24 : Nat) + q ∨
    Q = (m.log2 : Int) + 1 - (24 : Nat) + q + 1 ∧ M = 2 ^ 23 := hexponent
  rw [hround, unpack_pack (Nat.succ_injective hfull) (by omega) (by omega)]
  show Q ≤ -24 ∨ Q = -23 ∧ M = 2 ^ 23
  omega

/-- One taken away from a number below two. -/
theorem inner_sub_one (hx : x.toModel.unpack = .finite .positive m q hpos) (hm : m.log2 = 23)
    (hlow : -60 ≤ q) (hhigh : q ≤ -23) : Inner (x - 1.0).toModel.unpack := by
  obtain ⟨j, hj⟩ : ∃ j : Nat, q = -23 - j := ⟨(-23 - q).toNat, by omega⟩
  have hbound : 2 ^ 23 ≤ m ∧ m < 2 ^ 24 := (Nat.log2_eq_iff hpos.ne').mp hm
  have hdifference : (x - 1.0).toModel = Float32.Model.pack
      (UnpackedFloat.normalize .binary32 ((m : Int) - (2 ^ 23 * 2 ^ j : Nat)) q .positive) := by
    show Float32.Model.pack (UnpackedFloat.sub .binary32 x.toModel.unpack
      (1.0 : Float32).toModel.unpack) = _
    rw [hx, unpack_one]
    simp only [UnpackedFloat.sub, decreaseExponent, show min q (-23) = q by omega, Int.sub_self,
      show (-23 - q).toNat = j by omega, Nat.shiftLeft_eq, Sign.apply]
    simp
  rw [hdifference]
  rcases Nat.eq_zero_or_pos j with rfl | hsome
  · obtain rfl : q = -23 := by omega
    rcases Nat.eq_or_lt_of_le hbound.1 with rfl | hmore
    · trivial
    · -- nothing is lost in a difference that keeps the unit of the last place
      obtain ⟨d, rfl⟩ : ∃ d, m = 2 ^ 23 + (d + 1) := ⟨m - 2 ^ 23 - 1, by omega⟩
      have hne : d + 1 ≠ 0 := Nat.succ_ne_zero d
      have hlog : (d + 1).log2 < 23 := (Nat.log2_lt hne).mpr (by omega)
      obtain ⟨k, hk⟩ : ∃ k, (d + 1).log2 + (k + 1) + 1 = 24 := ⟨22 - (d + 1).log2, by omega⟩
      have hround := round_exact .binary32 .positive (e := -23) (Nat.succ_pos d) hk
        (show (-149 : Int) ≤ -23 - (k + 1 : Nat) by omega)
      have hfull : ((d + 1) * 2 ^ (k + 1)).log2 = 23 := by
        rw [log2_mul_two_pow hne]
        omega
      rw [show ((2 ^ 23 + (d + 1) : Nat) : Int) - (2 ^ 23 * 2 ^ 0 : Nat) = (d + 1 : Nat) by omega,
        normalize_pos _ (Nat.succ_pos d), hround, unpack_pack hfull (by omega) (by omega)]
      show -23 - ((k + 1 : Nat) : Int) ≤ -24
      omega
  · have hfew : m < 2 ^ 23 * 2 ^ j := by
      calc m < 2 ^ 23 * 2 := hbound.2
        _ ≤ 2 ^ 23 * 2 ^ j := Nat.mul_le_mul_left _ (Nat.le_self_pow hsome.ne' 2)
    obtain ⟨d, hd⟩ : ∃ d, 2 ^ 23 * 2 ^ j = m + (d + 1) := ⟨2 ^ 23 * 2 ^ j - m - 1, by omega⟩
    have hne : d + 1 ≠ 0 := Nat.succ_ne_zero d
    have hlog : (d + 1).log2 < 23 + j := by
      refine (Nat.log2_lt hne).mpr ?_
      rw [Nat.pow_add, hd]
      omega
    rw [hd, show (m : Int) - (m + (d + 1) : Nat) = -(d + 1 : Nat) by omega,
      normalize_neg _ (Nat.succ_pos d)]
    exact round_inner (m := d + 1) (Nat.succ_pos d) (by omega) (by omega)

end Patchbay.Binary32
