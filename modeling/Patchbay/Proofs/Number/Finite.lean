import Patchbay.Proofs.Number.Scaling
/-!
# Finite numbers

A result is finite when its exponent is in range before it is rounded, since rounding raises the
exponent by one at most (`isFinite_pack_ofRounded`). So is the reciprocal of a number that is not
too small (`isFinite_one_div`).
-/

namespace Patchbay.Binary64

open Float.Model Float.Model.UnpackedFloat Patchbay.Number Patchbay.Rounding

/-- What is packed with an exponent in range stays finite. -/
theorem isFinite_pack (s : Sign) {m : Nat} {e : Int} (hpos : 0 < m) (hhigh : e ≤ 971) :
    (Float.Model.pack (.finite s m e hpos)).unpack.isFinite = true := by
  -- no exponent that is packed has all bits set
  have hunpack : ∀ (b : BitVec 11) (f : BitVec 52), b ≠ -1#11 →
      (UnpackedFloat.unpack .binary64 (packComponents .binary64 s b f)).isFinite = true := by
    intro b f hb
    unfold UnpackedFloat.unpack
    simp only [unpackMantissa_packComponents, unpackExponent_packComponents]
    rw [if_neg hb]
    split
    · split <;> rfl
    · rfl
  have hbiased : BitVec.ofNat 11 (e + (1023 : Nat) + (52 : Nat)).toNat ≠ -1#11 := fun h => by
    have hexponent := congrArg BitVec.toNat h
    rw [BitVec.toNat_ofNat, Nat.mod_eq_of_lt (by omega), show (-1#11).toNat = 2047 from rfl]
      at hexponent
    omega
  unfold Float.Model.unpack Float.Model.pack UnpackedFloat.pack
  show (UnpackedFloat.unpack .binary64
    (if 2 ^ 11 ≤ (e + (1023 : Nat) + (52 : Nat)).toNat + 1 then _
    else if m.log2 + 1 = 53 then packComponents _ _ _ _
    else packComponents _ _ _ _)).isFinite = true
  rw [if_neg (by omega)]
  split
  · exact hunpack _ _ hbiased
  · exact hunpack _ _ (by decide)

theorem isFinite_pack_ofRounded (s : Sign) (r : Nat) {t : Int} (ht : t ≤ 970) :
    (Float.Model.pack (ofRounded s r t)).unpack.isFinite = true := by
  unfold ofRounded
  split
  next => cases s <;> rfl
  next =>
    split
    next => exact isFinite_pack s _ (by omega)
    next => exact isFinite_pack s _ (by omega)

/-- A number that is not less than a positive one is positive, and its exponent is not less. -/
theorem exists_unpack_of_not_lt {x least : Float} {k : Nat} {e : Int} {hk : 0 < k}
    (hleast : least.toModel.unpack = .finite .positive k e hk) (hfinite : x.isFinite = true)
    (hx : ¬x < least) :
    ∃ m q, ∃ hpos : 0 < m, x.toModel.unpack = .finite .positive m q hpos ∧ e ≤ q := by
  rw [lt_iff, hleast] at hx
  change x.toModel.unpack.isFinite = true at hfinite
  cases hparts : x.toModel.unpack with
  | notANumber => rw [hparts] at hfinite; cases hfinite
  | infinity s => rw [hparts] at hfinite; cases hfinite
  | zero s =>
    rw [hparts] at hx
    exact absurd rfl hx
  | finite s m q hpos =>
    rw [hparts] at hx
    cases s with
    | negative => exact absurd rfl hx
    | positive =>
      refine ⟨m, q, hpos, rfl, by_contra fun hq => hx ?_⟩
      have hcompare : compare q e = .lt := Int.compare_eq_lt.mpr (by omega)
      dsimp only [UnpackedFloat.lt, UnpackedFloat.compare]
      rw [hcompare]
      rfl

/-- The reciprocal of a number that is not too small stays finite. -/
theorem isFinite_one_div {x : Float} {m : Nat} {q : Int} {hpos : 0 < m}
    (hx : x.toModel.unpack = .finite .positive m q hpos) (hfull : m.log2 = 52) (hlow : -200 ≤ q)
    (hhigh : q ≤ 971) : (1.0 / x).isFinite = true := by
  have hone : (1.0 : Float).toModel.unpack = .finite .positive (2 ^ 52) (-52) (by decide) :=
    unpack_eq_of_ofFloat (by decide) _
  obtain ⟨t, ht⟩ : ∃ t : Int, max (-105 - q) (-1074) = t := ⟨_, rfl⟩
  obtain ⟨j, hj⟩ : ∃ j : Nat, -52 - q - t = j := ⟨(-52 - q - t).toNat, by omega⟩
  have hcore : divCore .binary64 (2 ^ 52) (-52) m q =
      (2 ^ 52 * 2 ^ j / m, t, accuracyOfFraction (2 ^ 52 * 2 ^ j % m) m) := by
    have htarget : min (-52 - q) (Format.binary64.targetExponent
        (totalExponent (2 ^ 52) (-52) - totalExponent m q)) = t := by
      have hlog : (2 ^ 52 : Nat).log2 = 52 := by decide
      unfold Format.targetExponent totalExponent
      rw [hfull, hlog]
      show min (-52 - q) (max (((52 : Nat) : Int) + 1 + -52 - ((52 : Nat) + 1 + q) - (53 : Nat))
        (-1074)) = t
      omega
    unfold divCore
    simp only [htarget, hj, Int.toNat_natCast, Nat.shiftLeft_eq]
  obtain ⟨n, hn⟩ : ∃ n, 2 ^ 52 * 2 ^ j / m = n := ⟨_, rfl⟩
  have hlocates := locates_quotient (n := 2 ^ 52 * 2 ^ j) hpos
  rw [hn] at hlocates
  have hm : 2 ^ 52 ≤ m ∧ m < 2 ^ 53 :=
    ⟨hfull ▸ Nat.log2_self_le hpos.ne', (Nat.log2_lt hpos.ne').mp (by omega)⟩
  have hmost : n.log2 ≤ 53 := by
    have hle : n ≤ 2 ^ j := by
      rw [← hn]
      refine Nat.div_le_of_le_mul ?_
      exact Nat.mul_le_mul_right _ hm.1
    have hfew : n < 2 ^ 54 :=
      lt_of_le_of_lt (hle.trans (Nat.pow_le_pow_right (by decide) (by omega : j ≤ 53))) (by decide)
    rcases Nat.eq_zero_or_pos n with rfl | hsome
    · simp
    · exact Nat.le_of_lt_succ ((Nat.log2_lt hsome.ne').mpr hfew)
  -- the quotient has a full mantissa, unless the exponent is the least one
  have hlong : t = -1074 ∨ 52 ≤ n.log2 := by
    refine or_iff_not_imp_left.mpr fun hne => ?_
    obtain rfl : j = 53 := by omega
    have hle : 2 ^ 52 ≤ n := by
      rw [← hn, Nat.le_div_iff_mul_le hpos]
      exact Nat.mul_le_mul_left _ hm.2.le
    exact (Nat.le_log2 (by omega)).mpr hle
  obtain ⟨r, -, -, hround⟩ := roundWithAccuracy_eq .positive hlocates (e := t) rfl (by omega)
  show (Float.Model.pack (UnpackedFloat.div .binary64 (1.0 : Float).toModel.unpack
    x.toModel.unpack)).unpack.isFinite = true
  rw [hone, hx]
  show (Float.Model.pack (roundWithAccuracy .binary64 .positive
    (divCore .binary64 (2 ^ 52) (-52) m q).1
    (divCore .binary64 (2 ^ 52) (-52) m q).2.1
    (divCore .binary64 (2 ^ 52) (-52) m q).2.2)).unpack.isFinite = true
  rw [hcore, hn, hround]
  exact isFinite_pack_ofRounded .positive r (by omega)

end Patchbay.Binary64
