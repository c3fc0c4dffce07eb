import Patchbay.Number.Nearest
import Patchbay.Proofs.Number.Scaling
/-!
# Decimals read

A decimal is read as the number nearest to it: one that lies in the rounding interval of a number is
read as that number, whatever its digits and its exponent (`unpack_decimal_of_holds`). Few digits
and a small power of ten are exact, so that their product or quotient is rounded once. All others
are scaled in whole numbers first. A quotient can be too small for a full mantissa, and may have no
bits left but the residual ones (`roundWithAccuracy_of_holds_least`).
-/

namespace Patchbay.Binary64

open Float.Model Float.Model.UnpackedFloat Patchbay.Number Patchbay.Rounding

/-! ## The least exponent -/

/-- With the least exponent a mantissa that does not fill its bits is packed without loss. -/
theorem unpack_pack_least (s : Sign) {m : Nat} (hm : m < 2 ^ 52) (hpos : 0 < m) :
    (Float.Model.pack (.finite s m (-1074) hpos)).unpack = .finite s m (-1074) hpos := by
  have hlog : m.log2 + 1 ≠ 53 := by
    have := (Nat.log2_lt hpos.ne').mpr hm
    omega
  have hmantissa : (BitVec.ofNat 52 m).toNat = m := by
    rw [BitVec.toNat_ofNat, Nat.mod_eq_of_lt hm]
  have hsome : ¬BitVec.ofNat 52 m = 0#52 := fun h => by
    rw [h] at hmantissa
    exact hpos.ne hmantissa
  unfold Float.Model.unpack Float.Model.pack UnpackedFloat.pack
  show UnpackedFloat.unpack .binary64
    (if 2 ^ 11 ≤ ((-1074 : Int) + (1023 : Nat) + (52 : Nat)).toNat + 1 then _
    else if m.log2 + 1 = 53 then _
    else packComponents _ _ (0#11) _) = _
  rw [if_neg (by decide), if_neg hlog]
  unfold UnpackedFloat.unpack
  simp only [unpackMantissa_packComponents, unpackExponent_packComponents]
  rw [unpackSign_packComponents, Sign.ofBitVec_toBitVec, if_neg (by decide),
    if_pos trivial, dif_neg hsome]
  congr 1

/-- A number written in the one way that numbers are written is packed without loss. -/
theorem unpack_pack_canonical (s : Sign) {m : Nat} {q : Int} (hpos : 0 < m) (hbits : m < 2 ^ 53)
    (hlow : -1074 ≤ q) (hhigh : q ≤ 971) (hfull : q = -1074 ∨ 2 ^ 52 ≤ m) :
    (Float.Model.pack (.finite s m q hpos)).unpack = .finite s m q hpos := by
  rcases Nat.lt_or_ge m (2 ^ 52) with hless | hmore
  · obtain rfl := hfull.resolve_right (by omega)
    exact unpack_pack_least s hless hpos
  · exact unpack_pack s (log2_eq_of_full hmore hbits) hlow hhigh hpos

/-- The negation of a number differs from it in the sign. -/
theorem ofFloat_neg {y : Float} {m : Nat} {q : Int} {hpos : 0 < m} (hbits : m < 2 ^ 53)
    (hlow : -1074 ≤ q) (hhigh : q ≤ 971) (hfull : q = -1074 ∨ 2 ^ 52 ≤ m)
    (h : y.toModel.unpack = .finite .positive m q hpos) :
    Binary.ofFloat (-y) = .finite true m q := by
  rw [ofFloat_eq]
  show toBinary (Float.Model.pack y.toModel.unpack.neg).unpack = _
  rw [h]
  show toBinary (Float.Model.pack (.finite .negative m q hpos)).unpack = _
  rw [unpack_pack_canonical .negative hpos hbits hlow hhigh hfull]
  rfl

/-- Where no bit of a mantissa is left, the residual bits decide whether the least number is meant.
-/
theorem roundWithAccuracy_of_holds_least (s : Sign) {accuracy : Accuracy} {x : ℚ}
    (hx : Locates (ExtendedMantissa.ofMantissaAndAccuracy 0 accuracy) x) {M : Nat} {Q : Int}
    (hpos : 0 < M) (hbits : M < 2 ^ 53) (hlow : -1074 ≤ Q)
    (hholds : (Shortest.interval M Q).Holds (Q - 2) (x * 2 ^ (-1074 : Int))) :
    roundWithAccuracy .binary64 s 0 (-1074) accuracy = .finite s M Q hpos := by
  have hless : x < 1 := by
    have hbound := hx.bounds.2
    rwa [mantissa_ofMantissaAndAccuracy, Nat.cast_zero, zero_add] at hbound
  have hnonneg : 0 ≤ x := by
    have hbound := hx.bounds.1
    rwa [mantissa_ofMantissaAndAccuracy, Nat.cast_zero] at hbound
  obtain ⟨d, rfl⟩ : ∃ d : Nat, Q = -1074 + d := ⟨(Q + 1074).toNat, by omega⟩
  have hscale : x * 2 ^ (-1074 : Int) = x / 2 ^ d * 2 ^ (-1074 + (d : Int)) := by
    rw [zpow_add₀ (by norm_num), zpow_natCast]
    field_simp
  rw [hscale] at hholds
  obtain ⟨hM, -⟩ := nearestEven_of_holds hholds
  -- a greater exponent would leave less than half a unit
  obtain rfl : d = 0 := by
    by_contra hd
    have hhalf : x / 2 ^ d < 1 / 2 := by
      have htwo : (2 : ℚ) ≤ 2 ^ d := by
        calc (2 : ℚ) = 2 ^ 1 := (pow_one _).symm
          _ ≤ 2 ^ d := pow_le_pow_right₀ (by norm_num) (Nat.pos_of_ne_zero hd)
      rw [div_lt_iff₀ (by positivity)]
      linarith
    have hone : (1 : ℚ) ≤ M := by exact_mod_cast hpos
    linarith [hM.bounds.1]
  rw [pow_zero, div_one] at hM
  obtain ⟨r, hr, -, hround⟩ := roundWithAccuracy_eq s hx (e := -1074) (t := -1074) rfl le_rfl
  rw [mul_div_cancel_right₀ _ (zpow_ne_zero _ (by norm_num))] at hr
  obtain rfl := hr.unique hM
  rw [hround, ofRounded, dif_neg hpos.ne', if_pos hbits]
  rfl

/-- A quotient that is scaled in whole numbers is rounded once, however small it is. -/
theorem unpack_div_one_of_holds {n d : Nat} (hn : 0 < n) (hd : 0 < d) {M : Nat} {Q : Int}
    (hpos : 0 < M) (hbits : M < 2 ^ 53) (hlow : -1074 ≤ Q) (hhigh : Q ≤ 971)
    (hfull : Q = -1074 ∨ 2 ^ 52 ≤ M) (hholds : (Shortest.interval M Q).Holds (Q - 2) (n / d)) :
    (Float.Model.pack (UnpackedFloat.div .binary64 (.finite .positive n 0 hn)
      (.finite .positive d 0 hd))).unpack = .finite .positive M Q hpos := by
  obtain ⟨t, ht⟩ : ∃ t : Int, min 0 (max ((n.log2 : Int) - d.log2 - 53) (-1074)) = t := ⟨_, rfl⟩
  obtain ⟨j, rfl⟩ : ∃ j : Nat, t = -j := ⟨(-t).toNat, by omega⟩
  have hcore : divCore .binary64 n 0 d 0 =
      (n * 2 ^ j / d, -(j : Int), accuracyOfFraction (n * 2 ^ j % d) d) := by
    have htarget : min ((0 : Int) - 0) (Format.binary64.targetExponent
        (totalExponent n 0 - totalExponent d 0)) = -j := by
      rw [← ht]
      unfold Format.targetExponent totalExponent
      show min ((0 : Int) - 0)
          (max ((n.log2 : Int) + 1 + 0 - (d.log2 + 1 + 0) - (53 : Nat)) (-1074))
        = _
      congr 2
      push_cast
      ring
    unfold divCore
    simp only [htarget, show ((0 : Int) - 0 - -(j : Int)).toNat = j by omega, Nat.shiftLeft_eq]
  have hlocates := locates_quotient (n := n * 2 ^ j) hd
  have hvalue : ((n * 2 ^ j : Nat) : ℚ) / d * 2 ^ (-(j : Int)) = n / d := by
    rw [zpow_neg, zpow_natCast]
    push_cast
    field_simp
  rw [← hvalue] at hholds
  show (Float.Model.pack (roundWithAccuracy .binary64 .positive (divCore .binary64 n 0 d 0).1
    (divCore .binary64 n 0 d 0).2.1 (divCore .binary64 n 0 d 0).2.2)).unpack = _
  rw [hcore]
  suffices hround : roundWithAccuracy .binary64 .positive (n * 2 ^ j / d) (-(j : Int))
      (accuracyOfFraction (n * 2 ^ j % d) d) = .finite .positive M Q hpos by
    rw [hround, unpack_pack_canonical .positive hpos hbits hlow hhigh hfull]
  -- the quotient has a full mantissa, unless the exponent is the least one
  have hlong : j = 1074 ∨ 2 ^ 52 ≤ n * 2 ^ j / d := by
    refine or_iff_not_imp_left.mpr fun hj => (Nat.le_div_iff_mul_le hd).mpr ?_
    calc 2 ^ 52 * d ≤ 2 ^ 52 * 2 ^ (d.log2 + 1) := Nat.mul_le_mul_left _ Nat.lt_log2_self.le
      _ = 2 ^ (d.log2 + 53) := by rw [← Nat.pow_add]; congr 1; omega
      _ ≤ 2 ^ (n.log2 + j) := Nat.pow_le_pow_right (by decide) (by omega)
      _ = 2 ^ n.log2 * 2 ^ j := Nat.pow_add _ _ _
      _ ≤ n * 2 ^ j := Nat.mul_le_mul_right _ (Nat.log2_self_le hn.ne')
  rcases Nat.eq_zero_or_pos (n * 2 ^ j / d) with hzero | hsome
  · have hleast : -(j : Int) = -1074 := by omega
    rw [hleast] at hholds ⊢
    rw [hzero] at hlocates ⊢
    exact roundWithAccuracy_of_holds_least .positive hlocates hpos hbits hlow hholds
  · refine roundWithAccuracy_of_holds .positive hlocates hsome.ne' ?_ hpos hbits hlow hfull hholds
    rcases hlong with hleast | hlong
    · omega
    · have := (Nat.le_log2 hsome.ne').mpr hlong
      omega

/-! ## Decimals in scientific form -/

section

variable {n k : Nat} {M : Nat} {Q : Int}

/-- Numbers near one have full mantissas. -/
theorem log2_eq_of_holds {m : Nat} {q : Int} (hbits : m < 2 ^ 53) (hfull : q = -1074 ∨ 2 ^ 52 ≤ m)
    {x : ℚ} (hx : (10 : ℚ) ^ (-22 : Int) ≤ x) (hholds : (Shortest.interval m q).Holds (q - 2) x) :
    m.log2 = 52 := by
  refine log2_eq_of_full (by_contra fun hless => ?_) hbits
  obtain rfl : q = -1074 := hfull.resolve_right hless
  have hmantissa : (m : ℚ) + 1 ≤ 2 ^ (52 : Int) := by
    have : m + 1 ≤ 2 ^ 52 := by omega
    exact_mod_cast this
  have hbelow : x < 10 ^ (-22 : Int) :=
    calc x ≤ (m + 1 / 2) * 2 ^ (-1074 : Int) := hholds.le
      _ < 2 ^ (52 : Int) * 2 ^ (-1074 : Int) := by
        refine mul_lt_mul_of_pos_right ?_ (zpow_pos (by norm_num) _)
        linarith only [hmantissa]
      _ = 2 ^ (-1022 : Int) := by rw [← zpow_add₀ (by norm_num)]; rfl
      _ ≤ 10 ^ (-22 : Int) := Shortest.two_zpow_le (by omega) (by omega)
  exact absurd hx hbelow.not_ge

/-- A power of ten in range is in the table. -/
theorem le_of_tenPow_lt {k : Nat} (h : (10 : ℚ) ^ k < 2 ^ 53 * 2 ^ (971 : Int)) : k ≤ 308 := by
  by_contra hmany
  -- the power is kept from being evaluated
  obtain ⟨p, hp⟩ : ∃ p : Nat, p = 1024 := ⟨_, rfl⟩
  have hpower : 2 ^ p ≤ 10 ^ k := by
    rw [hp]
    exact Nat.le_trans (by decide +kernel)
      (Nat.pow_le_pow_right (by decide) (Nat.lt_of_not_le hmany))
  have hpower : (2 : ℚ) ^ p ≤ 10 ^ k := by exact_mod_cast hpower
  rw [← zpow_natCast, show (p : Int) = (53 : Nat) + 971 by omega, zpow_add₀ (by norm_num),
    zpow_natCast] at hpower
  exact absurd h hpower.not_gt

theorem powersOfTen_eq : ∀ k : Fin 23,
    Float.exactlyRepresentablePowersOfTen[k.val] = Float.ofScientific 1 false k.val := by
  decide

/-- A decimal whose power of ten is not below one is read as the number that it rounds to. -/
theorem unpack_ofScientific_of_holds (hn : 0 < n) (hk : k ≤ 308) (hpos : 0 < M)
    (hbits : M < 2 ^ 53) (hlow : -1074 ≤ Q) (hhigh : Q ≤ 971) (hfull : Q = -1074 ∨ 2 ^ 52 ≤ M)
    (hholds : (Shortest.interval M Q).Holds (Q - 2) (n * 10 ^ k)) :
    (Float.ofScientific n false k).toModel.unpack = .finite .positive M Q hpos := by
  have hone : (1 : ℚ) ≤ n * 10 ^ k := by
    have hnat : 1 ≤ n * 10 ^ k := Nat.mul_pos hn (Nat.pow_pos (by decide))
    exact_mod_cast hnat
  have hlog : M.log2 = 52 := log2_eq_of_holds hbits hfull
    ((zpow_le_one_of_nonpos₀ (by norm_num) (by norm_num)).trans hone) hholds
  by_cases hfast : n < 2 ^ 53 ∧ k ≤ 22
  · have hproduct : Float.ofScientific n false k =
        n.toUInt64.toFloat * Float.ofScientific 1 false k := by
      rw [← powersOfTen_eq ⟨k, Nat.lt_succ_of_le hfast.2⟩, Float.ofScientific, dif_pos hfast]
      rfl
    rw [hproduct]
    exact unpack_mul_of_holds (hasValue_toFloat hn hfast.1) (hasValue_tenPow hfast.2) hlog hlow
      hhigh hholds
  · obtain ⟨w, hw⟩ : ∃ w, n * 2 ^ 53 * 10 ^ k = w := ⟨_, rfl⟩
    have hvalue : (w : ℚ) * 2 ^ (-53 : Int) = n * 10 ^ k := by
      rw [← hw, zpow_neg]
      push_cast
      norm_num
      ring
    have hlong : 2 ^ 53 ≤ w := by
      calc 2 ^ 53 = 1 * 2 ^ 53 * 1 := by ring
        _ ≤ n * 2 ^ 53 * 10 ^ k :=
          Nat.mul_le_mul (Nat.mul_le_mul_right _ hn) (Nat.pow_pos (by decide))
        _ = w := hw
    have hsome : w ≠ 0 := by omega
    have hlogw := (Nat.le_log2 hsome).mpr hlong
    rw [← hvalue] at hholds
    rw [unpack_ofScientific hn hfast hk, hw, roundWithAccuracy_of_holds .positive (locates_exact w)
      hsome (by omega) hpos hbits hlow hfull hholds, unpack_pack .positive hlog hlow hhigh]

/-- What rounds to a number other than zero is at least half of the least one. -/
theorem le_of_holds (hpos : 0 < M) (hlow : -1074 ≤ Q) {x : ℚ}
    (hholds : (Shortest.interval M Q).Holds (Q - 2) x) : (2 : ℚ) ^ (-1075 : Int) ≤ x := by
  have hfew : (2 : ℚ) ≤ (Shortest.interval M Q).low := by
    have hnat : 2 ≤ (Shortest.interval M Q).low := by
      simp only [Shortest.interval]
      split <;> omega
    exact_mod_cast hnat
  have hunit : (2 : ℚ) ^ (-1075 : Int) ≤ (Shortest.interval M Q).low * 2 ^ (Q - 2) := by
    calc (2 : ℚ) ^ (-1075 : Int) ≤ 2 ^ (1 + (Q - 2)) :=
          zpow_le_zpow_right₀ (by norm_num) (by omega)
      _ = 2 * 2 ^ (Q - 2) := by rw [zpow_add₀ (by norm_num), zpow_one]
      _ ≤ _ := mul_le_mul_of_nonneg_right hfew (zpow_pos (by norm_num) _).le
  unfold Shortest.Interval.Holds at hholds
  split at hholds
  next => exact hunit.trans hholds.1
  next => exact hunit.trans hholds.1.le

/-- Beyond the table of exact powers a decimal is divided and rounded once. -/
theorem unpack_ofScientific_down (hn : 0 < n) (hslow : ¬(n < 2 ^ 53 ∧ k ≤ 22)) (hk : 0 < k)
    (hsmall : k ≤ n.log2 + 1075) : (Float.ofScientific n true k).toModel.unpack =
      (Float.Model.pack (UnpackedFloat.div .binary64 (.finite .positive n 0 hn)
        (.finite .positive (10 ^ k) 0 (Nat.pow_pos (by decide))))).unpack := by
  have hexponent : Int.negOfNat k = -(k : Int) := by
    obtain ⟨j, rfl⟩ := Nat.exists_eq_succ_of_ne_zero hk.ne'
    rfl
  have hlarge : ¬-(k : Int) > 2 ^ Format.binary64.exponentBits := by
    show ¬-(k : Int) > 2 ^ 11
    omega
  have htiny : ¬-(k : Int) < -((2 ^ Format.binary64.exponentBits : Int) + n.log2) := by
    show ¬-(k : Int) < -((2 ^ 11 : Int) + n.log2)
    omega
  unfold Float.ofScientific
  rw [dif_neg hslow]
  show (Float.Model.pack (UnpackedFloat.ofScientific .binary64 n (Int.negOfNat k))).unpack = _
  unfold UnpackedFloat.ofScientific
  rw [hexponent, dif_neg hn.ne', if_neg hlarge, if_neg htiny, if_neg (by omega)]
  simp only [neg_neg, Int.toNat_natCast]

/-- A decimal whose power of ten is below one is read as the number that it rounds to. -/
theorem unpack_ofScientific_down_of_holds (hn : 0 < n) (hk : 0 < k) (hpos : 0 < M)
    (hbits : M < 2 ^ 53) (hlow : -1074 ≤ Q) (hhigh : Q ≤ 971) (hfull : Q = -1074 ∨ 2 ^ 52 ≤ M)
    (hholds : (Shortest.interval M Q).Holds (Q - 2) (n / 10 ^ k)) :
    (Float.ofScientific n true k).toModel.unpack = .finite .positive M Q hpos := by
  have hleast := le_of_holds hpos hlow hholds
  have hten : (0 : ℚ) < 10 ^ k := by positivity
  by_cases hfast : n < 2 ^ 53 ∧ k ≤ 22
  · have hquotient : Float.ofScientific n true k =
        n.toUInt64.toFloat / Float.ofScientific 1 false k := by
      rw [← powersOfTen_eq ⟨k, Nat.lt_succ_of_le hfast.2⟩, Float.ofScientific, dif_pos hfast]
      rfl
    have hplaces : (10 : ℚ) ^ k ≤ 10 ^ 22 := pow_le_pow_right₀ (by norm_num) hfast.2
    have hnear : (10 : ℚ) ^ (-22 : Int) ≤ n / 10 ^ k := by
      have hone : (1 : ℚ) ≤ n := by exact_mod_cast hn
      calc (10 : ℚ) ^ (-22 : Int) ≤ 1 / 10 ^ 22 := by norm_num
        _ ≤ 1 / 10 ^ k := one_div_le_one_div_of_le hten hplaces
        _ ≤ n / 10 ^ k := div_le_div_of_nonneg_right hone hten.le
    have hlog : M.log2 = 52 := log2_eq_of_holds hbits hfull hnear hholds
    rw [hquotient]
    exact unpack_div_of_holds (hasValue_toFloat hn hfast.1) (hasValue_tenPow hfast.2) hplaces hlog
      hlow hhigh hholds
  · have hsmall : k ≤ n.log2 + 1075 := by
      have hbelow : (n : ℚ) < 2 ^ (n.log2 + 1) := by exact_mod_cast Nat.lt_log2_self (n := n)
      have hpower : (2 : ℚ) ^ (k : Int) < 2 ^ (((n.log2 + 1 : Nat) : Int) + 1075) := by
        have hscaled : (10 : ℚ) ^ k ≤ n * 2 ^ (1075 : Int) := by
          rw [zpow_neg] at hleast
          exact (inv_mul_le_iff₀' (zpow_pos (by norm_num) _)).mp ((le_div_iff₀ hten).mp hleast)
        calc (2 : ℚ) ^ (k : Int) ≤ 10 ^ k := by
              rw [zpow_natCast]
              exact pow_le_pow_left₀ (by norm_num) (by norm_num) k
          _ ≤ n * 2 ^ (1075 : Int) := hscaled
          _ < 2 ^ (n.log2 + 1) * 2 ^ (1075 : Int) :=
            mul_lt_mul_of_pos_right hbelow (zpow_pos (by norm_num) _)
          _ = 2 ^ (((n.log2 + 1 : Nat) : Int) + 1075) := by
            rw [zpow_add₀ (by norm_num), zpow_natCast]
      have := (zpow_lt_zpow_iff_right₀ (by norm_num : (1 : ℚ) < 2)).mp hpower
      omega
    rw [unpack_ofScientific_down hn hfast hk hsmall]
    refine unpack_div_one_of_holds hn _ hpos hbits hlow hhigh hfull ?_
    push_cast
    exact hholds

end

/-! ## Reading -/

section

variable {d : Decimal}

/-- A decimal is between the powers of ten around its first digit. -/
theorem order_bounds (hd : d.digits ≠ 0) :
    (10 : ℚ) ^ d.order ≤ d.value ∧ d.value < 10 ^ (d.order + 1) := by
  obtain ⟨l, hl⟩ : ∃ l, (Nat.toDigits 10 d.digits).length = l + 1 :=
    Nat.exists_eq_succ_of_ne_zero Nat.length_toDigits_pos.ne'
  have hbelow : d.digits < 10 ^ (l + 1) :=
    (Nat.length_toDigits_le_iff (by decide) (Nat.succ_pos l)).mp hl.le
  have habove : 10 ^ l ≤ d.digits := by
    rcases Nat.eq_zero_or_pos l with rfl | hpos
    · exact Nat.pos_of_ne_zero hd
    · rw [← not_lt, ← Nat.length_toDigits_le_iff (by decide) hpos, hl]
      omega
  have hten : (0 : ℚ) < 10 ^ d.exponent := zpow_pos (by norm_num) _
  have hbelow : (d.digits : ℚ) < 10 ^ (l + 1) := by exact_mod_cast hbelow
  have habove : (10 : ℚ) ^ l ≤ d.digits := by exact_mod_cast habove
  have horder : d.order = l + d.exponent := by
    rw [Decimal.order, hl]
    push_cast
    ring
  rw [horder, Decimal.value]
  constructor
  · rw [zpow_add₀ (by norm_num), zpow_natCast]
    exact mul_le_mul_of_nonneg_right habove hten.le
  · rw [show (l : Int) + d.exponent + 1 = ((l + 1 : Nat) : Int) + d.exponent by push_cast; ring,
      zpow_add₀ (by norm_num), zpow_natCast]
    exact mul_lt_mul_of_pos_right hbelow hten

/-- A decimal is read as the number that it rounds to. -/
theorem unpack_decimal_of_holds (hd : d.digits ≠ 0) {M : Nat} {Q : Int} (hpos : 0 < M)
    (hbits : M < 2 ^ 53) (hlow : -1074 ≤ Q) (hhigh : Q ≤ 971) (hfull : Q = -1074 ∨ 2 ^ 52 ≤ M)
    (hholds : (Shortest.interval M Q).Holds (Q - 2) d.value) :
    d.toFloat.toModel.unpack = .finite .positive M Q hpos := by
  obtain ⟨hfrom, hto⟩ := order_bounds hd
  have hmost : d.value < 2 ^ 53 * 2 ^ (971 : Int) := by
    have hmantissa : (M : ℚ) + 1 ≤ 2 ^ 53 := by exact_mod_cast hbits
    calc d.value ≤ (M + 1 / 2) * 2 ^ Q := hholds.le
      _ < 2 ^ 53 * 2 ^ Q := mul_lt_mul_of_pos_right (by linarith) (zpow_pos (by norm_num) _)
      _ ≤ 2 ^ 53 * 2 ^ (971 : Int) :=
        mul_le_mul_of_nonneg_left (zpow_le_zpow_right₀ (by norm_num) hhigh) (by norm_num)
  have hgreatest : d.order < 400 := by
    refine (zpow_lt_zpow_iff_right₀ (by norm_num : (1 : ℚ) < 10)).mp ?_
    calc (10 : ℚ) ^ d.order < 2 ^ 53 * 2 ^ (971 : Int) := hfrom.trans_lt hmost
      _ = 2 ^ (1024 : Int) := by rw [← zpow_natCast, ← zpow_add₀ (by norm_num)]; rfl
      _ ≤ 10 ^ (400 : Int) :=
        Shortest.two_zpow_le (fun _ => by norm_num) fun h => absurd h (by norm_num)
  have hleast : -400 < d.order + 1 := by
    refine (zpow_lt_zpow_iff_right₀ (by norm_num : (1 : ℚ) < 10)).mp ?_
    calc (10 : ℚ) ^ (-400 : Int) ≤ 2 ^ (-1075 : Int) :=
          Shortest.ten_zpow_le (fun h => absurd h (by norm_num)) fun _ => by norm_num
      _ ≤ d.value := le_of_holds hpos hlow hholds
      _ < 10 ^ (d.order + 1) := hto
  rw [Decimal.toFloat, if_neg hd, if_neg (by omega), if_neg (by omega)]
  split
  next hnonneg =>
    obtain ⟨k, hk⟩ : ∃ k : Nat, d.exponent = k := ⟨d.exponent.toNat, by omega⟩
    have hvalue : d.value = d.digits * 10 ^ k := by rw [Decimal.value, hk, zpow_natCast]
    have hplaces : k ≤ 308 := by
      have hone : (1 : ℚ) ≤ d.digits := by exact_mod_cast Nat.pos_of_ne_zero hd
      refine le_of_tenPow_lt (lt_of_le_of_lt ?_ (hvalue ▸ hmost))
      exact le_mul_of_one_le_left (by positivity) hone
    rw [hk, Int.toNat_natCast]
    exact unpack_ofScientific_of_holds (Nat.pos_of_ne_zero hd) hplaces hpos hbits hlow hhigh hfull
      (hvalue ▸ hholds)
  next hneg =>
    obtain ⟨k, hk⟩ : ∃ k : Nat, d.exponent = -k := ⟨(-d.exponent).toNat, by omega⟩
    have hvalue : d.value = d.digits / 10 ^ k := by
      rw [Decimal.value, hk, zpow_neg, zpow_natCast, div_eq_mul_inv]
    rw [hk, neg_neg, Int.toNat_natCast]
    exact unpack_ofScientific_down_of_holds (Nat.pos_of_ne_zero hd) (by omega) hpos hbits hlow hhigh
      hfull (hvalue ▸ hholds)

end

end Patchbay.Binary64
