import Mathlib.Tactic.IntervalCases
import Patchbay.Proofs.Number.Rounding
/-!
# Scaling by powers of ten

A decimal is read by scaling its digits with a power of ten. Digits below `2 ^ 53` and powers up to
`10 ^ 22` are exact, so that one rounding is all that happens (`unpack_mul_of_holds`,
`unpack_div_of_holds`). Otherwise digits and power are rounded too. They are at most half a unit of
their last place too great (`RoundedUp`), which decides whether the product is finite (`isInf_mul`).
-/

namespace Patchbay.Binary64

open Float.Model Float.Model.UnpackedFloat Patchbay.Number Patchbay.Rounding

/-! ## Values -/

/-- The value of a number with a full mantissa that is at least one. -/
def HasValue (x : Float) (value : ℚ) : Prop :=
  ∃ m q, ∃ hpos : 0 < m, x.toModel.unpack = .finite .positive m q hpos ∧ m.log2 = 52 ∧ -52 ≤ q ∧
    m * 2 ^ q = value

/-- A number at most half a unit of its last place above the one that was meant. -/
def RoundedUp (x : Float) (bound : ℚ) : Prop :=
  ∃ value, HasValue x value ∧ value ≤ bound * (1 + 1 / 2 ^ 53)

theorem HasValue.nonneg {x : Float} {value : ℚ} (h : HasValue x value) : 0 ≤ value := by
  obtain ⟨m, q, -, -, -, -, rfl⟩ := h
  positivity

theorem HasValue.roundedUp {x : Float} {value : ℚ} (h : HasValue x value) : RoundedUp x value :=
  ⟨value, h, le_mul_of_one_le_right h.nonneg (by norm_num)⟩

/-- A full mantissa after widening. -/
theorem hasValue_widened {x : Float} {m : Nat} {e : Int} (hm : 0 < m) (hlog : m.log2 ≤ 52)
    (hlow : 0 ≤ (m.log2 : Int) + e) (hpos : 0 < m * 2 ^ (52 - m.log2))
    (h : x.toModel.unpack =
      .finite .positive (m * 2 ^ (52 - m.log2)) ((m.log2 : Int) - 52 + e) hpos) :
    HasValue x (m * 2 ^ e) := by
  refine ⟨_, _, hpos, h, ?_, by omega, ?_⟩
  · rw [log2_mul_two_pow hm.ne']
    omega
  · rw [show (m.log2 : Int) - 52 + e = -((52 - m.log2 : Nat) : Int) + e by omega,
      zpow_add₀ (by norm_num), zpow_neg, zpow_natCast]
    push_cast
    field_simp

/-- Integers below `2 ^ 53` are exact. -/
theorem hasValue_whole {x : Float} {n : Nat} (hn : 0 < n) (hfew : n < 2 ^ 53)
    (h : x.toModel.unpack = .finite .positive (n * 2 ^ (52 - n.log2)) ((n.log2 : Int) - 52)
      (Nat.mul_pos hn (Nat.two_pow_pos _))) : HasValue x n := by
  have hlog : n.log2 ≤ 52 := Nat.le_of_lt_succ ((Nat.log2_lt hn.ne').mpr hfew)
  rw [← Int.add_zero ((n.log2 : Int) - 52)] at h
  have hvalue := hasValue_widened hn hlog (by omega) _ h
  rwa [zpow_zero, mul_one] at hvalue

theorem hasValue_ofNat {n : Nat} (hn : 0 < n) (hfew : n < 2 ^ 53) : HasValue (Float.ofNat n) n :=
  hasValue_whole hn hfew (unpack_ofNat hn hfew)

theorem hasValue_toFloat {n : Nat} (hn : 0 < n) (hfew : n < 2 ^ 53) :
    HasValue n.toUInt64.toFloat n := hasValue_whole hn hfew (unpack_toFloat hn hfew)

theorem unpack_eq_of_ofFloat {x : Float} {m : Nat} {q : Int}
    (h : Binary.ofFloat x = .finite false m q) (hm : 0 < m) :
    x.toModel.unpack = .finite .positive m q hm := by
  rw [ofFloat_eq] at h
  exact toBinary_injective h

/-- The first powers of ten are exact. -/
theorem hasValue_tenPow {k : Nat} (hk : k ≤ 22) :
    HasValue (Float.ofScientific 1 false k) (10 ^ k) := by
  have hlog : (5 ^ k).log2 ≤ 52 := by interval_cases k <;> decide
  have hparts : Binary.ofFloat (Float.ofScientific 1 false k) =
      .finite false (5 ^ k * 2 ^ (52 - (5 ^ k).log2)) (((5 ^ k).log2 : Nat) - 52 + k : Int) := by
    interval_cases k <;> decide
  have hvalue := hasValue_widened (Nat.pow_pos (by decide)) hlog (by omega) _
    (unpack_eq_of_ofFloat hparts (Nat.mul_pos (Nat.pow_pos (by decide)) (Nat.two_pow_pos _)))
  rw [zpow_natCast] at hvalue
  rwa [show (10 : ℚ) = 5 * 2 by norm_num, mul_pow, ← Nat.cast_ofNat (n := 5), ← Nat.cast_pow]

/-! ## Integers and powers of ten that are rounded -/

/-- Beyond the table of exact powers a decimal is rounded once. -/
theorem unpack_ofScientific {n k : Nat} (hn : 0 < n) (hslow : ¬(n < 2 ^ 53 ∧ k ≤ 22))
    (hk : k ≤ 308) : (Float.ofScientific n false k).toModel.unpack =
      (Float.Model.pack (roundWithAccuracy .binary64 .positive (n * 2 ^ 53 * 10 ^ k) (-53)
        .exact)).unpack := by
  unfold Float.ofScientific
  rw [dif_neg hslow]
  show (Float.Model.pack (UnpackedFloat.ofScientific .binary64 n (k : Int))).unpack = _
  have hlarge : ¬(k : Int) > 2 ^ Format.binary64.exponentBits := by
    show ¬(k : Int) > 2 ^ 11
    omega
  have hsmall : ¬(k : Int) < -((2 ^ Format.binary64.exponentBits : Int) + n.log2) := by
    show ¬(k : Int) < -((2 ^ 11 : Int) + n.log2)
    omega
  unfold UnpackedFloat.ofScientific
  rw [dif_neg hn.ne', if_neg hlarge, if_neg hsmall, if_pos (Int.natCast_nonneg k)]
  show (Float.Model.pack (roundWithAccuracy .binary64 .positive (n <<< 53 * 10 ^ k) (-53)
    .exact)).unpack = _
  rw [Nat.shiftLeft_eq]

theorem roundedUp_ofScientific {n k : Nat} (hn : 0 < n) (hslow : ¬(n < 2 ^ 53 ∧ k ≤ 22))
    (hk : k ≤ 308) (hrange : n * 10 ^ k < (2 ^ 54 - 1) * 2 ^ 970) :
    RoundedUp (Float.ofScientific n false k) (n * 10 ^ k) := by
  obtain ⟨w, hw⟩ : ∃ w, n * 2 ^ 53 * 10 ^ k = w := ⟨_, rfl⟩
  have hpos : w ≠ 0 := by
    rw [← hw]
    exact (Nat.mul_pos (Nat.mul_pos hn (Nat.two_pow_pos _)) (Nat.pow_pos (by decide))).ne'
  have hlog : 53 ≤ w.log2 := by
    refine (Nat.le_log2 hpos).mpr ?_
    calc 2 ^ 53 = 1 * 2 ^ 53 * 1 := by ring
      _ ≤ n * 2 ^ 53 * 10 ^ k :=
        Nat.mul_le_mul (Nat.mul_le_mul_right _ hn) (Nat.pow_pos (by decide))
      _ = w := hw
  have hvalue : (w : ℚ) * 2 ^ (-53 : Int) = n * 10 ^ k := by
    rw [← hw, zpow_neg]
    push_cast
    norm_num
    ring
  obtain ⟨m, q, hm, hround, hfull, hlow, hbound, hfinite⟩ :=
    roundWithAccuracy_le .positive (locates_exact w) hpos (by omega) (e := -53) (by omega)
  rw [hvalue] at hbound hfinite
  have hq : q ≤ 971 := by
    -- the power is kept from being evaluated
    obtain ⟨p, hp⟩ : ∃ p : Nat, p = 970 := ⟨_, rfl⟩
    rw [← hp] at hrange
    have hcast : (n : ℚ) * 10 ^ k < (2 ^ 54 - 1 : Nat) * 2 ^ p := by exact_mod_cast hrange
    refine hfinite (hcast.trans_eq ?_)
    rw [show (971 : Int) = (p : Int) + 1 by omega, zpow_add_one₀ (by norm_num), zpow_natCast]
    push_cast
    ring
  refine ⟨_, ⟨m, q, hm, ?_, hfull, by omega, rfl⟩, hbound⟩
  rw [unpack_ofScientific hn hslow hk, hw, hround, unpack_pack .positive hfull (by omega) hq]

theorem roundedUp_ofNat {n : Nat} (hn : 0 < n) (hbound : n < 2 ^ 64) :
    RoundedUp (Float.ofNat n) n := by
  rcases Nat.lt_or_ge n (2 ^ 53) with hfew | hmany
  · exact (hasValue_ofNat hn hfew).roundedUp
  · have hrounded := roundedUp_ofScientific hn (k := 0) (by omega) (by decide) ?_
    · rwa [pow_zero, mul_one] at hrounded
    · rw [Nat.pow_zero, Nat.mul_one]
      exact hbound.trans (by decide +kernel)

theorem roundedUp_tenPow {k : Nat} (hk : k ≤ 308) :
    RoundedUp (Float.ofScientific 1 false k) (10 ^ k) := by
  rcases Nat.lt_or_ge 22 k with hmany | hfew
  · have hrounded := roundedUp_ofScientific (n := 1) (k := k) (by decide) (by omega) hk ?_
    · rwa [Nat.cast_one, one_mul] at hrounded
    · rw [Nat.one_mul]
      exact lt_of_le_of_lt (Nat.pow_le_pow_right (by decide) hk) (by decide +kernel)
  · exact (hasValue_tenPow hfew).roundedUp

/-! ## Products -/

theorem two_pow_le_of_log2 {m k : Nat} (hm : 0 < m) (h : m.log2 = k) : 2 ^ k ≤ m :=
  h ▸ Nat.log2_self_le hm.ne'

variable {x y : Float} {a b : ℚ}

/-- A product is the product of the mantissas, rounded once. -/
theorem unpack_mul (hx : HasValue x a) (hy : HasValue y b) : ∃ (m : Nat) (e : Int), m ≠ 0 ∧
    104 ≤ m.log2 ∧ -104 ≤ e ∧ m * 2 ^ e = a * b ∧ (x * y).toModel.unpack =
      (Float.Model.pack (roundWithAccuracy .binary64 .positive m e .exact)).unpack := by
  obtain ⟨m, q, hm, hunpack, hfull, hlow, rfl⟩ := hx
  obtain ⟨m', q', hm', hunpack', hfull', hlow', rfl⟩ := hy
  have hne : m * m' ≠ 0 := (Nat.mul_pos hm hm').ne'
  refine ⟨m * m', q + q', hne, (Nat.le_log2 hne).mpr ?_, by omega, ?_, ?_⟩
  · calc 2 ^ 104 = 2 ^ 52 * 2 ^ 52 := by rw [← Nat.pow_add]
      _ ≤ m * m' :=
        Nat.mul_le_mul (two_pow_le_of_log2 hm hfull) (two_pow_le_of_log2 hm' hfull')
  · rw [zpow_add₀ (by norm_num)]
    push_cast
    ring
  · show (Float.Model.pack (UnpackedFloat.mul .binary64 x.toModel.unpack
      y.toModel.unpack)).unpack = _
    rw [hunpack, hunpack']
    rfl

theorem isInf_of_unpack {s : Sign} {m : Nat} {q : Int} {hpos : 0 < m}
    (h : x.toModel.unpack = .finite s m q hpos) : x.isInf = false := by
  show x.toModel.unpack.isInf = false
  rw [h]
  rfl

theorem isInf_of_isFinite (h : x.isFinite = true) : x.isInf = false := by
  change x.toModel.unpack.isFinite = true at h
  show x.toModel.unpack.isInf = false
  cases hparts : x.toModel.unpack with
  | infinity s => rw [hparts] at h; cases h
  | notANumber | zero | finite => rfl

/-- A product of rounded numbers stays finite when it is far enough from the overflow. -/
theorem isInf_mul (hx : RoundedUp x a) (hy : RoundedUp y b)
    (hab : a * b * (1 + 1 / 2 ^ 53) ^ 2 < (2 ^ 53 - 1 / 2) * 2 ^ (971 : Int)) :
    (x * y).isInf = false := by
  obtain ⟨v, hx, hv⟩ := hx
  obtain ⟨w, hy, hw⟩ := hy
  obtain ⟨m, e, hm, hlong, hlow, hvalue, hproduct⟩ := unpack_mul hx hy
  obtain ⟨r, q, hr, hround, hfull, hstart, -, hfinite⟩ :=
    roundWithAccuracy_le .positive (locates_exact m) hm (by omega) (e := e) (by omega)
  have hq : q ≤ 971 := by
    refine hfinite (lt_of_le_of_lt ?_ hab)
    rw [hvalue]
    calc v * w ≤ a * (1 + 1 / 2 ^ 53) * (b * (1 + 1 / 2 ^ 53)) :=
          mul_le_mul hv hw hy.nonneg (hx.nonneg.trans hv)
      _ = a * b * (1 + 1 / 2 ^ 53) ^ 2 := by ring
  rw [hround, unpack_pack .positive hfull (by omega) hq] at hproduct
  exact isInf_of_unpack hproduct

/-! ## One rounding -/

variable {m : Nat} {q : Int} {hpos : 0 < m}

/-- A product in the rounding interval of a number is the number. -/
theorem unpack_mul_of_holds (hx : HasValue x a) (hy : HasValue y b) (hfull : m.log2 = 52)
    (hlow : -1074 ≤ q) (hhigh : q ≤ 971) (hholds : (Shortest.interval m q).Holds (q - 2) (a * b)) :
    (x * y).toModel.unpack = .finite .positive m q hpos := by
  obtain ⟨n, e, hn, hlong, -, hvalue, hproduct⟩ := unpack_mul hx hy
  rw [← hvalue] at hholds
  rw [hproduct, roundWithAccuracy_of_holds .positive (locates_exact n) hn (by omega) hpos
    ((Nat.log2_lt hpos.ne').mp (by omega)) hlow (Or.inr (two_pow_le_of_log2 hpos hfull)) hholds,
    unpack_pack .positive hfull hlow hhigh]

/-- The residual bits of a quotient. -/
theorem locates_quotient {n d : Nat} (hd : 0 < d) :
    Locates (ExtendedMantissa.ofMantissaAndAccuracy (n / d) (accuracyOfFraction (n % d) d))
      (n / d : ℚ) := by
  have hsplit : (n : ℚ) / d = (n / d : Nat) + (n % d : Nat) / d := by
    have hcast : (n : ℚ) = d * (n / d : Nat) + (n % d : Nat) := by
      exact_mod_cast (Nat.div_add_mod n d).symm
    have hne : (d : ℚ) ≠ 0 := by exact_mod_cast hd.ne'
    conv_lhs => rw [hcast]
    field_simp
  have hd' : (0 : ℚ) < d := by exact_mod_cast hd
  have hless : n % d < d := Nat.mod_lt n hd
  rw [hsplit]
  generalize n / d = whole
  generalize n % d = rest at hless
  have hrest : ((rest : ℚ) / d < 1) := (div_lt_one hd').mpr (by exact_mod_cast hless)
  unfold accuracyOfFraction
  split
  next hzero =>
    subst hzero
    simp [Locates, ExtendedMantissa.ofMantissaAndAccuracy]
  next hzero =>
    have hrest' : 0 < (rest : ℚ) / d :=
      div_pos (by exact_mod_cast Nat.pos_of_ne_zero hzero) hd'
    rcases Nat.lt_trichotomy (2 * rest) d with hlt | heq | hgt
    · have hhalf : (rest : ℚ) / d < 1 / 2 := by
        rw [div_lt_iff₀ hd']
        have : (2 : ℚ) * rest < d := by exact_mod_cast hlt
        linarith
      rw [Nat.compare_eq_lt.mpr hlt]
      show (whole : ℚ) < _ ∧ _ < (whole : ℚ) + 1 / 2
      constructor <;> linarith
    · have hhalf : (rest : ℚ) / d = 1 / 2 := by
        rw [div_eq_iff hd'.ne']
        have : (2 : ℚ) * rest = d := by exact_mod_cast heq
        linarith
      rw [Nat.compare_eq_eq.mpr heq]
      show _ = (whole : ℚ) + 1 / 2
      rw [hhalf]
    · have hhalf : 1 / 2 < (rest : ℚ) / d := by
        rw [lt_div_iff₀ hd']
        have : (d : ℚ) < 2 * rest := by exact_mod_cast hgt
        linarith
      rw [Nat.compare_eq_gt.mpr hgt]
      show (whole : ℚ) + 1 / 2 < _ ∧ _ < (whole : ℚ) + 1
      constructor <;> linarith

/-- A quotient is the quotient of the mantissas with enough bits, rounded once. -/
theorem unpack_div (hx : HasValue x a) (hy : HasValue y b) (hb : b ≤ 10 ^ 22) :
    ∃ (n : Nat) (e : Int) (accuracy : Accuracy) (v : ℚ), n ≠ 0 ∧ 52 ≤ n.log2 ∧
      Locates (ExtendedMantissa.ofMantissaAndAccuracy n accuracy) v ∧ v * 2 ^ e = a / b ∧
      (x / y).toModel.unpack =
        (Float.Model.pack (roundWithAccuracy .binary64 .positive n e accuracy)).unpack := by
  obtain ⟨m, q, hm, hunpack, hfull, hlow, rfl⟩ := hx
  obtain ⟨m', q', hm', hunpack', hfull', hlow', rfl⟩ := hy
  have hsmall : q' ≤ 22 := by
    have hpower : (2 : ℚ) ^ (52 + q') ≤ 2 ^ (74 : Int) := by
      rw [zpow_add₀ (by norm_num)]
      calc (2 : ℚ) ^ (52 : Int) * 2 ^ q' ≤ m' * 2 ^ q' := by
            gcongr
            exact_mod_cast two_pow_le_of_log2 hm' hfull'
        _ ≤ 10 ^ 22 := hb
        _ ≤ 2 ^ (74 : Int) := by norm_num
    have := (zpow_le_zpow_iff_right₀ (by norm_num : (1 : ℚ) < 2)).mp hpower
    omega
  have hcore : divCore .binary64 m q m' q' =
      (m * 2 ^ 53 / m', q - q' - 53, accuracyOfFraction (m * 2 ^ 53 % m') m') := by
    have htarget : min (q - q') (Format.binary64.targetExponent
        (totalExponent m q - totalExponent m' q')) = q - q' - 53 := by
      unfold Format.targetExponent totalExponent
      rw [hfull, hfull']
      show min (q - q') (max (((52 : Nat) : Int) + 1 + q - ((52 : Nat) + 1 + q') - (53 : Nat))
        (-1074)) = q - q' - 53
      omega
    unfold divCore
    simp only [htarget, show (q - q' - (q - q' - 53)).toNat = 53 by omega, Nat.shiftLeft_eq]
  have hlong : 2 ^ 52 ≤ m * 2 ^ 53 / m' := by
    refine (Nat.le_div_iff_mul_le hm').mpr ?_
    have hm53 : m' < 2 ^ 53 := (Nat.log2_lt hm'.ne').mp (by omega)
    exact Nat.mul_le_mul (two_pow_le_of_log2 hm hfull) hm53.le
  have hne : m * 2 ^ 53 / m' ≠ 0 := by omega
  refine ⟨m * 2 ^ 53 / m', q - q' - 53, _, _, hne, (Nat.le_log2 hne).mpr hlong,
    locates_quotient hm', ?_, ?_⟩
  · have hne' : (m' : ℚ) ≠ 0 := by exact_mod_cast hm'.ne'
    rw [zpow_sub₀ (by norm_num), zpow_sub₀ (by norm_num)]
    push_cast
    field_simp
  · show (Float.Model.pack (UnpackedFloat.div .binary64 x.toModel.unpack
      y.toModel.unpack)).unpack = _
    rw [hunpack, hunpack']
    show (Float.Model.pack (roundWithAccuracy .binary64 .positive (divCore .binary64 m q m' q').1
      (divCore .binary64 m q m' q').2.1 (divCore .binary64 m q m' q').2.2)).unpack = _
    rw [hcore]

/-- A quotient in the rounding interval of a number is the number. -/
theorem unpack_div_of_holds (hx : HasValue x a) (hy : HasValue y b) (hb : b ≤ 10 ^ 22)
    (hfull : m.log2 = 52) (hlow : -1074 ≤ q) (hhigh : q ≤ 971)
    (hholds : (Shortest.interval m q).Holds (q - 2) (a / b)) :
    (x / y).toModel.unpack = .finite .positive m q hpos := by
  obtain ⟨n, e, accuracy, v, hn, hlong, hlocates, hvalue, hquotient⟩ := unpack_div hx hy hb
  rw [← hvalue] at hholds
  rw [hquotient, roundWithAccuracy_of_holds .positive hlocates hn (by omega) hpos
    ((Nat.log2_lt hpos.ne').mp (by omega)) hlow (Or.inr (two_pow_le_of_log2 hpos hfull)) hholds,
    unpack_pack .positive hfull hlow hhigh]

/-! ## Equal numbers -/

/-- The bits of a finite value are its parts. -/
theorem eq_of_ofBits {a b : Nat} (ha : a < 2 ^ 64) (hb : b < 2 ^ 64) {negative : Bool} {m : Nat}
    {q : Int} (h : Binary.ofBits a = .finite negative m q)
    (h' : Binary.ofBits b = .finite negative m q) : a = b := by
  have hhidden : Binary.hiddenBit = 2 ^ 52 := rfl
  have hbiased : Nat.pow 2 11 = 2 ^ 11 := rfl
  have hparts : ∀ {c : Nat}, c < 2 ^ 64 → Binary.ofBits c = .finite negative m q →
      negative = decide (2 ^ 63 ≤ c) ∧
        (if q = -1074 ∧ m < 2 ^ 52 then c / 2 ^ 52 % 2 ^ 11 = 0 ∧ c % 2 ^ 52 = m
        else (c / 2 ^ 52 % 2 ^ 11 : Nat) = q + 1075 ∧ c % 2 ^ 52 + 2 ^ 52 = m) := by
    intro c hc h
    dsimp only [Binary.ofBits] at h
    rw [hhidden, hbiased] at h
    split at h
    next => split at h <;> cases h
    next =>
      split at h
      next hzero =>
        cases h
        rw [if_pos ⟨rfl, Nat.mod_lt _ (by decide)⟩]
        exact ⟨rfl, hzero, rfl⟩
      next =>
        cases h
        rw [if_neg (by omega)]
        exact ⟨rfl, by omega, rfl⟩
  obtain ⟨hsign, hparts₁⟩ := hparts ha h
  obtain ⟨hsign', hparts₂⟩ := hparts hb h'
  have hsame : 2 ^ 63 ≤ a ↔ 2 ^ 63 ≤ b := by rw [← decide_eq_decide, ← hsign, hsign']
  by_cases hsub : q = -1074 ∧ m < 2 ^ 52
  · rw [if_pos hsub] at hparts₁ hparts₂
    omega
  · rw [if_neg hsub] at hparts₁ hparts₂
    omega

theorem eq_of_ofFloat {x y : Float} {negative : Bool} {m : Nat} {q : Int}
    (h : Binary.ofFloat x = .finite negative m q) (h' : Binary.ofFloat y = .finite negative m q) :
    x = y := by
  obtain ⟨⟨xbits, hx⟩⟩ := x
  obtain ⟨⟨ybits, hy⟩⟩ := y
  obtain rfl : xbits = ybits :=
    UInt64.toNat_inj.mp (eq_of_ofBits xbits.toNat_lt ybits.toNat_lt h h')
  rfl

end Patchbay.Binary64
