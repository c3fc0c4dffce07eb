import Mathlib
/-!
# Formats

Rounding in any binary format. Bits are dropped from a mantissa while two residual bits keep track
of what was dropped. What they say stays true with every bit (`Locates.shiftRight`), so the mantissa
that is left is rounded to the nearest one, a half going to the even neighbour
(`Locates.nearestEven`).

The exponent depends on the size of the number alone, so a result is known from its mantissa
(`roundWithAccuracy_nearest`): it is below a power of two just when the exact value is half a unit
of the last place below it (`mul_lt_two_pow_iff`). A mantissa that fits is kept
(`roundWithAccuracy_exact`, `round_exact`), and a full mantissa is packed without loss
(`unpack_pack_full`).
-/

namespace Patchbay.Rounding

open Float.Model Float.Model.UnpackedFloat

/-! ## Residual bits -/

/-- The number is where the mantissa and the residual bits say. -/
def Locates (em : ExtendedMantissa) (x : ℚ) : Prop :=
  match em.roundBit, em.stickyBit with
  | false, false => x = em.mantissa
  | false, true => em.mantissa < x ∧ x < em.mantissa + 1 / 2
  | true, false => x = em.mantissa + 1 / 2
  | true, true => em.mantissa + 1 / 2 < x ∧ x < em.mantissa + 1

/-- The residual bits after one bit more is dropped. -/
theorem Locates.shiftRightOne {em : ExtendedMantissa} {x : ℚ} (h : Locates em x) :
    Locates em.shiftRightOne (x / 2) := by
  obtain ⟨m, r, s⟩ := em
  obtain ⟨half, rfl | rfl⟩ : ∃ half, m = 2 * half ∨ m = 2 * half + 1 := ⟨m / 2, by omega⟩
  · have hhalf : 2 * half / 2 = half := by omega
    have hbit : (2 * half % 2 != 0) = false := by simp
    unfold ExtendedMantissa.shiftRightOne
    rw [hhalf, hbit]
    cases r <;> cases s <;> simp only [Locates, Bool.or_true, Bool.or_false] at h ⊢ <;>
      push_cast at h
    · linarith
    all_goals constructor <;> linarith
  · have hhalf : (2 * half + 1) / 2 = half := by omega
    have hbit : ((2 * half + 1) % 2 != 0) = true := by simp
    unfold ExtendedMantissa.shiftRightOne
    rw [hhalf, hbit]
    cases r <;> cases s <;> simp only [Locates, Bool.or_true, Bool.or_false] at h ⊢ <;>
      push_cast at h
    · linarith
    all_goals constructor <;> linarith

theorem Locates.shiftRight {em : ExtendedMantissa} {x : ℚ} (h : Locates em x) (n : Nat) :
    Locates (em >>> n) (x / 2 ^ n) := by
  show Locates (n.repeat ExtendedMantissa.shiftRightOne em) _
  induction n with
  | zero => rwa [pow_zero, div_one]
  | succ n ih =>
    rw [Nat.repeat, pow_succ, ← div_div]
    exact ih.shiftRightOne

theorem Locates.bounds {em : ExtendedMantissa} {x : ℚ} (h : Locates em x) :
    em.mantissa ≤ x ∧ x < em.mantissa + 1 := by
  obtain ⟨m, r, s⟩ := em
  cases r <;> cases s <;> simp only [Locates] at h ⊢ <;> constructor <;> linarith

theorem mantissa_ofMantissaAndAccuracy (m : Nat) (accuracy : Accuracy) :
    (ExtendedMantissa.ofMantissaAndAccuracy m accuracy).mantissa = m := by
  rcases accuracy with _ | (_ | _ | _) <;> rfl

theorem locates_exact (m : Nat) :
    Locates (ExtendedMantissa.ofMantissaAndAccuracy m .exact) m := rfl

theorem Locates.log2_bounds {m : Nat} {accuracy : Accuracy} {x : ℚ}
    (hx : Locates (ExtendedMantissa.ofMantissaAndAccuracy m accuracy) x)
    (hm : m ≠ 0) : (2 : ℚ) ^ m.log2 ≤ x ∧ x < 2 ^ (m.log2 + 1) := by
  obtain ⟨hlow, hhigh⟩ := hx.bounds
  rw [mantissa_ofMantissaAndAccuracy] at hlow hhigh
  have hfew : (2 : ℚ) ^ m.log2 ≤ m := by exact_mod_cast Nat.log2_self_le hm
  have hmany : (m : ℚ) + 1 ≤ 2 ^ (m.log2 + 1) := by exact_mod_cast Nat.lt_log2_self (n := m)
  exact ⟨hfew.trans hlow, lt_of_lt_of_le hhigh hmany⟩

theorem Locates.scaled_bounds {m : Nat} {accuracy : Accuracy} {x : ℚ}
    (hx : Locates (ExtendedMantissa.ofMantissaAndAccuracy m accuracy) x) (hm : m ≠ 0) (e : Int) :
    (2 : ℚ) ^ ((m.log2 : Int) + e) ≤ x * 2 ^ e ∧ x * 2 ^ e < 2 ^ ((m.log2 : Int) + 1 + e) := by
  obtain ⟨hleast, hgreatest⟩ := hx.log2_bounds hm
  have hunit : (0 : ℚ) < 2 ^ e := zpow_pos (by norm_num) e
  rw [zpow_add₀ (by norm_num), zpow_add₀ (by norm_num) _ e, ← Int.natCast_succ, zpow_natCast,
    zpow_natCast]
  exact ⟨mul_le_mul_of_nonneg_right hleast hunit.le, mul_lt_mul_of_pos_right hgreatest hunit⟩

/-- Dropping zeros at the end of a mantissa loses nothing. -/
theorem shiftRight_exact (m j : Nat) :
    (⟨m * 2 ^ j, false, false⟩ : ExtendedMantissa) >>> j = ⟨m, false, false⟩ := by
  show j.repeat ExtendedMantissa.shiftRightOne ⟨m * 2 ^ j, false, false⟩ = ⟨m, false, false⟩
  induction j generalizing m with
  | zero => rw [Nat.pow_zero, Nat.mul_one]; rfl
  | succ j ih =>
    rw [Nat.repeat, Nat.pow_succ, Nat.mul_comm (2 ^ j), ← Nat.mul_assoc, ih (m * 2)]
    simp [ExtendedMantissa.shiftRightOne]

theorem log2_mul_two_pow {m : Nat} (hm : m ≠ 0) (j : Nat) : (m * 2 ^ j).log2 = m.log2 + j := by
  induction j with
  | zero => rw [Nat.pow_zero, Nat.mul_one, Nat.add_zero]
  | succ j ih =>
    have hpos : m * 2 ^ j ≠ 0 := Nat.mul_ne_zero hm (Nat.two_pow_pos j).ne'
    rw [Nat.pow_succ, ← Nat.mul_assoc, Nat.mul_comm _ 2, Nat.log2_two_mul hpos, ih, Nat.add_assoc]

/-! ## The nearest number -/

/-- No natural number is nearer, and of two that are equally near it is the even one. -/
def NearestEven (n : Nat) (x : ℚ) : Prop :=
  if n % 2 = 0 then (n : ℚ) - 1 / 2 ≤ x ∧ x ≤ n + 1 / 2 else (n : ℚ) - 1 / 2 < x ∧ x < n + 1 / 2

theorem NearestEven.bounds {n : Nat} {x : ℚ} (h : NearestEven n x) :
    (n : ℚ) - 1 / 2 ≤ x ∧ x ≤ n + 1 / 2 := by
  unfold NearestEven at h
  split at h
  next => exact h
  next => exact ⟨h.1.le, h.2.le⟩

theorem NearestEven.unique {n n' : Nat} {x : ℚ} (h : NearestEven n x) (h' : NearestEven n' x) :
    n = n' := by
  wlog hlt : n < n' generalizing n n'
  · rcases Nat.lt_trichotomy n n' with hn | hn | hn
    · exact absurd hn hlt
    · exact hn
    · exact (this h' h hn).symm
  -- both are half away, so both would be even
  have hnext : (n : ℚ) + 1 ≤ n' := by exact_mod_cast hlt
  have hbounds := h.bounds
  have hbounds' := h'.bounds
  have hsucc : n' = n + 1 := by
    have : (n' : ℚ) ≤ n + 1 := by linarith
    have : n' ≤ n + 1 := by exact_mod_cast this
    omega
  subst hsucc
  unfold NearestEven at h h'
  push_cast at h h'
  split at h <;> split at h'
  · omega
  · linarith [h.2, h'.1]
  · linarith [h.2, h'.1]
  · linarith [h.2, h'.1]

theorem Locates.nearestEven {em : ExtendedMantissa} {x : ℚ} (h : Locates em x) :
    NearestEven em.roundedMantissa x := by
  obtain ⟨m, r, s⟩ := em
  cases r <;> cases s <;> simp only [Locates] at h
  · show NearestEven m x
    unfold NearestEven
    split <;> constructor <;> linarith
  · show NearestEven m x
    unfold NearestEven
    split <;> constructor <;> linarith
  · show NearestEven (m + m % 2) x
    have heven : (m + m % 2) % 2 = 0 := by omega
    unfold NearestEven
    rw [if_pos heven]
    have hbit : ((m % 2 : Nat) : ℚ) = 0 ∨ ((m % 2 : Nat) : ℚ) = 1 := by
      rcases Nat.mod_two_eq_zero_or_one m with hm | hm <;> rw [hm] <;> simp
    push_cast
    rcases hbit with hbit | hbit <;> constructor <;> linarith
  · show NearestEven (m + 1) x
    unfold NearestEven
    push_cast
    split <;> constructor <;> linarith

theorem NearestEven.le_of_le {n N : Nat} {x : ℚ} (h : NearestEven n x) (hx : (N : ℚ) ≤ x) :
    N ≤ n := by
  have hbound : (N : ℚ) < (n + 1 : Nat) := by
    push_cast
    linarith [h.bounds.2]
  exact Nat.lt_succ_iff.mp (Nat.cast_lt.mp hbound)

theorem NearestEven.le_of_ge {n N : Nat} {x : ℚ} (h : NearestEven n x) (hx : x ≤ N) : n ≤ N := by
  have hbound : (n : ℚ) < (N + 1 : Nat) := by
    push_cast
    linarith [h.bounds.1]
  exact Nat.lt_succ_iff.mp (Nat.cast_lt.mp hbound)

/-- What is half-way to an even number or nearer is rounded to it. -/
theorem NearestEven.lt_iff {n N : Nat} {x : ℚ} (h : NearestEven n x) (hN : N % 2 = 0) :
    n < N ↔ x < N - 1 / 2 := by
  constructor
  · intro hlt
    rcases Nat.eq_or_lt_of_le hlt with heq | hless
    · -- the number just below is odd, so it takes no half
      subst heq
      unfold NearestEven at h
      rw [if_neg (by omega)] at h
      push_cast
      linarith [h.2]
    · have hfar : (n : ℚ) + 2 ≤ N := by exact_mod_cast hless
      linarith [h.bounds.2]
  · intro hx
    by_contra hge
    rcases Nat.eq_or_lt_of_le (Nat.le_of_not_lt hge) with heq | hmore
    · subst heq
      linarith [h.bounds.1]
    · have hfar : (N : ℚ) + 1 ≤ n := by exact_mod_cast hmore
      linarith [h.bounds.1]

/-! ## Rounding to a mantissa -/

variable {f : Format} {m : Nat} {e t : Int} {accuracy : Accuracy} {x : ℚ}

/-- The exponent that a number is rounded to. -/
theorem targetExponent_eq (f : Format) (m : Nat) (e : Int) : f.targetExponent (totalExponent m e) =
    max ((m.log2 : Int) + 1 - f.mantissaBits + e) f.minExponent := by
  unfold Format.targetExponent totalExponent
  congr 1
  ring

theorem mantissaBits_pos (f : Format) : 0 < f.mantissaBits := by
  unfold Format.mantissaBits
  omega

/-- The number with a rounded mantissa. A mantissa that has become one bit too long is a power of
two. -/
def roundedTo (f : Format) (s : Sign) (r : Nat) (t : Int) : UnpackedFloat :=
  if h : r = 0 then .zero s
  else if r < 2 ^ f.mantissaBits then .finite s r t (Nat.pos_of_ne_zero h)
  else .finite s (2 ^ (f.mantissaBits - 1)) (t + 1) (Nat.two_pow_pos _)

/-- A mantissa that fits is left as it is. -/
theorem shiftToTargetExponent_small {r : Nat} (hr : r < 2 ^ f.mantissaBits)
    (ht : f.minExponent ≤ t) : shiftToTargetExponent f r t .exact = (⟨r, false, false⟩, t) := by
  have hlog : r.log2 + 1 ≤ f.mantissaBits := by
    rcases eq_or_ne r 0 with rfl | hne
    · exact mantissaBits_pos f
    · exact (Nat.log2_lt hne).mpr hr
  have hstay : (max ((r.log2 : Int) + 1 - f.mantissaBits + t) f.minExponent - t).toNat = 0 := by
    omega
  unfold shiftToTargetExponent shiftToExponent
  simp only [targetExponent_eq, hstay]
  show ((⟨r, false, false⟩ : ExtendedMantissa), t + ((0 : Nat) : Int)) = _
  rw [Int.natCast_zero, Int.add_zero]

/-- Zeros at the end of a full mantissa are dropped. -/
theorem shiftToTargetExponent_exact (hm : m.log2 + 1 = f.mantissaBits) (hpos : 0 < m)
    (hlow : f.minExponent ≤ e) (j : Nat) :
    shiftToTargetExponent f (m * 2 ^ j) (e - j) .exact = (⟨m, false, false⟩, e) := by
  have htarget : f.targetExponent (totalExponent (m * 2 ^ j) (e - j)) = e := by
    rw [targetExponent_eq, log2_mul_two_pow hpos.ne']
    omega
  unfold shiftToTargetExponent shiftToExponent
  rw [htarget]
  simp only [show (e - (e - (j : Int))).toNat = j by omega, ExtendedMantissa.ofMantissaAndAccuracy,
    shiftRight_exact]
  congr 1
  omega

/-- A mantissa that was rounded up to one bit too many is a power of two, and loses a zero. -/
theorem shiftToTargetExponent_carry (hlow : f.minExponent ≤ t) :
    shiftToTargetExponent f (2 ^ f.mantissaBits) t .exact =
      (⟨2 ^ (f.mantissaBits - 1), false, false⟩, t + 1) := by
  have hbits := mantissaBits_pos f
  have hshift := shiftToTargetExponent_exact (f := f) (m := 2 ^ (f.mantissaBits - 1)) (e := t + 1)
    (by rw [Nat.log2_two_pow]; omega) (Nat.two_pow_pos _) (by omega) 1
  rwa [show t + 1 - ((1 : Nat) : Int) = t by omega, ← Nat.pow_add,
    show f.mantissaBits - 1 + 1 = f.mantissaBits by omega] at hshift

/-- Rounding takes the nearest mantissa for the exponent. -/
theorem roundWithAccuracy_nearest (f : Format) (s : Sign)
    (hx : Locates (ExtendedMantissa.ofMantissaAndAccuracy m accuracy) x)
    (ht : f.targetExponent (totalExponent m e) = t) (he : e ≤ t) :
    ∃ r, NearestEven r (x * 2 ^ e / 2 ^ t) ∧ r ≤ 2 ^ f.mantissaBits ∧
      roundWithAccuracy f s m e accuracy = roundedTo f s r t := by
  obtain ⟨k, hk⟩ : ∃ k : Nat, t = e + k := ⟨(t - e).toNat, by omega⟩
  have hshift : shiftToTargetExponent f m e accuracy =
      (ExtendedMantissa.ofMantissaAndAccuracy m accuracy >>> k, t) := by
    unfold shiftToTargetExponent shiftToExponent
    simp only [ht, show (t - e).toNat = k by omega, ← hk]
  rw [targetExponent_eq] at ht
  have hscale : x * 2 ^ e / 2 ^ t = x / 2 ^ k := by
    rw [hk, zpow_add₀ (by norm_num), zpow_natCast]
    field_simp
  have hnearest := (hx.shiftRight k).nearestEven
  rw [← hscale] at hnearest
  generalize hr : (ExtendedMantissa.ofMantissaAndAccuracy m accuracy >>> k).roundedMantissa = r
    at hnearest
  have hmax : r ≤ 2 ^ f.mantissaBits := by
    have hbound := hx.bounds.2
    rw [mantissa_ofMantissaAndAccuracy] at hbound
    have hlog : (m : ℚ) + 1 ≤ 2 ^ (m.log2 + 1) := by exact_mod_cast Nat.lt_log2_self (n := m)
    have hfew : (2 : ℚ) ^ (m.log2 + 1) ≤ 2 ^ f.mantissaBits * 2 ^ k := by
      rw [← pow_add]
      exact pow_le_pow_right₀ (by norm_num) (by omega)
    refine hnearest.le_of_ge ?_
    rw [hscale, div_le_iff₀ (by positivity)]
    push_cast
    linarith
  refine ⟨r, hnearest, hmax, ?_⟩
  have hlow : f.minExponent ≤ t := by omega
  unfold roundWithAccuracy roundedTo
  rcases Nat.lt_or_eq_of_le hmax with hsmall | rfl
  · simp only [hshift, hr, shiftToTargetExponent_small hsmall hlow, hsmall, if_true]
  · have hne : ¬2 ^ (f.mantissaBits - 1) = 0 := (Nat.two_pow_pos _).ne'
    simp only [hshift, hr, shiftToTargetExponent_carry hlow,
      show ExtendedMantissa.mantissa ⟨2 ^ (f.mantissaBits - 1), false,
      false⟩ = 2 ^ (f.mantissaBits - 1) from rfl, hne, dite_false, lt_irrefl, if_false,
      (Nat.two_pow_pos f.mantissaBits).ne']

/-- A rounded mantissa with all its bits, perhaps one more, is a full one. -/
theorem roundedTo_full (f : Format) (s : Sign) {r : Nat} (hr : 2 ^ (f.mantissaBits - 1) ≤ r)
    (hmax : r ≤ 2 ^ f.mantissaBits) (t : Int) : ∃ M Q, ∃ hpos : 0 < M,
      roundedTo f s r t = .finite s M Q hpos ∧ M.log2 + 1 = f.mantissaBits ∧
      (M : ℚ) * 2 ^ Q = r * 2 ^ t ∧
      (Q = t ∧ M = r ∨ r = 2 ^ f.mantissaBits ∧ Q = t + 1 ∧ M = 2 ^ (f.mantissaBits - 1)) := by
  have hbits := mantissaBits_pos f
  have hpos : 0 < r := lt_of_lt_of_le (Nat.two_pow_pos _) hr
  rw [roundedTo, dif_neg hpos.ne']
  rcases Nat.lt_or_eq_of_le hmax with hsmall | rfl
  · rw [if_pos hsmall]
    have hlog : r.log2 = f.mantissaBits - 1 := by
      refine (Nat.log2_eq_iff hpos.ne').mpr ⟨hr, ?_⟩
      rwa [show f.mantissaBits - 1 + 1 = f.mantissaBits by omega]
    exact ⟨r, t, hpos, rfl, by omega, rfl, Or.inl ⟨rfl, rfl⟩⟩
  · rw [if_neg (Nat.lt_irrefl _)]
    refine ⟨_, _, Nat.two_pow_pos _, rfl, ?_, ?_, Or.inr ⟨rfl, rfl, rfl⟩⟩
    · rw [Nat.log2_two_pow]
      omega
    · obtain ⟨n, hn⟩ : ∃ n, f.mantissaBits = n + 1 := ⟨f.mantissaBits - 1, by omega⟩
      rw [zpow_add_one₀ (by norm_num), hn, Nat.add_sub_cancel, pow_succ]
      push_cast
      ring

/-- A number that is not too small is rounded to the nearest number with a full mantissa. -/
theorem round_nearest (f : Format) (s : Sign) (hm : 0 < m)
    (ht : (m.log2 : Int) + 1 - f.mantissaBits + e = t) (hlow : f.minExponent ≤ t) :
    ∃ r, NearestEven r (m * 2 ^ e / 2 ^ t) ∧ 2 ^ (f.mantissaBits - 1) ≤ r ∧
      r ≤ 2 ^ f.mantissaBits ∧ UnpackedFloat.round f s m e = roundedTo f s r t := by
  obtain ⟨j, hj⟩ : ∃ j, (e - t).toNat = j := ⟨_, rfl⟩
  have htarget : f.targetExponent (totalExponent m e) = t := by
    rw [targetExponent_eq]
    omega
  have hagain : f.targetExponent (totalExponent (m * 2 ^ j) (e - j)) = t := by
    rw [targetExponent_eq, log2_mul_two_pow hm.ne']
    omega
  obtain ⟨r, hr, hmax, hround⟩ := roundWithAccuracy_nearest f s (locates_exact (m * 2 ^ j)) hagain
    (by omega)
  have hvalue : ((m * 2 ^ j : Nat) : ℚ) * 2 ^ (e - j) = m * 2 ^ e := by
    rw [zpow_sub₀ (by norm_num), zpow_natCast]
    push_cast
    field_simp
  rw [hvalue] at hr
  refine ⟨r, hr, hr.le_of_le ?_, hmax, ?_⟩
  · have hbits := mantissaBits_pos f
    rw [le_div_iff₀ (zpow_pos (by norm_num) t)]
    push_cast
    rw [← zpow_natCast, ← zpow_add₀ (by norm_num),
      show ((f.mantissaBits - 1 : Nat) : Int) + t = m.log2 + e by omega]
    exact ((locates_exact m).scaled_bounds hm.ne' e).1
  · rw [← hround]
    unfold UnpackedFloat.round decreaseExponent
    simp only [htarget, hj, Nat.shiftLeft_eq]

/-- Scaling by a power of two moves the exponent alone. -/
theorem round_scale (f : Format) (s : Sign) (hm : 0 < m) (c : Int)
    (hlow : f.minExponent ≤ (m.log2 : Int) + 1 - f.mantissaBits + e)
    (hlow' : f.minExponent ≤ (m.log2 : Int) + 1 - f.mantissaBits + e + c) {M : Nat} {Q : Int}
    {hpos : 0 < M} (hround : UnpackedFloat.round f s m e = .finite s M Q hpos) :
    UnpackedFloat.round f s m (e + c) = .finite s M (Q + c) hpos := by
  obtain ⟨r, hr, hmin, -, hrounded⟩ := round_nearest f s hm rfl hlow
  obtain ⟨r', hr', -, -, hrounded'⟩ := round_nearest f s hm (e := e + c) rfl (by omega)
  have hscale : (m : ℚ) * 2 ^ (e + c) / 2 ^ ((m.log2 : Int) + 1 - f.mantissaBits + (e + c)) =
      m * 2 ^ e / 2 ^ ((m.log2 : Int) + 1 - f.mantissaBits + e) := by
    rw [← Int.add_assoc, zpow_add₀ (by norm_num), zpow_add₀ (by norm_num) _ c, ← mul_assoc,
      mul_div_mul_right _ _ (zpow_pos (by norm_num) c).ne']
  rw [hscale] at hr'
  -- both mantissas are the nearest to the same number
  obtain rfl := hr'.unique hr
  have hne : r' ≠ 0 := (lt_of_lt_of_le (Nat.two_pow_pos _) hmin).ne'
  rw [hrounded', roundedTo, dif_neg hne]
  rw [hrounded, roundedTo, dif_neg hne] at hround
  split at hround
  next hfit =>
    injection hround with _ hM hQ
    rw [if_pos hfit]
    simp only [hM, ← hQ, Int.add_assoc]
  next hlong =>
    injection hround with _ hM hQ
    rw [if_neg hlong]
    simp only [hM, ← hQ]
    congr 1
    omega

/-- A rounded number is below a power of two when the exact one is, by half a unit of the last place
that numbers just below the power have. -/
theorem mul_lt_two_pow_iff {p r : Nat} {t k : Int} {y : ℚ} (hp : 0 < p)
    (hr : NearestEven r (y / 2 ^ t)) (hmax : r ≤ 2 ^ p) (hy : y < 2 ^ (t + p))
    (hfull : t + p ≤ k ∨ 2 ^ (t + p - 1) ≤ y) :
    (r : ℚ) * 2 ^ t < 2 ^ k ↔ y < 2 ^ k - 2 ^ (k - p - 1) := by
  have htwo : (1 : ℚ) < 2 := by norm_num
  have hunit : (0 : ℚ) < 2 ^ t := zpow_pos (by norm_num) t
  have hsplit : (2 : ℚ) ^ (t + p) = 2 ^ p * 2 ^ t := by
    rw [zpow_add₀ (by norm_num), zpow_natCast, mul_comm]
  rcases lt_trichotomy (t + p) k with hless | rfl | hmore
  · have hdouble : (2 : ℚ) ^ (t + p) ≤ 2 ^ (k - 1) := zpow_le_zpow_right₀ htwo.le (by omega)
    have hhalf : (2 : ℚ) ^ k = 2 ^ (k - 1) + 2 ^ (k - 1) := by
      rw [← two_mul, ← zpow_one_add₀ (by norm_num)]
      congr 1
      omega
    have hpos : (0 : ℚ) < 2 ^ (k - 1) := zpow_pos (by norm_num) _
    have hgap : (2 : ℚ) ^ (k - p - 1) ≤ 2 ^ (k - 1) := zpow_le_zpow_right₀ htwo.le (by omega)
    have hcast : (r : ℚ) ≤ 2 ^ p := by exact_mod_cast hmax
    have hrounded : (r : ℚ) * 2 ^ t ≤ 2 ^ (t + p) := by
      rw [hsplit]
      exact mul_le_mul_of_nonneg_right hcast hunit.le
    exact ⟨fun _ => by linarith, fun _ => by linarith⟩
  · -- the power is the first number that the exponent does not reach
    have hgap : (2 : ℚ) ^ (t + p - p - 1) = 1 / 2 * 2 ^ t := by
      rw [show t + p - p - 1 = -1 + t by ring, zpow_add₀ (by norm_num)]
      norm_num
    have heven : 2 ^ p % 2 = 0 := by
      obtain ⟨n, rfl⟩ : ∃ n, p = n + 1 := ⟨p - 1, by omega⟩
      rw [Nat.pow_succ]
      omega
    rw [hgap, hsplit, ← sub_mul, mul_lt_mul_iff_left₀ hunit, ← div_lt_iff₀ hunit]
    rw [← Nat.cast_ofNat (R := ℚ) (n := 2), ← Nat.cast_pow, Nat.cast_lt]
    exact hr.lt_iff heven
  · have hlarge : (2 : ℚ) ^ k ≤ 2 ^ (t + p - 1) := zpow_le_zpow_right₀ htwo.le (by omega)
    have hy' := hfull.resolve_left (by omega)
    have hpos : (0 : ℚ) < 2 ^ (k - p - 1) := zpow_pos (by norm_num) _
    have hlast : (2 : ℚ) ^ (t + p - 1) = (2 ^ (p - 1) : Nat) * 2 ^ t := by
      rw [show t + p - 1 = (p - 1 : Nat) + t by omega, zpow_add₀ (by norm_num), zpow_natCast]
      push_cast
      rfl
    have hleast : 2 ^ (p - 1) ≤ r := hr.le_of_le ((le_div_iff₀ hunit).mpr (hlast ▸ hy'))
    have hrounded : (2 : ℚ) ^ (t + p - 1) ≤ r * 2 ^ t := by
      rw [hlast]
      exact mul_le_mul_of_nonneg_right (Nat.cast_le.mpr hleast) hunit.le
    exact ⟨fun h => by linarith, fun h => by linarith⟩

/-- Rounding to a full mantissa: what the exponent can be, and where the rounded number is below a
power of two. -/
theorem round_full (f : Format) (s : Sign) (hm : 0 < m)
    (ht : (m.log2 : Int) + 1 - f.mantissaBits + e = t) (hlow : f.minExponent ≤ t) :
    ∃ M Q, ∃ hpos : 0 < M, UnpackedFloat.round f s m e = .finite s M Q hpos ∧
      M.log2 + 1 = f.mantissaBits ∧ (Q = t ∨ Q = t + 1 ∧ M = 2 ^ (f.mantissaBits - 1)) ∧
      ∀ k : Int, (M : ℚ) * 2 ^ Q < 2 ^ k ↔
        (m : ℚ) * 2 ^ e < 2 ^ k - 2 ^ (k - f.mantissaBits - 1) := by
  have hbits := mantissaBits_pos f
  obtain ⟨r, hr, hmin, hmax, hround⟩ := round_nearest f s hm ht hlow
  obtain ⟨M, Q, hpos, hfinite, hfull, hvalue, hexponent⟩ := roundedTo_full f s hmin hmax t
  obtain ⟨hleast, hgreatest⟩ := (locates_exact m).scaled_bounds hm.ne' e
  refine ⟨M, Q, hpos, hround.trans hfinite, hfull, hexponent.imp And.left And.right, fun k => ?_⟩
  rw [hvalue]
  refine mul_lt_two_pow_iff hbits hr hmax ?_ (Or.inr ?_)
  · rwa [show t + f.mantissaBits = m.log2 + 1 + e by omega]
  · rwa [show t + f.mantissaBits - 1 = m.log2 + e by omega]

/-! ## Mantissas that fit -/

/-- Rounding a number to the mantissa that it has loses nothing. -/
theorem roundWithAccuracy_exact (f : Format) (s : Sign) (hm : m.log2 + 1 = f.mantissaBits)
    (hlow : f.minExponent ≤ e) (hpos : 0 < m) (j : Nat) :
    roundWithAccuracy f s (m * 2 ^ j) (e - j) .exact = .finite s m e hpos := by
  have hagain := shiftToTargetExponent_exact hm hpos hlow 0
  rw [Nat.pow_zero, Nat.mul_one, Int.natCast_zero, Int.sub_zero] at hagain
  unfold roundWithAccuracy
  rw [shiftToTargetExponent_exact hm hpos hlow j]
  simp only [show ExtendedMantissa.roundedMantissa ⟨m, false, false⟩ = m from rfl, hagain]
  exact dif_neg hpos.ne'

/-- Widening a mantissa until it is full is exact. -/
theorem round_exact (f : Format) (s : Sign) (hpos : 0 < m) {j : Nat}
    (hj : m.log2 + j + 1 = f.mantissaBits) (hlow : f.minExponent ≤ e - j) :
    UnpackedFloat.round f s m e =
      .finite s (m * 2 ^ j) (e - j) (Nat.mul_pos hpos (Nat.two_pow_pos _)) := by
  have htarget : f.targetExponent (totalExponent m e) = e - j := by
    rw [targetExponent_eq]
    omega
  have hfull : (m * 2 ^ j).log2 + 1 = f.mantissaBits := by
    rw [log2_mul_two_pow hpos.ne', hj]
  have hexact := roundWithAccuracy_exact f s hfull hlow (Nat.mul_pos hpos (Nat.two_pow_pos _)) 0
  rw [Nat.pow_zero, Nat.mul_one, Int.natCast_zero, Int.sub_zero] at hexact
  unfold UnpackedFloat.round decreaseExponent
  rw [htarget]
  simp only [show (e - (e - (j : Int))).toNat = j by omega, Nat.shiftLeft_eq]
  exact hexact

theorem normalize_pos (f : Format) (hm : 0 < m) (e : Int) (s : Sign) :
    UnpackedFloat.normalize f (m : Int) e s = UnpackedFloat.round f .positive m e := by
  have hgt : compare (m : Int) 0 = .gt := Int.compare_eq_gt.mpr (by omega)
  rw [UnpackedFloat.normalize, hgt]
  rfl

theorem normalize_neg (f : Format) (hm : 0 < m) (e : Int) (s : Sign) :
    UnpackedFloat.normalize f (-(m : Int)) e s = UnpackedFloat.round f .negative m e := by
  have hlt : compare (-(m : Int)) 0 = .lt := Int.compare_eq_lt.mpr (by omega)
  rw [UnpackedFloat.normalize, hlt, Int.neg_neg]
  rfl

/-! ## Packing -/

/-- The greatest bit of a full mantissa is not stored, and is put before the others again. -/
theorem toNat_append_stored {w : Nat} (hm : m.log2 = w) (hpos : 0 < m) :
    (1#1 ++ BitVec.ofNat w m).toNat = m := by
  have hbound : 2 ^ w ≤ m ∧ m < 2 ^ (w + 1) := (Nat.log2_eq_iff hpos.ne').mp hm
  have hstored : (BitVec.ofNat w m).toNat = m - 2 ^ w := by
    rw [BitVec.toNat_ofNat, Nat.mod_eq_sub_mod hbound.1, Nat.mod_eq_of_lt (by omega)]
  rw [BitVec.toNat_append, ← Nat.shiftLeft_add_eq_or_of_lt (BitVec.isLt _), hstored]
  show 1 <<< w + (m - 2 ^ w) = m
  rw [Nat.shiftLeft_eq]
  omega

/-- A full mantissa whose exponent is in range is packed without loss. -/
theorem unpack_pack_full (f : Format) (s : Sign) (hm : m.log2 + 1 = f.mantissaBits)
    (hlow : f.minExponent ≤ e)
    (hhigh : e + f.mantissaBitsWithoutImplicit < 2 ^ (f.exponentBits - 1)) (hpos : 0 < m) :
    UnpackedFloat.unpack f (UnpackedFloat.pack f (.finite s m e hpos)) = .finite s m e hpos := by
  obtain ⟨w, hw⟩ : ∃ w, f.mantissaBitsWithoutImplicit = w := ⟨_, rfl⟩
  have hbits : f.mantissaBits = 1 + w := by rw [← hw]; rfl
  obtain ⟨half, hhalf⟩ : ∃ half, 2 ^ (f.exponentBits - 1) = half := ⟨_, rfl⟩
  have hdouble : 2 ^ f.exponentBits = 2 * half := by
    have := f.he
    rw [← hhalf, ← Nat.pow_succ', show (f.exponentBits - 1).succ = f.exponentBits by omega]
  have hhalfpos : 0 < half := hhalf ▸ Nat.two_pow_pos _
  have hbias : f.exponentBias = half - 1 := by rw [← hhalf]; rfl
  have hleast : f.minExponent = 3 - half - (1 + w : Nat) := by
    unfold Format.minExponent
    rw [hbits, ← hhalf]
    push_cast
    rfl
  obtain ⟨biased, hbiased⟩ : ∃ biased,
    (e + f.exponentBias + f.mantissaBitsWithoutImplicit).toNat = biased := ⟨_, rfl⟩
  have hhigh' : e + w < half := by
    rw [← hhalf, ← hw]
    exact_mod_cast hhigh
  have hsome : 0 < biased := by omega
  have hmost : biased + 1 < 2 ^ f.exponentBits := by omega
  have hexponent : (BitVec.ofNat f.exponentBits biased).toNat = biased := by
    rw [BitVec.toNat_ofNat, Nat.mod_eq_of_lt (by omega)]
  -- the greatest exponent is that of infinity, the least that of numbers without the implicit bit
  have hmax : ¬BitVec.ofNat f.exponentBits biased = -1#_ := fun h => by
    rw [h, BitVec.neg_one_eq_allOnes, BitVec.toNat_allOnes] at hexponent
    omega
  have hzero : ¬BitVec.ofNat f.exponentBits biased = 0#_ := fun h => by
    rw [h, BitVec.toNat_zero] at hexponent
    omega
  have hmantissa : (1#1 ++ BitVec.ofNat f.mantissaBitsWithoutImplicit m).toNat = m :=
    toNat_append_stored (by omega) hpos
  have hpacked : UnpackedFloat.pack f (.finite s m e hpos) =
      packComponents f s (BitVec.ofNat _ biased) (BitVec.ofNat _ m) := by
    unfold UnpackedFloat.pack
    simp only [hbiased]
    rw [if_neg (by omega), if_pos hm]
  rw [hpacked]
  unfold UnpackedFloat.unpack
  simp only [unpackMantissa_packComponents, unpackExponent_packComponents]
  rw [unpackSign_packComponents, Sign.ofBitVec_toBitVec, if_neg hmax, if_neg hzero]
  simp only [hmantissa, hexponent]
  congr 1
  omega

end Patchbay.Rounding
