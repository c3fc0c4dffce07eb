import Patchbay.Proofs.Number.Shortest
import Patchbay.Proofs.Number.Whole
/-!
# Correct rounding

A binary64 result has the mantissa nearest to the exact one (`roundWithAccuracy_eq`). A number that
lies in the rounding interval of another is rounded to it (`roundWithAccuracy_of_holds`), and a
rounded number is at most half a unit of its last place above the exact one
(`roundWithAccuracy_le`).
-/

namespace Patchbay.Binary64

open Float.Model Float.Model.UnpackedFloat Patchbay.Number Patchbay.Rounding

/-! ## Rounding -/

variable {m : Nat} {e : Int} {accuracy : Accuracy} {x : ℚ}

/-- The number with a rounded mantissa. A mantissa that has become one bit too long is a power of
two. -/
def ofRounded (s : Sign) (r : Nat) (t : Int) : UnpackedFloat :=
  if h : r = 0 then .zero s
  else if r < 2 ^ 53 then .finite s r t (Nat.pos_of_ne_zero h)
  else .finite s (2 ^ 52) (t + 1) (by decide)

/-- Rounding takes the nearest mantissa for the exponent. -/
theorem roundWithAccuracy_eq (s : Sign)
    (hx : Locates (ExtendedMantissa.ofMantissaAndAccuracy m accuracy) x) {t : Int}
    (ht : max ((m.log2 : Int) - 52 + e) (-1074) = t) (he : e ≤ t) :
    ∃ r, NearestEven r (x * 2 ^ e / 2 ^ t) ∧ r ≤ 2 ^ 53 ∧
      roundWithAccuracy .binary64 s m e accuracy = ofRounded s r t := by
  refine roundWithAccuracy_nearest .binary64 s hx ?_ he
  rw [targetExponent_eq, ← ht]
  show max ((m.log2 : Int) + 1 - (53 : Nat) + e) (-1074) = _
  congr 1
  omega

/-- Numbers in the rounding interval of a number round to its mantissa. -/
theorem nearestEven_of_holds {M : Nat} {Q : Int} {y : ℚ}
    (h : (Shortest.interval M Q).Holds (Q - 2) (y * 2 ^ Q)) :
    NearestEven M y ∧ (M = 2 ^ 52 → -1074 < Q → (2 : ℚ) ^ 52 - 1 / 4 ≤ y) := by
  have htwo : (0 : ℚ) < 2 ^ (Q - 2) := zpow_pos (by norm_num) _
  have hquarters : y * 2 ^ Q = 4 * y * 2 ^ (Q - 2) := by
    rw [show Q = 2 + (Q - 2) by ring, zpow_add₀ (by norm_num), show 2 + (Q - 2) - 2 = Q - 2 by ring]
    norm_num
    ring
  have hlow : ((4 * M - 2 : Nat) : ℚ) ≤ (Shortest.interval M Q).low := by
    simp only [Shortest.interval]
    split <;> norm_cast
    omega
  have htight : M = 2 ^ 52 → -1074 < Q → ((2 : ℚ) ^ 54 - 1) ≤ (Shortest.interval M Q).low := by
    rintro rfl hQ
    simp only [Shortest.interval]
    rw [if_pos ⟨rfl, hQ⟩]
    norm_num
  have hcast : 4 * (M : ℚ) ≤ (4 * M - 2 : Nat) + 2 := by
    have hnat : 4 * M ≤ 4 * M - 2 + 2 := by omega
    exact_mod_cast hnat
  have hhigh : ((Shortest.interval M Q).high : ℚ) = 4 * M + 2 := by
    simp [Shortest.interval]
  rw [hquarters] at h
  unfold Shortest.Interval.Holds at h
  rw [mul_le_mul_iff_left₀ htwo, mul_le_mul_iff_left₀ htwo, mul_lt_mul_iff_left₀ htwo,
    mul_lt_mul_iff_left₀ htwo, hhigh] at h
  have hclosed : (Shortest.interval M Q).closed = (M % 2 == 0) := rfl
  unfold NearestEven
  by_cases heven : M % 2 = 0
  · rw [if_pos (by rw [hclosed, heven]; rfl)] at h
    rw [if_pos heven]
    exact ⟨⟨by linarith, by linarith⟩, fun hM hQ => by linarith [htight hM hQ]⟩
  · rw [if_neg (by rw [hclosed, beq_iff_eq]; exact heven)] at h
    rw [if_neg heven]
    exact ⟨⟨by linarith, by linarith⟩, fun hM hQ => by linarith [htight hM hQ]⟩

/-- A number in the rounding interval of another has the other's exponent. Only just below a power
of two its mantissa has one bit more. -/
theorem exponent_of_holds {M : Nat} {Q b : Int} {y : ℚ} (hlow : -1074 ≤ Q)
    (hfull : Q = -1074 ∨ 2 ^ 52 ≤ M) (hbits : M < 2 ^ 53) (hfrom : (2 : ℚ) ^ b ≤ y)
    (hto : y < 2 ^ (b + 1)) (hM : NearestEven M y)
    (htight : M = 2 ^ 52 → -1074 < Q → (2 : ℚ) ^ 52 - 1 / 4 ≤ y) :
    max (b - 52 + Q) (-1074) = Q ∨
      max (b - 52 + Q) (-1074) = Q - 1 ∧ M = 2 ^ 52 ∧ (2 : ℚ) ^ 52 - 1 / 4 ≤ y ∧ y < 2 ^ 52 := by
  obtain ⟨hbelow, habove⟩ := hM.bounds
  have hb : b < 53 := by
    have hy : y < 2 ^ (53 : Int) := by
      have hM' : (M : ℚ) + 1 ≤ 2 ^ (53 : Int) := by exact_mod_cast hbits
      linarith
    exact (zpow_lt_zpow_iff_right₀ (by norm_num : (1 : ℚ) < 2)).mp (hfrom.trans_lt hy)
  rcases hlow.eq_or_lt with rfl | hnormal
  · exact Or.inl (by omega)
  have hmore : M = 2 ^ 52 ∨ (2 : ℚ) ^ 52 + 1 / 2 ≤ y := by
    rcases Nat.eq_or_lt_of_le (hfull.resolve_left hnormal.ne') with heq | hlt
    · exact Or.inl heq.symm
    · have hM' : (2 : ℚ) ^ 52 + 1 ≤ M := by exact_mod_cast hlt
      exact Or.inr (by linarith)
  have hhalf : (2 : ℚ) ^ 52 - 1 / 4 ≤ y :=
    hmore.elim (fun heq => htight heq hnormal) fun hlt => by linarith
  have hb' : 51 < b + 1 := by
    refine (zpow_lt_zpow_iff_right₀ (by norm_num : (1 : ℚ) < 2)).mp (lt_of_le_of_lt ?_ hto)
    norm_num at hhalf ⊢
    linarith
  obtain rfl | rfl : b = 52 ∨ b = 51 := by omega
  · exact Or.inl (by omega)
  · have hless : y < 2 ^ 52 := by exact_mod_cast hto
    exact Or.inr ⟨by omega, hmore.resolve_right (by linarith), hhalf, hless⟩

/-- A mantissa with a bit too many that is just below a power of two is rounded up to the power. -/
theorem ofRounded_of_below {s : Sign} {r : Nat} {Q : Int} {y : ℚ} (hr : NearestEven r (2 * y))
    (hhalf : (2 : ℚ) ^ 52 - 1 / 4 ≤ y) (hless : y < 2 ^ 52) :
    ofRounded s r (Q - 1) = .finite s (2 ^ 52) Q (by decide) := by
  have hnearest : NearestEven (2 ^ 53) (2 * y) := by
    unfold NearestEven
    rw [if_pos (by norm_num)]
    push_cast
    constructor <;> linarith
  obtain rfl := hr.unique hnearest
  rw [ofRounded, dif_neg (by norm_num), if_neg (by norm_num)]
  simp only [Int.sub_add_cancel]

/-- A result in the rounding interval of a number is rounded to the number. -/
theorem roundWithAccuracy_of_holds (s : Sign)
    (hx : Locates (ExtendedMantissa.ofMantissaAndAccuracy m accuracy) x) (hm : m ≠ 0)
    (he : e ≤ max ((m.log2 : Int) - 52 + e) (-1074)) {M : Nat} {Q : Int} (hpos : 0 < M)
    (hbits : M < 2 ^ 53) (hlow : -1074 ≤ Q) (hfull : Q = -1074 ∨ 2 ^ 52 ≤ M)
    (hholds : (Shortest.interval M Q).Holds (Q - 2) (x * 2 ^ e)) :
    roundWithAccuracy .binary64 s m e accuracy = .finite s M Q hpos := by
  obtain ⟨t, ht⟩ : ∃ t, max ((m.log2 : Int) - 52 + e) (-1074) = t := ⟨_, rfl⟩
  obtain ⟨r, hr, -, hround⟩ := roundWithAccuracy_eq s hx ht (ht ▸ he)
  have hunit : (2 : ℚ) ^ Q ≠ 0 := zpow_ne_zero _ (by norm_num)
  -- the number in units of the other's last place
  obtain ⟨y, hy⟩ : ∃ y, x * 2 ^ e = y * 2 ^ Q := ⟨x * 2 ^ e / 2 ^ Q, (div_mul_cancel₀ _ hunit).symm⟩
  have hscale : y = x * 2 ^ (e - Q) := by
    rw [zpow_sub₀ (by norm_num), mul_div_assoc', hy, mul_div_cancel_right₀ _ hunit]
  obtain ⟨hfrom, hto⟩ := hx.scaled_bounds hm (e - Q)
  rw [← hscale, ← Int.add_sub_assoc] at hfrom
  rw [← hscale, show (m.log2 : Int) + 1 + (e - Q) = m.log2 + e - Q + 1 by ring] at hto
  rw [hy] at hholds hr
  obtain ⟨hM, htight⟩ := nearestEven_of_holds hholds
  have hexponent := exponent_of_holds hlow hfull hbits hfrom hto hM htight
  rw [show (m.log2 : Int) + e - Q - 52 + Q = (m.log2 : Int) - 52 + e by ring, ht] at hexponent
  rw [hround]
  rcases hexponent with rfl | ⟨rfl, rfl, hhalf, hless⟩
  · rw [mul_div_cancel_right₀ _ hunit] at hr
    obtain rfl := hr.unique hM
    rw [ofRounded, dif_neg hpos.ne', if_pos hbits]
  · have hdouble : y * 2 ^ Q / 2 ^ (Q - 1) = 2 * y := by
      rw [zpow_sub₀ (by norm_num), zpow_one]
      field_simp
    rw [hdouble] at hr
    exact ofRounded_of_below hr hhalf hless

theorem log2_eq_of_full {M : Nat} (hfull : 2 ^ 52 ≤ M) (hbits : M < 2 ^ 53) : M.log2 = 52 :=
  (Nat.log2_eq_iff (by omega)).mpr ⟨hfull, hbits⟩

/-- A full mantissa stays one, and the value does not change. -/
theorem ofRounded_full (s : Sign) {r : Nat} (hr : 2 ^ 52 ≤ r) (hmax : r ≤ 2 ^ 53) (t : Int) :
    ∃ M Q, ∃ hpos : 0 < M, ofRounded s r t = .finite s M Q hpos ∧ M.log2 = 52 ∧
      (M : ℚ) * 2 ^ Q = r * 2 ^ t ∧ t ≤ Q ∧ Q ≤ t + 1 ∧ (r < 2 ^ 53 → Q = t) := by
  obtain ⟨M, Q, hpos, hrounded, hfull, hvalue, hexponent⟩ := roundedTo_full .binary64 s hr hmax t
  refine ⟨M, Q, hpos, hrounded, Nat.succ_injective hfull, hvalue, ?_⟩
  rcases hexponent with ⟨rfl, -⟩ | ⟨rfl, rfl, -⟩
  · exact ⟨by omega, by omega, fun _ => rfl⟩
  · exact ⟨by omega, by omega, fun h => absurd h (Nat.lt_irrefl _)⟩

/-- Below the first number that has no finite neighbour above it, rounding stays in range. -/
theorem exponent_le_of_lt {r : Nat} {t : Int} {y : ℚ} (hfull : (2 : ℚ) ^ 52 ≤ y)
    (hr : NearestEven r y) (hlt : y * 2 ^ t < (2 ^ 53 - 1 / 2) * 2 ^ (971 : Int)) :
    t < 971 ∨ t = 971 ∧ r < 2 ^ 53 := by
  have hunit : (0 : ℚ) < 2 ^ (971 : Int) := zpow_pos (by norm_num) _
  rcases Int.lt_trichotomy t 971 with h | rfl | h
  · exact Or.inl h
  · refine Or.inr ⟨rfl, ?_⟩
    have hy : y < 2 ^ 53 - 1 / 2 := (mul_lt_mul_iff_left₀ hunit).mp hlt
    have hbelow := hr.bounds.1
    have : (r : ℚ) < (2 ^ 53 : Nat) := by push_cast; linarith only [hbelow, hy]
    exact Nat.cast_lt.mp this
  · exfalso
    have hstep : (2 : ℚ) ^ (971 : Int) * 2 ≤ 2 ^ t := by
      rw [← zpow_add_one₀ (by norm_num)]
      exact zpow_le_zpow_right₀ (by norm_num) h
    have hleast : 2 ^ 52 * ((2 : ℚ) ^ (971 : Int) * 2) ≤ y * 2 ^ t :=
      mul_le_mul hfull hstep (by positivity) (by linarith only [hfull])
    generalize (2 : ℚ) ^ (971 : Int) = unit at hlt hunit hleast
    linarith only [hlt, hunit, hleast]

/-- A number rounded is at most half a unit of its last place above it. -/
theorem roundWithAccuracy_le (s : Sign)
    (hx : Locates (ExtendedMantissa.ofMantissaAndAccuracy m accuracy) x) (hm : m ≠ 0)
    (hlong : 52 ≤ m.log2) (hnormal : -1022 ≤ (m.log2 : Int) + e) : ∃ M Q, ∃ hpos : 0 < M,
      roundWithAccuracy .binary64 s m e accuracy = .finite s M Q hpos ∧ M.log2 = 52 ∧
        (m.log2 : Int) - 52 + e ≤ Q ∧ M * 2 ^ Q ≤ x * 2 ^ e * (1 + 1 / 2 ^ 53) ∧
        (x * 2 ^ e < (2 ^ 53 - 1 / 2) * 2 ^ (971 : Int) → Q ≤ 971) := by
  obtain ⟨t, ht⟩ : ∃ t : Int, (m.log2 : Int) - 52 + e = t := ⟨_, rfl⟩
  have htarget : max ((m.log2 : Int) - 52 + e) (-1074) = t := by omega
  obtain ⟨r, hr, hmax, hround⟩ := roundWithAccuracy_eq s hx htarget (by omega)
  have hunit : (0 : ℚ) < 2 ^ t := zpow_pos (by norm_num) t
  obtain ⟨y, hy⟩ : ∃ y, x * 2 ^ e = y * 2 ^ t :=
    ⟨x * 2 ^ e / 2 ^ t, (div_mul_cancel₀ _ hunit.ne').symm⟩
  rw [hy, mul_div_cancel_right₀ _ hunit.ne'] at hr
  have hfull : (2 : ℚ) ^ 52 ≤ y := by
    have hfrom : (2 : ℚ) ^ (52 + t) ≤ y * 2 ^ t := by
      rw [show 52 + t = (m.log2 : Int) + e by omega, ← hy]
      exact (hx.scaled_bounds hm e).1
    rw [zpow_add₀ (by norm_num), mul_le_mul_iff_left₀ hunit] at hfrom
    exact_mod_cast hfrom
  obtain ⟨hbelow, habove⟩ := hr.bounds
  have hr52 : 2 ^ 52 ≤ r := hr.le_of_le (by push_cast; exact hfull)
  obtain ⟨M, Q, hpos, hrounded, hlog, hvalue, hstart, hnext, hsame⟩ := ofRounded_full s hr52 hmax t
  refine ⟨M, Q, hpos, hround.trans hrounded, hlog, by omega, ?_, fun hlt => ?_⟩
  · rw [hvalue, hy, mul_right_comm]
    refine mul_le_mul_of_nonneg_right ?_ hunit.le
    linarith
  · rcases exponent_le_of_lt hfull hr (hy ▸ hlt) with h | ⟨h, hsmall⟩
    · omega
    · have := hsame hsmall
      omega

end Patchbay.Binary64
