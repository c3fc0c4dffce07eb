import Mathlib.Algebra.Order.Floor.Semiring
import Patchbay.Proofs.Number.Reading
/-!
# Numbers as counts

A number becomes a count by dropping its fraction, and what is too great for a word becomes the
greatest word (`toCount_of_rounded`). A product is rounded before, so its count reaches a power of
two when the exact product is half a unit of the last place below the power
(`two_pow_le_toCount_mul`), and the count is cut off when the exact product is that near to `2 ^ 64`
(`toCount_mul_eq_greatest`).
-/

namespace Patchbay.Binary64

open Float.Model Float.Model.UnpackedFloat Patchbay.Number Patchbay.Rounding

/-- The greatest count. -/
def greatestWord : Nat := 2 ^ 64 - 1

/-! ## Fractions dropped -/

theorem roundToInt_positive (m : Nat) (q : Int) :
    roundToInt .positive m q = (⌊(m : ℚ) * 2 ^ q⌋₊ : Int) := by
  have hlocates := (locates_exact (m * 2 ^ q.toNat)).shiftRight (-q).toNat
  obtain ⟨hlow, hhigh⟩ := hlocates.bounds
  have hscale : ((m * 2 ^ q.toNat : Nat) : ℚ) / 2 ^ (-q).toNat = m * 2 ^ q := by
    push_cast
    rw [mul_div_assoc, ← Shortest.zpow_eq_div 2 (by norm_num) q]
  rw [hscale] at hlow hhigh
  have hfloor := (Nat.floor_eq_iff (by positivity)).mpr ⟨hlow, hhigh⟩
  unfold roundToInt decreaseExponent shiftToExponent
  simp only [Int.sub_zero, Nat.shiftLeft_eq, show (0 - (q - (q.toNat : Int))).toNat = (-q).toNat by
    omega]
  rw [hfloor]
  rfl

variable {x y : Float} {m : Nat} {q : Int} {hpos : 0 < m}

theorem toNat_ofNatClamp (n : Nat) : (UInt64.ofNatClamp n).toNat = min n greatestWord := by
  unfold UInt64.ofNatClamp greatestWord
  split
  next h =>
    have hfew : n < 2 ^ 64 := h
    rw [UInt64.toNat_ofNatLT]
    omega
  next h =>
    have hmany : ¬n < 2 ^ 64 := h
    rw [UInt64.toNat_ofNatLT]
    show 2 ^ 64 - 1 = _
    omega

theorem toCount_finite (hx : x.toModel.unpack = .finite .positive m q hpos) :
    Scalar.toCount x = min ⌊(m : ℚ) * 2 ^ q⌋₊ greatestWord := by
  show (UInt64.ofNatClamp (x.toModel.unpack.toInt 0 (UInt64.size - 1)).toNat).toNat = _
  rw [hx, toNat_ofNatClamp, UnpackedFloat.toInt, roundToInt_positive, Int.toNat_natCast]

/-- With too great an exponent nothing is left but the sign. -/
theorem unpack_pack_overflow (s : Sign) (hpos : 0 < m) (hhigh : 972 ≤ q) :
    (Float.Model.pack (.finite s m q hpos)).unpack = .infinity s := by
  have hinfinite : UnpackedFloat.pack .binary64 (.finite s m q hpos) =
      packedInfinity .binary64 s := by
    unfold UnpackedFloat.pack
    show (if 2 ^ 11 ≤ (q + (1023 : Nat) + (52 : Nat)).toNat + 1 then _ else _) = _
    rw [if_pos (by omega)]
  show UnpackedFloat.unpack .binary64 (UnpackedFloat.pack .binary64 (.finite s m q hpos)) = _
  rw [hinfinite]
  cases s <;> rfl

/-- A rounded number in parts that are packed as they are: a mantissa that has become one bit too
long is a power of two. -/
theorem exists_canonical {r : Nat} {t : Int} (hsome : 0 < r) (hmax : r ≤ 2 ^ 53) (hlow : -1074 ≤ t)
    (hfull : t = -1074 ∨ 2 ^ 52 ≤ r) : ∃ M Q, ∃ hM : 0 < M,
      ofRounded .positive r t = .finite .positive M Q hM ∧ M < 2 ^ 53 ∧ -1074 ≤ Q ∧
        (Q = -1074 ∨ 2 ^ 52 ≤ M) ∧ (M : ℚ) * 2 ^ Q = r * 2 ^ t := by
  rw [ofRounded, dif_neg hsome.ne']
  rcases Nat.lt_or_eq_of_le hmax with hsmall | rfl
  · rw [if_pos hsmall]
    exact ⟨r, t, hsome, rfl, hsmall, hlow, hfull, rfl⟩
  · rw [if_neg (Nat.lt_irrefl _)]
    refine ⟨2 ^ 52, t + 1, by decide, rfl, by decide, by omega, Or.inr le_rfl, ?_⟩
    rw [zpow_add_one₀ (by norm_num)]
    push_cast
    ring

/-- The count of a rounded number. -/
theorem toCount_of_rounded {r : Nat} {t : Int}
    (hx : x.toModel = Float.Model.pack (ofRounded .positive r t)) (hmax : r ≤ 2 ^ 53)
    (hlow : -1074 ≤ t) (hfull : t = -1074 ∨ 2 ^ 52 ≤ r) :
    Scalar.toCount x = min ⌊(r : ℚ) * 2 ^ t⌋₊ greatestWord := by
  rcases Nat.eq_zero_or_pos r with rfl | hsome
  · have hzero : x.toModel.unpack = .zero .positive := by
      rw [hx, ofRounded, dif_pos rfl]
      rfl
    show (UInt64.ofNatClamp (x.toModel.unpack.toInt 0 (UInt64.size - 1)).toNat).toNat = _
    rw [hzero]
    simp [UnpackedFloat.toInt, toNat_ofNatClamp]
  · obtain ⟨M, Q, hM, hrounded, hbits, hleast, hcanonical, hvalue⟩ :=
      exists_canonical hsome hmax hlow hfull
    rw [hrounded] at hx
    rw [← hvalue]
    rcases lt_or_ge 971 Q with hmany | hfew
    · have hinfinite : x.toModel.unpack = .infinity .positive := by
        rw [hx, unpack_pack_overflow .positive hM hmany]
      have hmost : greatestWord ≤ ⌊(M : ℚ) * 2 ^ Q⌋₊ := by
        refine Nat.le_floor ?_
        have hone : (1 : ℚ) ≤ M := by exact_mod_cast hM
        calc (greatestWord : ℚ) ≤ 2 ^ (64 : Int) := by norm_num [greatestWord]
          _ ≤ 2 ^ Q := zpow_le_zpow_right₀ (by norm_num) (by omega)
          _ ≤ M * 2 ^ Q := le_mul_of_one_le_left (zpow_pos (by norm_num) Q).le hone
      show (UInt64.ofNatClamp (x.toModel.unpack.toInt 0 (UInt64.size - 1)).toNat).toNat = _
      rw [hinfinite, toNat_ofNatClamp, Nat.min_eq_right hmost]
      rfl
    · have hfinite : x.toModel.unpack = .finite .positive M Q hM := by
        rw [hx, unpack_pack_canonical .positive hM hbits hleast hfew hcanonical]
      exact toCount_finite hfinite

/-! ## Products -/

/-- A product with a number that has a full mantissa, rounded. -/
theorem mul_rounded (hx : x.toModel.unpack = .finite .positive m q hpos) {n : Nat} {c : Int}
    {hn : 0 < n} (hy : y.toModel.unpack = .finite .positive n c hn) (hlog : n.log2 = 52) :
    ∃ r t, (x * y).toModel = Float.Model.pack (ofRounded .positive r t) ∧ r ≤ 2 ^ 53 ∧
      -1074 ≤ t ∧ (t = -1074 ∨ 2 ^ 52 ≤ r) ∧ ∀ k : Int, 0 ≤ k →
        ((r : ℚ) * 2 ^ t < 2 ^ k ↔ (m * 2 ^ q) * (n * 2 ^ c) < (2 : ℚ) ^ k - 2 ^ (k - 54)) := by
  have hne : m * n ≠ 0 := (Nat.mul_pos hpos hn).ne'
  have hlong : 52 ≤ (m * n).log2 := by
    refine (Nat.le_log2 hne).mpr ?_
    exact (two_pow_le_of_log2 hn hlog).trans (Nat.le_mul_of_pos_left n hpos)
  obtain ⟨t, ht⟩ : ∃ t : Int, max (((m * n).log2 : Int) - 52 + (q + c)) (-1074) = t := ⟨_, rfl⟩
  obtain ⟨r, hr, hmax, hround⟩ :=
    roundWithAccuracy_eq .positive (locates_exact (m * n)) ht (by omega)
  have hvalue : (m * 2 ^ q) * (n * 2 ^ c) = ((m * n : Nat) : ℚ) * 2 ^ (q + c) := by
    rw [zpow_add₀ (by norm_num)]
    push_cast
    ring
  obtain ⟨hleast, hgreatest⟩ := (locates_exact (m * n)).scaled_bounds hne (q + c)
  have hhigh : ((m * n : Nat) : ℚ) * 2 ^ (q + c) < 2 ^ (t + (53 : Nat)) :=
    hgreatest.trans_le (zpow_le_zpow_right₀ (by norm_num) (by omega))
  -- only with the least exponent can the mantissa have fewer bits
  have hlow : t = -1074 ∨ (2 : ℚ) ^ (t + (53 : Nat) - 1) ≤ ((m * n : Nat) : ℚ) * 2 ^ (q + c) := by
    refine or_iff_not_imp_left.mpr fun hnormal => ?_
    have hpower : (2 : ℚ) ^ (t + (53 : Nat) - 1) ≤ 2 ^ (((m * n).log2 : Int) + (q + c)) :=
      zpow_le_zpow_right₀ (by norm_num) (by omega)
    exact hpower.trans hleast
  refine ⟨r, t, ?_, hmax, by omega, ?_, fun k hk => ?_⟩
  · show Float.Model.pack (UnpackedFloat.mul .binary64 x.toModel.unpack y.toModel.unpack) = _
    rw [hx, hy, ← hround]
    rfl
  · refine hlow.imp_right fun hnormal => hr.le_of_le ?_
    rw [le_div_iff₀ (zpow_pos (by norm_num) t)]
    refine hnormal.trans' (Eq.le ?_)
    rw [show t + ((53 : Nat) : Int) - 1 = 52 + t by omega, zpow_add₀ (by norm_num)]
    norm_num
  · rw [hvalue]
    have hlt := mul_lt_two_pow_iff (k := k) (by decide) hr hmax hhigh
      (hlow.imp_left fun h => by omega)
    rwa [show k - ((53 : Nat) : Int) - 1 = k - 54 by omega] at hlt

/-- No number lies just below `2 ^ 64`. -/
theorem two_pow_le_of_greatestWord_le {r : Nat} {t : Int} (hmax : r ≤ 2 ^ 53)
    (hmost : (greatestWord : ℚ) ≤ r * 2 ^ t) : (2 : ℚ) ^ 64 ≤ r * 2 ^ t := by
  have hcast : (r : ℚ) ≤ 2 ^ 53 := by exact_mod_cast hmax
  have hword : (greatestWord : ℚ) = 2 ^ 64 - 1 := by norm_num [greatestWord]
  rw [hword] at hmost
  have hlarge : 11 ≤ t := by
    by_contra hless
    have hunit : (2 : ℚ) ^ t ≤ 2 ^ (10 : Int) := zpow_le_zpow_right₀ (by norm_num) (by omega)
    have hproduct : (r : ℚ) * 2 ^ t ≤ 2 ^ 53 * 2 ^ (10 : Int) :=
      mul_le_mul hcast hunit (zpow_pos (by norm_num) t).le (by norm_num)
    norm_num at hmost hproduct
    linarith
  -- a multiple of `2 ^ 11` below `2 ^ 64` is further away than one
  obtain ⟨j, rfl⟩ : ∃ j : Nat, t = 11 + j := ⟨(t - 11).toNat, by omega⟩
  have hvalue : (r : ℚ) * 2 ^ (11 + (j : Int)) = (r * 2 ^ j * 2 ^ 11 : Nat) := by
    rw [zpow_add₀ (by norm_num), zpow_natCast]
    push_cast
    ring
  rw [hvalue] at hmost ⊢
  generalize r * 2 ^ j = n at hmost ⊢
  push_cast at hmost ⊢
  have hmore : ((2 ^ 53 : Nat) : ℚ) < (n + 1 : Nat) := by
    push_cast
    linarith
  have hn : ((2 ^ 53 : Nat) : ℚ) ≤ n := Nat.cast_le.mpr (Nat.lt_succ_iff.mp (Nat.cast_lt.mp hmore))
  push_cast at hn
  linarith

section

variable {n : Nat} {c : Int} {hn : 0 < n}

/-- Where the count of a product reaches a power of two. -/
theorem two_pow_le_toCount_mul (hx : x.toModel.unpack = .finite .positive m q hpos)
    (hy : y.toModel.unpack = .finite .positive n c hn) (hlog : n.log2 = 52) {k : Nat}
    (hk : k < 64) :
    2 ^ k ≤ Scalar.toCount (x * y) ↔
      (2 : ℚ) ^ k - 2 ^ ((k : Int) - 54) ≤ (m * 2 ^ q) * (n * 2 ^ c) := by
  obtain ⟨r, t, hproduct, hmax, hlow, hfull, hbelow⟩ := mul_rounded hx hy hlog
  have hword : 2 ^ k ≤ greatestWord := by
    have hpower : 2 ^ k < 2 ^ 64 := Nat.pow_lt_pow_right (by decide) hk
    unfold greatestWord
    omega
  have hreached := (hbelow k (Int.natCast_nonneg k)).not
  rw [not_lt, not_lt, zpow_natCast] at hreached
  rw [toCount_of_rounded hproduct hmax hlow hfull, le_min_iff, ← hreached,
    Nat.le_floor_iff (by positivity)]
  push_cast
  exact and_iff_left hword

/-- Where the count of a product is cut off. -/
theorem toCount_mul_eq_greatest (hx : x.toModel.unpack = .finite .positive m q hpos)
    (hy : y.toModel.unpack = .finite .positive n c hn) (hlog : n.log2 = 52) :
    Scalar.toCount (x * y) = greatestWord ↔
      (2 : ℚ) ^ 64 - 2 ^ 10 ≤ (m * 2 ^ q) * (n * 2 ^ c) := by
  obtain ⟨r, t, hproduct, hmax, hlow, hfull, hbelow⟩ := mul_rounded hx hy hlog
  have hreached := (hbelow 64 (by decide)).not
  rw [not_lt, not_lt] at hreached
  have hgap : (2 : ℚ) ^ ((64 : Int) - 54) = 2 ^ 10 := by norm_num
  have hpower : (2 : ℚ) ^ (64 : Int) = 2 ^ 64 := by norm_num
  rw [hgap, hpower] at hreached
  rw [toCount_of_rounded hproduct hmax hlow hfull, min_eq_right_iff, ← hreached,
    Nat.le_floor_iff (by positivity)]
  have hword : (greatestWord : ℚ) ≤ 2 ^ 64 := by norm_num [greatestWord]
  exact ⟨two_pow_le_of_greatestWord_le hmax, hword.trans⟩

end

end Patchbay.Binary64
