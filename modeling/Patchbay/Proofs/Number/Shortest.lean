import Mathlib.Algebra.Order.Field.Power
import Mathlib.Tactic.FieldSimp
import Mathlib.Tactic.Linarith
import Mathlib.Tactic.NormNum
import Mathlib.Tactic.Positivity
import Mathlib.Tactic.Ring
import Patchbay.Number.Shortest
/-!
# Shortest decimals

The decimal that is found for a number lies in the number's rounding interval (`shortest_spec`): it
is read back as the number by whoever rounds correctly. The search ends before it runs out of grids,
because a grid finer than half the interval has a point in it (`onGrid?_isSome`), and this also
bounds the digits: the grid before the one with the point was too coarse.
-/

namespace Patchbay.Number

/-- The number that a decimal stands for. -/
def Decimal.value (d : Decimal) : ℚ := d.digits * 10 ^ d.exponent

namespace Shortest

/-! ## Powers of two and of ten -/

theorem zpow_le_zpow_of_pow_le {x y : ℚ} {i j : Nat} (hx : 0 < x) (hy : 1 ≤ y) (hi : i ≠ 0)
    (h : x ^ i ≤ y ^ j) {a b : Int} (ha : 0 ≤ a) (hab : j * a ≤ i * b) : x ^ a ≤ y ^ b := by
  have hpos : 0 < y := lt_of_lt_of_le one_pos hy
  refine le_of_pow_le_pow_left₀ hi (zpow_pos hpos b).le ?_
  calc (x ^ a) ^ i = (x ^ i) ^ a := by rw [← zpow_natCast, ← zpow_natCast, zpow_comm]
    _ ≤ (y ^ j) ^ a := zpow_le_zpow_left₀ ha (pow_pos hx i).le h
    _ = y ^ (j * a) := by rw [← zpow_natCast, ← zpow_mul]
    _ ≤ y ^ (i * b) := zpow_le_zpow_right₀ hy hab
    _ = (y ^ b) ^ i := by rw [← zpow_natCast, ← zpow_mul, mul_comm]

/-- `10³` is a little less than `2¹⁰`, and `2³³` a little less than `10¹⁰`. -/
theorem ten_zpow_le {a b : Int} (hpos : 0 ≤ a → 10 * a ≤ 3 * b) (hneg : a < 0 → 33 * a ≤ 10 * b) :
    (10 : ℚ) ^ a ≤ 2 ^ b := by
  rcases Int.lt_or_le a 0 with ha | ha
  · rcases Int.lt_or_le b 0 with hb | hb
    · have hinv : (2 : ℚ) ^ (-b) ≤ 10 ^ (-a) :=
        zpow_le_zpow_of_pow_le (i := 33) (j := 10) (by norm_num) (by norm_num) (by decide)
          (by norm_num) (by omega) (by have := hneg ha; push_cast; omega)
      rw [zpow_neg, zpow_neg] at hinv
      exact (inv_le_inv₀ (by positivity) (by positivity)).mp hinv
    · exact (zpow_le_one_of_nonpos₀ (by norm_num) ha.le).trans (one_le_zpow₀ (by norm_num) hb)
  · exact zpow_le_zpow_of_pow_le (i := 3) (j := 10) (by norm_num) (by norm_num) (by decide)
      (by norm_num) ha (by have := hpos ha; push_cast; omega)

theorem two_zpow_le {a b : Int} (hpos : 0 ≤ b → 10 * b ≤ 33 * a) (hneg : b < 0 → 3 * b ≤ 10 * a) :
    (2 : ℚ) ^ b ≤ 10 ^ a := by
  rcases Int.lt_or_le b 0 with hb | hb
  · rcases Int.lt_or_le a 0 with ha | ha
    · have hinv : (10 : ℚ) ^ (-a) ≤ 2 ^ (-b) :=
        zpow_le_zpow_of_pow_le (i := 3) (j := 10) (by norm_num) (by norm_num) (by decide)
          (by norm_num) (by omega) (by have := hneg hb; push_cast; omega)
      rw [zpow_neg, zpow_neg] at hinv
      exact (inv_le_inv₀ (by positivity) (by positivity)).mp hinv
    · exact (zpow_le_one_of_nonpos₀ (by norm_num) hb.le).trans (one_le_zpow₀ (by norm_num) ha)
  · exact zpow_le_zpow_of_pow_le (i := 33) (j := 10) (by norm_num) (by norm_num) (by decide)
      (by norm_num) hb (by have := hpos hb; push_cast; omega)

/-! ## One grid -/

theorem decimalUnit_pos (k e : Int) : (0 : ℚ) < decimalUnit k e := by
  have : 0 < decimalUnit k e :=
    Nat.mul_pos (Nat.pow_pos (by decide)) (Nat.pow_pos (by decide))
  exact_mod_cast this

theorem zpow_eq_div (x : ℚ) (hx : x ≠ 0) (e : Int) : x ^ e = x ^ e.toNat / x ^ (-e).toNat := by
  have he : e = e.toNat - (-e).toNat := by omega
  conv_lhs => rw [he]
  rw [zpow_sub₀ hx, zpow_natCast, zpow_natCast]

/-- The two units are one unit each of the binary and of the decimal grid. -/
theorem binaryUnit_eq (k e : Int) : (binaryUnit k e : ℚ) = decimalUnit k e * (2 ^ e / 10 ^ k) := by
  rw [zpow_eq_div 2 (by norm_num) e, zpow_eq_div 10 (by norm_num) k]
  simp only [binaryUnit, decimalUnit, Nat.pow_eq, Nat.cast_mul, Nat.cast_pow, Nat.cast_ofNat]
  field_simp

/-- The numbers of an interval whose unit is `2 ^ e`. -/
def Interval.Holds (i : Interval) (e : Int) (x : ℚ) : Prop :=
  if i.closed then i.low * 2 ^ e ≤ x ∧ x ≤ i.high * 2 ^ e
  else i.low * 2 ^ e < x ∧ x < i.high * 2 ^ e

variable {i : Interval} {tie : Tie} {k e : Int}

/-- Scaled to common units the comparison stays the same. -/
theorem scaled_le_iff (a d : Nat) :
    a * binaryUnit k e ≤ d * decimalUnit k e ↔ (a : ℚ) * 2 ^ e ≤ d * 10 ^ k := by
  have hten : (0 : ℚ) < 10 ^ k := zpow_pos (by norm_num) k
  have hunit := decimalUnit_pos k e
  rw [← Nat.cast_le (α := ℚ), Nat.cast_mul, Nat.cast_mul, binaryUnit_eq,
    show (a : ℚ) * (decimalUnit k e * (2 ^ e / 10 ^ k)) = a * 2 ^ e / 10 ^ k * decimalUnit k e by
      ring, mul_le_mul_iff_left₀ hunit, div_le_iff₀ hten]

theorem le_scaled_iff (a d : Nat) :
    d * decimalUnit k e ≤ a * binaryUnit k e ↔ (d : ℚ) * 10 ^ k ≤ a * 2 ^ e := by
  have hten : (0 : ℚ) < 10 ^ k := zpow_pos (by norm_num) k
  have hunit := decimalUnit_pos k e
  rw [← Nat.cast_le (α := ℚ), Nat.cast_mul, Nat.cast_mul, binaryUnit_eq,
    show (a : ℚ) * (decimalUnit k e * (2 ^ e / 10 ^ k)) = a * 2 ^ e / 10 ^ k * decimalUnit k e by
      ring, mul_le_mul_iff_left₀ hunit, le_div_iff₀ hten]

theorem contains_iff (d : Nat) :
    i.contains (d * decimalUnit k e) (binaryUnit k e) = true ↔ i.Holds e (d * 10 ^ k) := by
  unfold Interval.contains Interval.Holds
  split
  · rw [Bool.and_eq_true, decide_eq_true_eq, decide_eq_true_eq, scaled_le_iff, le_scaled_iff]
  · rw [Bool.and_eq_true, decide_eq_true_eq, decide_eq_true_eq, ← not_le, ← not_le, le_scaled_iff,
      scaled_le_iff, not_le, not_le]

/-- The point below the value on a grid. -/
theorem below_spec (i : Interval) (k e : Int) :
    ((i.value * binaryUnit k e / decimalUnit k e : Nat) : ℚ) * 10 ^ k ≤ i.value * 2 ^ e ∧
      i.value * 2 ^ e <
        ((i.value * binaryUnit k e / decimalUnit k e + 1 : Nat) : ℚ) * 10 ^ k := by
  have hunit : 0 < decimalUnit k e := by exact_mod_cast decimalUnit_pos k e
  refine ⟨(le_scaled_iff _ _).mp (Nat.div_mul_le_self _ _), ?_⟩
  rw [← not_le, ← le_scaled_iff, not_le]
  exact Nat.lt_mul_of_div_lt (Nat.lt_succ_self _) hunit

/-- The point that is taken on a grid is in the interval and next to the value. -/
theorem onGrid?_spec {d : Nat} (h : onGrid? tie i k e = some d) :
    i.Holds e (d * 10 ^ k) ∧ ((d : ℚ) - 1) * 10 ^ k ≤ i.value * 2 ^ e := by
  obtain ⟨hvalue, -⟩ := below_spec i k e
  have hten : (0 : ℚ) < 10 ^ k := zpow_pos (by norm_num) k
  unfold onGrid? at h
  simp only at h
  generalize i.value * binaryUnit k e / decimalUnit k e = below at h hvalue
  have hlow : i.contains (below * decimalUnit k e) (binaryUnit k e) = true →
      i.Holds e (below * 10 ^ k) ∧ ((below : ℚ) - 1) * 10 ^ k ≤ i.value * 2 ^ e := fun hin =>
    ⟨(contains_iff below).mp hin, by linarith⟩
  have hhigh : i.contains ((below + 1) * decimalUnit k e) (binaryUnit k e) = true →
      i.Holds e ((below + 1 : Nat) * 10 ^ k) ∧
        (((below + 1 : Nat) : ℚ) - 1) * 10 ^ k ≤ i.value * 2 ^ e := fun hin =>
    ⟨(contains_iff (below + 1)).mp hin, by push_cast; linarith⟩
  cases hbelow : i.contains (below * decimalUnit k e) (binaryUnit k e) <;>
    cases habove : i.contains ((below + 1) * decimalUnit k e) (binaryUnit k e) <;>
    simp only [hbelow, habove, Option.some.injEq, reduceCtorEq] at h
  · exact h ▸ hhigh habove
  · exact h ▸ hlow hbelow
  · have hd : d = below ∨ d = below + 1 := by
      split at h
      next => exact Or.inl (Option.some.inj h).symm
      next =>
        split at h
        next => exact Or.inr (Option.some.inj h).symm
        next =>
          cases tie with
          | up => exact Or.inr (Option.some.inj h).symm
          | even =>
            have h := Option.some.inj h
            split at h
            next => exact Or.inl h.symm
            next => exact Or.inr h.symm
    rcases hd with rfl | rfl
    · exact hlow hbelow
    · exact hhigh habove

/-- A grid finer than the upper half of the interval has a point in it. -/
theorem onGrid?_isSome (tie : Tie) (hlow : i.low ≤ i.value)
    (hfine : (10 : ℚ) ^ k < (i.high - i.value) * 2 ^ e) : ∃ d, onGrid? tie i k e = some d := by
  obtain ⟨hbelow, habove⟩ := below_spec i k e
  have htwo : (0 : ℚ) < 2 ^ e := zpow_pos (by norm_num) e
  have hin : i.contains ((i.value * binaryUnit k e / decimalUnit k e + 1) * decimalUnit k e)
      (binaryUnit k e) = true := by
    refine (contains_iff _).mpr ?_
    have hstart : (i.low : ℚ) * 2 ^ e ≤ i.value * 2 ^ e :=
      mul_le_mul_of_nonneg_right (Nat.cast_le.mpr hlow) htwo.le
    push_cast at habove ⊢
    unfold Interval.Holds
    split <;> constructor <;> linarith
  unfold onGrid?
  simp only [hin]
  cases hbelow : i.contains
      (i.value * binaryUnit k e / decimalUnit k e * decimalUnit k e) (binaryUnit k e) with
  | false => exact ⟨_, rfl⟩
  | true =>
    dsimp only
    split
    next => exact ⟨_, rfl⟩
    next =>
      split
      next => exact ⟨_, rfl⟩
      next => cases tie <;> exact ⟨_, rfl⟩

/-! ## The search -/

/-- A search that reaches a fine enough grid finds a point of the interval. Unless it is on the
first grid, the next coarser one was not fine enough. -/
theorem search_spec (tie : Tie) (hlow : i.low ≤ i.value) (steps : Nat)
    (hfine : (10 : ℚ) ^ (k - steps) < (i.high - i.value) * 2 ^ e) :
    let d := search tie i e (steps + 1) k
    i.Holds e d.value ∧ ((d.digits : ℚ) - 1) * 10 ^ d.exponent ≤ i.value * 2 ^ e ∧
      (d.exponent = k ∨ (i.high - i.value) * 2 ^ e ≤ (10 : ℚ) ^ (d.exponent + 1)) := by
  induction steps generalizing k with
  | zero =>
    rw [Nat.cast_zero, Int.sub_zero] at hfine
    obtain ⟨d, hd⟩ := onGrid?_isSome tie hlow hfine
    obtain ⟨hholds, hnext⟩ := onGrid?_spec hd
    simp only [search, hd]
    exact ⟨hholds, hnext, Or.inl trivial⟩
  | succ steps ih =>
    rw [search]
    cases hd : onGrid? tie i k e with
    | some d =>
      obtain ⟨hholds, hnext⟩ := onGrid?_spec hd
      exact ⟨hholds, hnext, Or.inl rfl⟩
    | none =>
      have hcoarse : (i.high - i.value) * 2 ^ e ≤ (10 : ℚ) ^ k := by
        by_contra hfine
        obtain ⟨d, hsome⟩ := onGrid?_isSome tie hlow (not_le.mp hfine)
        rw [hd] at hsome
        cases hsome
      have hrest : (10 : ℚ) ^ (k - 1 - (steps : Int)) < (i.high - i.value) * 2 ^ e := by
        rwa [show k - 1 - (steps : Int) = k - (steps + 1 : Nat) by push_cast; ring]
      obtain ⟨hholds, hnext, hplace⟩ := ih hrest
      refine ⟨hholds, hnext, Or.inr ?_⟩
      rcases hplace with hplace | hplace
      · rwa [hplace, Int.sub_add_cancel]
      · exact hplace

/-! ## The decimal that is found -/

variable {m : Nat} {q : Int}

theorem interval_low_le (m : Nat) (q : Int) : (interval m q).low ≤ (interval m q).value := by
  simp only [interval]
  split <;> omega

theorem low_pos (hm : m ≠ 0) : 0 < (interval m q).low := by
  simp only [interval]
  split <;> omega

/-- What is in a number's interval is at most half a unit of its last place above it. -/
theorem Interval.Holds.le {x : ℚ}
    (h : (interval m q).Holds (q - 2) x) : x ≤ (m + 1 / 2) * 2 ^ q := by
  have hhigh : ((interval m q).high : ℚ) * 2 ^ (q - 2) = (m + 1 / 2) * 2 ^ q := by
    rw [zpow_sub₀ (by norm_num)]
    simp only [interval]
    push_cast
    norm_num
    ring
  unfold Interval.Holds at h
  rw [← hhigh]
  split at h
  next => exact h.2
  next => exact h.2.le

/-- The first grid is at most seventeen digits too fine for the number. -/
theorem lt_ten_zpow_coarsest (hbits : m < 2 ^ 53) (hlow : -1074 ≤ q) (hhigh : q ≤ 971) :
    (m : ℚ) * 2 ^ q < 10 ^ (coarsest m q + 17) := by
  have hlog : m.log2 ≤ 52 := by
    rcases eq_or_ne m 0 with rfl | hm
    · simp
    · have := (Nat.log2_lt hm).mpr hbits
      omega
  have hm : (m : ℚ) < 2 ^ (m.log2 + 1) := by
    exact_mod_cast Nat.lt_log2_self
  calc (m : ℚ) * 2 ^ q < 2 ^ (m.log2 + 1) * 2 ^ q := by gcongr
    _ = 2 ^ ((m.log2 : Int) + 1 + q) := by
      rw [zpow_add₀ (by norm_num : (2 : ℚ) ≠ 0)]
      norm_cast
    _ ≤ 10 ^ (coarsest m q + 17) := by
      unfold coarsest
      rw [Int.fdiv_eq_ediv_of_nonneg _ (by decide)]
      refine two_zpow_le (fun _ => ?_) (fun _ => ?_) <;> omega

/-- The last grid is finer than half the interval. -/
theorem ten_zpow_coarsest_lt (hm : m ≠ 0) (hbits : m < 2 ^ 53) (hlow : -1074 ≤ q)
    (hhigh : q ≤ 971) : (10 : ℚ) ^ (coarsest m q - (23 : Nat)) < 2 ^ (q - 1) := by
  have hlog : m.log2 ≤ 52 := by
    have := (Nat.log2_lt hm).mpr hbits
    omega
  calc (10 : ℚ) ^ (coarsest m q - (23 : Nat)) ≤ 2 ^ (q - 2) := by
        unfold coarsest
        rw [Int.fdiv_eq_ediv_of_nonneg _ (by decide)]
        refine ten_zpow_le (fun _ => ?_) (fun _ => ?_) <;> omega
    _ < 2 ^ (q - 1) := zpow_lt_zpow_right₀ (by norm_num) (by omega)

/-- What rounds to a number other than zero is positive. -/
theorem Interval.Holds.pos (hm : m ≠ 0) {e : Int} {x : ℚ} (h : (interval m q).Holds e x) :
    0 < x := by
  have hlow : (0 : ℚ) < (interval m q).low * 2 ^ e :=
    mul_pos (Nat.cast_pos.mpr (low_pos hm)) (zpow_pos (by norm_num) e)
  unfold Interval.Holds at h
  split at h
  next => exact hlow.trans_le h.1
  next => exact hlow.trans h.1

/-- On the grid that the search ends on the number has at most eighteen digits. -/
theorem lt_ten_zpow_of_place (hbits : m < 2 ^ 53) (hlow : -1074 ≤ q) (hhigh : q ≤ 971) {k : Int}
    (hplace : k = coarsest m q ∨ (2 : ℚ) ^ (q - 1) ≤ 10 ^ (k + 1)) :
    (m : ℚ) * 2 ^ q < 10 ^ 18 * 10 ^ k := by
  rcases hplace with rfl | hplace
  · calc (m : ℚ) * 2 ^ q < 10 ^ (coarsest m q + 17) := lt_ten_zpow_coarsest hbits hlow hhigh
      _ = 10 ^ 17 * 10 ^ coarsest m q := by
        rw [add_comm, zpow_add₀ (by norm_num)]
        norm_num
      _ < 10 ^ 18 * 10 ^ coarsest m q := by gcongr <;> norm_num
  · calc (m : ℚ) * 2 ^ q < 2 ^ 53 * 2 ^ q := by gcongr; exact_mod_cast hbits
      _ = 2 ^ 54 * 2 ^ (q - 1) := by
        rw [show q = 1 + (q - 1) by ring, zpow_add₀ (by norm_num)]
        norm_num
        ring
      _ ≤ 2 ^ 54 * 10 ^ (k + 1) := by gcongr
      _ = (2 ^ 54 * 10) * 10 ^ k := by
        rw [zpow_add₀ (by norm_num), zpow_one]
        ring
      _ < 10 ^ 18 * 10 ^ k := by gcongr; norm_num

/-- The shortest decimal of a number is in the interval of the numbers that round to it, and its
digits fit in a word. -/
theorem shortest_spec (tie : Tie) (hm : m ≠ 0) (hbits : m < 2 ^ 53) (hlow : -1074 ≤ q)
    (hhigh : q ≤ 971) : (interval m q).Holds (q - 2) (shortest tie m q).value ∧
      (shortest tie m q).digits ≠ 0 ∧ (shortest tie m q).digits ≤ 10 ^ 18 := by
  have hhalf : (((interval m q).high : ℚ) - (interval m q).value) * 2 ^ (q - 2) = 2 ^ (q - 1) := by
    have hdiff : ((interval m q).high : ℚ) - (interval m q).value = 2 := by
      simp [interval]
    rw [hdiff, show q - 1 = 1 + (q - 2) by ring, zpow_add₀ (by norm_num), zpow_one]
  have hvalue : ((interval m q).value : ℚ) * 2 ^ (q - 2) = m * 2 ^ q := by
    have hfour : ((interval m q).value : ℚ) = m * 2 ^ (2 : Int) := by
      simp [interval]
      ring
    rw [hfour, mul_assoc, ← zpow_add₀ (by norm_num), show 2 + (q - 2) = q by ring]
  obtain ⟨hholds, hnext, hplace⟩ := search_spec tie (interval_low_le m q) 23
    (hhalf ▸ ten_zpow_coarsest_lt hm hbits hlow hhigh)
  rw [hvalue] at hnext
  rw [hhalf] at hplace
  change (interval m q).Holds (q - 2) (shortest tie m q).value at hholds
  change ((shortest tie m q).digits - 1 : ℚ) * 10 ^ (shortest tie m q).exponent ≤ _ at hnext
  change (shortest tie m q).exponent = _ ∨
      _ ≤ (10 : ℚ) ^ ((shortest tie m q).exponent + 1) at hplace
  generalize shortest tie m q = d at hholds hnext hplace
  refine ⟨hholds, fun hzero => ?_, ?_⟩
  · have hpos := hholds.pos hm
    rw [Decimal.value, hzero, Nat.cast_zero, zero_mul] at hpos
    exact lt_irrefl 0 hpos
  · have hten : (0 : ℚ) < 10 ^ d.exponent := zpow_pos (by norm_num) _
    have hless : (d.digits : ℚ) - 1 < 10 ^ 18 :=
      (mul_lt_mul_iff_left₀ hten).mp (hnext.trans_lt (lt_ten_zpow_of_place hbits hlow hhigh hplace))
    have hdigits : (d.digits : ℚ) < (10 ^ 18 + 1 : Nat) := by push_cast; linarith
    exact Nat.lt_succ_iff.mp (Nat.cast_lt.mp hdigits)

end Shortest

end Patchbay.Number
