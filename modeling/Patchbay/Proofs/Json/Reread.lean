import Patchbay.Json.Printer
import Patchbay.Proofs.Json.Numeral
import Patchbay.Proofs.Number.Reading
/-!
# Numbers read back

An integer is read as it was written. A float is read by scaling the digits of its text with a power
of ten, which rounds up to three times: the digits, the power, and their product or quotient. The
text of a finite float is always read as some finite float (`scaleWord_isSome`,
`readNumber_render`). With few digits and a small power nothing but the result is rounded, and the
float that is read is the one that was written (`rereadFloat_of_isBrief`). Otherwise it can be a
neighbour.
-/

namespace Patchbay

open Patchbay.Number

namespace Json

/-! ## What is read back -/

/-- The float that is read where a float was written: its shortest digits as an integer, scaled in
binary64. -/
def rereadFloat (x : Float) : Float :=
  match Binary.ofFloat x with
  | .finite negative m q =>
    let d := decimalOf m q
    let magnitude := (scaleWord 4 (Float.ofNat d.digits) d.exponent).getD 0.0
    if negative then -magnitude else magnitude
  | _ => x

def Number.reread : Number → Number
  | .int n => .int n
  | .float x => .float (rereadFloat x)

/-- A number that has a text as a number and is small enough to be read as what it is. -/
def Number.Readable : Number → Prop
  | .int n => -2 ^ 63 ≤ n ∧ n < 2 ^ 64
  | .float x => x.isFinite = true

theorem exists_ofFloat {x : Float} (h : x.isFinite = true) :
    ∃ negative m q, Binary.ofFloat x = .finite negative m q := by
  rw [Binary64.ofFloat_eq]
  change x.toModel.unpack.isFinite = true at h
  cases hx : x.toModel.unpack with
  | notANumber => rw [hx] at h; cases h
  | infinity s => rw [hx] at h; cases h
  | zero s => exact ⟨_, _, _, rfl⟩
  | finite s m e hm => exact ⟨_, _, _, rfl⟩

/-- The exponent of a finite value is at most the greatest. -/
theorem le_of_ofBits {bits : Nat} {negative : Bool} {m : Nat} {q : Int}
    (h : Binary.ofBits bits = .finite negative m q) : q ≤ 971 := by
  dsimp only [Binary.ofBits] at h
  have hbiased : bits / Binary.hiddenBit % Nat.pow 2 11 < 2 ^ 11 := Nat.mod_lt _ (by decide)
  split at h
  next => split at h <;> cases h
  next hmax =>
    split at h
    next =>
      cases h
      decide
    next =>
      injection h with _ _ hexponent
      omega

/-- The digits of a number's text fit in a word. -/
theorem decimalOf_le_wordMax {m : Nat} {q : Int} (hbits : m < 2 ^ 53) (hlow : -1074 ≤ q)
    (hhigh : q ≤ 971) : (decimalOf m q).digits ≤ wordMax := by
  rw [decimalOf]
  split
  next => decide
  next hm =>
    obtain ⟨-, -, hdigits⟩ := Shortest.shortest_spec .even hm hbits hlow hhigh
    generalize shortest .even m q = d at hdigits
    have hword : wordMax = 2 ^ 64 - 1 := rfl
    rw [written]
    split
    next h =>
      obtain ⟨hpositional, hexponent⟩ := h
      have horder : d.order < 16 := by
        have := of_decide_eq_true (Bool.and_eq_true_iff.mp hpositional).2
        exact this
      have hlength : d.digits < 10 ^ (Nat.toDigits 10 d.digits).length :=
        (Nat.length_toDigits_le_iff (by decide) Nat.length_toDigits_pos).mp (Nat.le_refl _)
      have hplaces : (Nat.toDigits 10 d.digits).length + (d.exponent.toNat + 1) ≤ 17 := by
        rw [Decimal.order] at horder
        omega
      have hscaled : d.digits * 10 ^ (d.exponent.toNat + 1) ≤ 10 ^ 17 :=
        calc d.digits * 10 ^ (d.exponent.toNat + 1)
            ≤ 10 ^ (Nat.toDigits 10 d.digits).length * 10 ^ (d.exponent.toNat + 1) :=
              Nat.mul_le_mul_right _ hlength.le
          _ = 10 ^ ((Nat.toDigits 10 d.digits).length + (d.exponent.toNat + 1)) :=
              (Nat.pow_add _ _ _).symm
          _ ≤ 10 ^ 17 := Nat.pow_le_pow_right (by decide) hplaces
      rw [hword]
      exact hscaled.trans (by decide)
    next =>
      rw [hword]
      omega

/-! ## Scaling -/

/-- A number scaled down is always a number. -/
theorem scaleWord_isSome_of_neg {e : Int} (he : e < 0) (x : Float) (steps : Nat) :
    (scaleWord steps x e).isSome := by
  induction steps generalizing x e with
  | zero => rfl
  | succ steps ih =>
    rw [scaleWord]
    split
    next =>
      dsimp only
      rw [if_neg (by omega)]
      rfl
    next hfar =>
      split
      next => rfl
      next =>
        rw [if_neg (by omega)]
        exact ih (by omega) _

/-- The numbers that are written with an exponent are written with the shortest digits. -/
theorem decimalOf_eq_shortest {m : Nat} {q : Int} (h : 0 ≤ (decimalOf m q).exponent) :
    m ≠ 0 ∧ decimalOf m q = shortest .even m q := by
  unfold decimalOf written at h ⊢
  split at h
  next => exact absurd h (by decide)
  next hm =>
    rw [if_neg hm]
    split at h
    next => exact absurd (show (0 : Int) ≤ -1 from h) (by decide)
    next hscientific => exact ⟨hm, if_neg hscientific⟩

/-- The three greatest numbers, whose digits are next to the overflow. -/
theorem scaleWord_greatest : ∀ i < 3, (scaleWord 4
    (Float.ofNat (decimalOf (2 ^ 53 - 3 + i) 971).digits)
    (decimalOf (2 ^ 53 - 3 + i) 971).exponent).isSome = true := by
  decide +kernel

/-- Apart from these three, what rounds to a number is at least three units of the last place away
from the overflow. -/
theorem le_of_not_greatest {m : Nat} {q : Int} (hbits : m < 2 ^ 53) (hhigh : q ≤ 971)
    (h : ¬(q = 971 ∧ 2 ^ 53 - 3 ≤ m)) :
    ((m : ℚ) + 1 / 2) * 2 ^ q ≤ (2 ^ 53 - 4 + 1 / 2) * 2 ^ (971 : Int) := by
  have hunit : (0 : ℚ) < 2 ^ (971 : Int) := zpow_pos (by norm_num) _
  rcases Int.lt_or_eq_of_le hhigh with hless | rfl
  · have hstep : (2 : ℚ) ^ q * 2 ≤ 2 ^ (971 : Int) := by
      rw [← zpow_add_one₀ (by norm_num)]
      exact zpow_le_zpow_right₀ (by norm_num) hless
    have hmantissa : (m : ℚ) + 1 ≤ 2 ^ 53 := by exact_mod_cast hbits
    have hscaled : ((m : ℚ) + 1 / 2) * 2 ^ q ≤ (2 ^ 53 - 1 / 2) * 2 ^ q := by
      gcongr
      linarith only [hmantissa]
    generalize (2 : ℚ) ^ (971 : Int) = unit at hunit hstep ⊢
    linarith only [hscaled, hstep, hunit]
  · have hmantissa : (m : ℚ) + 4 ≤ 2 ^ 53 := by
      have : m + 4 ≤ 2 ^ 53 := by omega
      exact_mod_cast this
    exact mul_le_mul_of_nonneg_right (by linarith only [hmantissa]) hunit.le

theorem scaleWord_isSome {x : Float} {negative : Bool} {m : Nat} {q : Int}
    (h : Binary.ofFloat x = .finite negative m q) :
    (scaleWord 4 (Float.ofNat (decimalOf m q).digits) (decimalOf m q).exponent).isSome := by
  obtain ⟨hbits, hlow, -⟩ := Binary64.canonical_ofBits h
  have hhigh := le_of_ofBits h
  rcases Int.lt_or_le (decimalOf m q).exponent 0 with hneg | hnonneg
  · exact scaleWord_isSome_of_neg hneg _ _
  by_cases hgreatest : q = 971 ∧ 2 ^ 53 - 3 ≤ m
  · obtain ⟨rfl, hm⟩ := hgreatest
    obtain ⟨i, hi, rfl⟩ : ∃ i, i < 3 ∧ m = 2 ^ 53 - 3 + i := ⟨m - (2 ^ 53 - 3), by omega, by omega⟩
    exact scaleWord_greatest i hi
  obtain ⟨hm, heq⟩ := decimalOf_eq_shortest hnonneg
  rw [heq] at hnonneg ⊢
  obtain ⟨hholds, hdigits, hword⟩ := Shortest.shortest_spec .even hm hbits hlow hhigh
  have hsmall := hholds.le.trans (le_of_not_greatest hbits hhigh hgreatest)
  generalize shortest .even m q = d at hnonneg hdigits hword hsmall
  obtain ⟨k, hk⟩ : ∃ k : Nat, d.exponent = k := ⟨d.exponent.toNat, by omega⟩
  have hunit : (0 : ℚ) < 2 ^ (971 : Int) := zpow_pos (by norm_num) _
  rw [Decimal.value, hk, zpow_natCast] at hsmall
  have hplaces : k ≤ 308 := by
    have hone : (1 : ℚ) ≤ d.digits := by exact_mod_cast Nat.pos_of_ne_zero hdigits
    refine Binary64.le_of_tenPow_lt ?_
    calc (10 : ℚ) ^ k ≤ d.digits * 10 ^ k := le_mul_of_one_le_left (by positivity) hone
      _ ≤ (2 ^ 53 - 4 + 1 / 2) * 2 ^ (971 : Int) := hsmall
      _ < 2 ^ 53 * 2 ^ (971 : Int) := mul_lt_mul_of_pos_right (by norm_num) hunit
  have hrange : (d.digits : ℚ) * 10 ^ k * (1 + 1 / 2 ^ 53) ^ 2 <
      (2 ^ 53 - 1 / 2) * 2 ^ (971 : Int) :=
    calc (d.digits : ℚ) * 10 ^ k * (1 + 1 / 2 ^ 53) ^ 2
        ≤ (2 ^ 53 - 4 + 1 / 2) * 2 ^ (971 : Int) * (1 + 1 / 2 ^ 53) ^ 2 :=
          mul_le_mul_of_nonneg_right hsmall (by positivity)
      _ < (2 ^ 53 - 1 / 2) * 2 ^ (971 : Int) := by
        rw [mul_right_comm, mul_lt_mul_iff_left₀ hunit]
        norm_num
  have hfinite := Binary64.isInf_mul (Binary64.roundedUp_ofNat (Nat.pos_of_ne_zero hdigits)
    (by omega)) (Binary64.roundedUp_tenPow hplaces) hrange
  rw [hk, scaleWord, Int.natAbs_natCast, if_pos hplaces]
  dsimp only
  rw [if_pos (Int.natCast_nonneg k), hfinite]
  rfl

/-! ## Numbers that are read as themselves -/

/-- A number whose text has digits below `2 ^ 53` and an exponent of at most 22 either way. -/
def isBrief (x : Float) : Bool :=
  match Binary.ofFloat x with
  | .finite _ m q => (decimalOf m q).digits < 2 ^ 53 && (decimalOf m q).exponent.natAbs ≤ 22
  | _ => false

/-- Zeros up to the point and one after it change nothing. -/
theorem value_zeros {d : Decimal} (hd : 0 ≤ d.exponent) :
    Decimal.value ⟨d.digits * 10 ^ (d.exponent.toNat + 1), -1⟩ = d.value := by
  obtain ⟨k, hk⟩ : ∃ k : Nat, d.exponent = k := ⟨d.exponent.toNat, by omega⟩
  rw [Decimal.value, Decimal.value, hk, Int.toNat_natCast, zpow_natCast, zpow_neg_one]
  push_cast
  rw [pow_succ, ← mul_assoc, mul_inv_cancel_right₀ (by norm_num)]

theorem written_value (d : Decimal) : (written d).value = d.value := by
  unfold written
  split
  next h => exact value_zeros h.2
  next => rfl

theorem written_digits_pos {d : Decimal} (h : d.digits ≠ 0) : 0 < (written d).digits := by
  unfold written
  split
  next => exact Nat.mul_pos (Nat.pos_of_ne_zero h) (Nat.pow_pos (by decide))
  next => exact Nat.pos_of_ne_zero h

/-- Exact digits scaled with an exact power of ten are rounded once, to the nearest number. -/
theorem scaleWord_of_holds {d : Decimal} (hpositive : 0 < d.digits) (hfew : d.digits < 2 ^ 53)
    (hplaces : d.exponent.natAbs ≤ 22) {m : Nat} {q : Int} (hpos : 0 < m) (hfull : m.log2 = 52)
    (hlow : -1074 ≤ q) (hhigh : q ≤ 971)
    (hholds : (Shortest.interval m q).Holds (q - 2) d.value) :
    ∃ y, scaleWord 4 (Float.ofNat d.digits) d.exponent = some y ∧
      y.toModel.unpack = .finite .positive m q hpos := by
  have hdigits := Binary64.hasValue_ofNat hpositive hfew
  have hpower := Binary64.hasValue_tenPow hplaces
  rw [scaleWord, if_pos (hplaces.trans (by decide))]
  dsimp only
  split
  next hnonneg =>
    have hvalue : d.value = d.digits * 10 ^ d.exponent.natAbs := by
      rw [Decimal.value, ← zpow_natCast, Int.natAbs_of_nonneg hnonneg]
    rw [hvalue] at hholds
    have hproduct : (_ : Float).toModel.unpack = .finite .positive m q hpos :=
      Binary64.unpack_mul_of_holds hdigits hpower hfull hlow hhigh hholds
    rw [Binary64.isInf_of_unpack hproduct]
    exact ⟨_, rfl, hproduct⟩
  next hneg =>
    have hvalue : d.value = d.digits / 10 ^ d.exponent.natAbs := by
      rw [Decimal.value, ← zpow_natCast, show (d.exponent.natAbs : Int) = -d.exponent by omega,
        zpow_neg, div_inv_eq_mul]
    rw [hvalue] at hholds
    exact ⟨_, rfl, Binary64.unpack_div_of_holds hdigits hpower
      (pow_le_pow_right₀ (by norm_num) hplaces) hfull hlow hhigh hholds⟩

/-- A number with a brief text is read where it was written. -/
theorem rereadFloat_of_isBrief {x : Float} (h : isBrief x = true) : rereadFloat x = x := by
  unfold isBrief at h
  split at h
  next negative m q hx =>
    simp only [Bool.and_eq_true, decide_eq_true_eq] at h
    obtain ⟨hfew, hplaces⟩ := h
    obtain ⟨hbits, hlow, hfull⟩ := Binary64.canonical_ofBits hx
    have hhigh := le_of_ofBits hx
    rw [rereadFloat, hx]
    dsimp only
    rcases Nat.eq_zero_or_pos m with rfl | hpos
    · obtain rfl : q = -1074 := hfull.resolve_right (by decide)
      refine Binary64.eq_of_ofFloat ?_ hx
      cases negative <;> decide
    · obtain ⟨hholds, hdigits, -⟩ := Shortest.shortest_spec .even hpos.ne' hbits hlow hhigh
      have hpositive := written_digits_pos hdigits
      have hdecimal : written (shortest .even m q) = decimalOf m q := (if_neg hpos.ne').symm
      rw [← written_value, hdecimal] at hholds
      rw [hdecimal] at hpositive
      have hnear : (10 : ℚ) ^ (-22 : Int) ≤ (decimalOf m q).value :=
        calc (10 : ℚ) ^ (-22 : Int) ≤ 10 ^ (decimalOf m q).exponent :=
              zpow_le_zpow_right₀ (by norm_num) (by omega)
          _ ≤ (decimalOf m q).value :=
            le_mul_of_one_le_left (zpow_pos (by norm_num) _).le (by exact_mod_cast hpositive)
      have hlog := Binary64.log2_eq_of_holds hbits hfull hnear hholds
      obtain ⟨y, hscale, hy⟩ := scaleWord_of_holds hpositive hfew hplaces hpos hlog hlow hhigh
          hholds
      rw [hscale, Option.getD_some]
      refine Binary64.eq_of_ofFloat ?_ hx
      cases negative with
      | true => exact Binary64.ofFloat_neg hbits hlow hhigh hfull hy
      | false =>
        rw [if_neg (by decide), Binary64.ofFloat_eq, hy]
        rfl
  next => cases h

/-! ## Texts of numbers -/

/-- A number starts with a minus or a digit. -/
def StartsNumber (chars : List Char) : Prop :=
  ∃ c rest, chars = c :: rest ∧ (c = '-' ∨ c.isDigit = true)

theorem Numeral.startsNumber {n : Numeral} (h : n.WellFormed) (negative : Bool) :
    StartsNumber ((if negative then ['-'] else []) ++ n.text) := by
  cases negative with
  | true => exact ⟨'-', n.text, rfl, Or.inl rfl⟩
  | false =>
    obtain ⟨c, whole, hwhole⟩ := List.exists_cons_of_ne_nil h.whole.nonempty
    refine ⟨c, whole ++ (fractionText n.fraction ++ exponentText n.exponent), ?_,
      Or.inr (h.whole.digit c (by simp [hwhole]))⟩
    simp [text, hwhole]

theorem readNumber_float {x : Float} (h : x.isFinite = true) :
    StartsNumber (Number.float x).render.toList ∧ ∀ {rest}, Stops rest →
      readNumber ((Number.float x).render.toList ++ rest) =
        some (some (.float (rereadFloat x)), rest) := by
  obtain ⟨negative, m, q, hx⟩ := exists_ofFloat h
  obtain ⟨hbits, hlow, -⟩ := Binary64.canonical_ofBits hx
  have hhigh := le_of_ofBits hx
  obtain ⟨n, hn⟩ := exists_writes_magnitude fun hm =>
    (Shortest.shortest_spec .even hm hbits hlow hhigh).2.1
  have htext : (Number.float x).render.toList = (if negative then ['-'] else []) ++ n.text := by
    rw [Number.render, if_pos h, Layout.render, hx, ← hn.text]
    cases negative <;> simp
  rw [htext]
  refine ⟨n.startsNumber hn.wellFormed negative, fun hrest => ?_⟩
  obtain ⟨y, hy⟩ := Option.isSome_iff_exists.mp (scaleWord_isSome hx)
  have hfits : n.decimal.digits ≤ wordMax := hn.decimal ▸ decimalOf_le_wordMax hbits hlow hhigh
  rw [List.append_assoc, n.readNumber_text hn.wellFormed negative hrest,
    n.number_eq hn.parts hfits, hn.decimal, hy, rereadFloat, hx]
  simp only [hy, Option.map_some, Option.getD_some]

theorem toList_toString (n : Int) : (toString n).toList =
    (if decide (n < 0) then ['-'] else []) ++ Nat.toDigits 10 n.natAbs := by
  cases n with
  | ofNat n =>
    show n.repr.toList = _
    rw [Nat.toList_repr]
    simp
  | negSucc n =>
    show ("-" ++ (n + 1).repr).toList = _
    rw [String.toList_append, Nat.toList_repr]
    simp [Int.negSucc_lt_zero]

/-- An integer has no zeros in front. -/
theorem Numeral.WellFormed.toDigits (n : Nat) :
    Numeral.WellFormed ⟨Nat.toDigits 10 n, none, none⟩ := by
  refine ⟨.toDigits _, fun hzero => ?_, by simp, by simp⟩
  have hnone : n = 0 := by_contra fun hn => head?_toDigits hn hzero
  simp [hnone]

theorem readNumber_int {n : Int} (h : -2 ^ 63 ≤ n ∧ n < 2 ^ 64) :
    StartsNumber (Number.int n).render.toList ∧ ∀ {rest}, Stops rest →
      readNumber ((Number.int n).render.toList ++ rest) = some (some (.int n), rest) := by
  obtain ⟨numeral, hnumeral⟩ : ∃ numeral : Numeral,
    numeral = ⟨Nat.toDigits 10 n.natAbs, none, none⟩ := ⟨_, rfl⟩
  have hwellFormed : numeral.WellFormed := hnumeral ▸ .toDigits _
  have htext : (Number.int n).render.toList =
      (if decide (n < 0) then ['-'] else []) ++ numeral.text := by
    rw [Number.render, toList_toString, hnumeral, Numeral.text, Numeral.fractionText,
      Numeral.exponentText, List.append_nil, List.append_nil]
  have hgather : gatherDigits 0 0 numeral.whole = (n.natAbs, 0 + numeral.whole.length, 0) := by
    have hword : wordMax = 2 ^ 64 - 1 := rfl
    have hvalue : digitsValue 0 numeral.whole = n.natAbs := by
      rw [hnumeral, digitsValue_toDigits]
    rw [gatherDigits_eq (by omega), hvalue]
  rw [htext]
  refine ⟨numeral.startsNumber hwellFormed _, fun {rest} hrest => ?_⟩
  rw [List.append_assoc, numeral.readNumber_text hwellFormed _ hrest, numberValue, hgather]
  have hexponent : numeral.exponentValue? = none := by rw [hnumeral]; rfl
  have hfraction : numeral.fraction = none := by rw [hnumeral]
  rw [hexponent, hfraction]
  by_cases hn : n < 0
  · have hpow : Nat.pow 2 63 = 2 ^ 63 := rfl
    have hword : ¬(n.natAbs = 0 ∨ Nat.pow 2 63 < n.natAbs) := by omega
    have habs : -(n.natAbs : Int) = n := by omega
    simp only [hn, decide_true, Nat.lt_irrefl, Bool.not_true, Bool.false_eq_true, if_false, hword,
      habs]
  · have habs : (n.natAbs : Int) = n := by omega
    simp only [hn, decide_false, Nat.lt_irrefl, Bool.not_false, if_false, if_true, habs]

/-- A number is read where it was written. -/
theorem readNumber_render {n : Number} (h : n.Readable) : StartsNumber n.render.toList ∧
    ∀ {rest}, Stops rest → readNumber (n.render.toList ++ rest) = some (some n.reread, rest) := by
  cases n with
  | int n => exact readNumber_int h
  | float x => exact readNumber_float h

end Json

end Patchbay
