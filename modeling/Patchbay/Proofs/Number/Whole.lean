import Mathlib
import Patchbay.Json.Value
import Patchbay.Proofs.Number.Formats
import Patchbay.Proofs.Scalar
/-!
# Whole numbers in binary64

A control whose number is whole is saved as an integer and read back as a number. Below `2 ^ 53` in
magnitude nothing is lost: the integer is kept (`wholeValue?_floatOfInt`), and a number is equal to
any other that is the same integer (`beq_of_wholeValue?`). Only the sign of a zero can change, and
no comparison sees it (`compare_congr`).

A number that is not zero has one way to be written: its mantissa fills 53 bits unless its exponent
is the least one (`canonical_ofBits`), so the lesser of two exponents for one value would need one
bit too many. In the other direction an integer is widened to 53 bits, which is exact
(`Rounding.round_exact`), and rounding a number to the mantissa it has leaves it as it is
(`Rounding.roundWithAccuracy_exact`).
-/

namespace Patchbay.Binary64

open Float.Model Float.Model.UnpackedFloat Patchbay.Number Patchbay.Rounding

/-! ## The two ways to take a number apart -/

theorem toNat_unpackMantissa (b : BitVec 64) :
    (@unpackMantissa .binary64 b).toNat = b.toNat % 2 ^ 52 := by
  simp [unpackMantissa, Nat.shiftRight_eq_div_pow]

theorem toNat_unpackExponent (b : BitVec 64) :
    (@unpackExponent .binary64 b).toNat = b.toNat / 2 ^ 52 % 2 ^ 11 := by
  simp [unpackExponent, Nat.shiftRight_eq_div_pow]

theorem toNat_unpackSign (b : BitVec 64) :
    (@unpackSign .binary64 b).toNat = b.toNat / 2 ^ 63 % 2 := by
  simp [unpackSign, Nat.shiftRight_eq_div_pow]

def isNegative : Sign → Bool
  | .negative => true
  | .positive => false

@[simp]
theorem isNegative_inj {s s' : Sign} : isNegative s = isNegative s' ↔ s = s' := by
  cases s <;> cases s' <;> simp [isNegative]

/-- A number taken apart in the two ways. -/
def toBinary : UnpackedFloat → Binary
  | .notANumber => .nan
  | .infinity s => .infinite (isNegative s)
  | .zero s => .finite (isNegative s) 0 Binary.leastExponent
  | .finite s m e _ => .finite (isNegative s) m e

theorem ofBitVec_eq_negative (b : BitVec 64) :
    isNegative (Sign.ofBitVec (@unpackSign .binary64 b)) = decide (2 ^ 63 ≤ b.toNat) := by
  have hsign := toNat_unpackSign b
  have hlt := b.isLt
  unfold Sign.ofBitVec
  by_cases hzero : @unpackSign .binary64 b = 0#1
  · rw [if_pos hzero]
    rw [hzero] at hsign
    have : ¬2 ^ 63 ≤ b.toNat := by simp at hsign; omega
    rw [decide_eq_false this]
    rfl
  · rw [if_neg hzero]
    have hone : (@unpackSign .binary64 b).toNat ≠ 0 := fun h => hzero (BitVec.eq_of_toNat_eq h)
    have : 2 ^ 63 ≤ b.toNat := by omega
    rw [decide_eq_true this]
    rfl

theorem ofFloat_eq (x : Float) : Binary.ofFloat x = toBinary x.toModel.unpack := by
  show Binary.ofBits x.toModel.toBits.toBitVec.toNat =
    toBinary (UnpackedFloat.unpack .binary64 x.toModel.toBits.toBitVec)
  generalize x.toModel.toBits.toBitVec = b
  have hm := toNat_unpackMantissa b
  have he := toNat_unpackExponent b
  have hs := ofBitVec_eq_negative b
  have hmax : @unpackExponent .binary64 b = -1#_ ↔ b.toNat / 2 ^ 52 % 2 ^ 11 = 2047 := by
    rw [← he, ← BitVec.toNat_inj]
    rfl
  have hzero : @unpackExponent .binary64 b = 0#_ ↔ b.toNat / 2 ^ 52 % 2 ^ 11 = 0 := by
    rw [← he, ← BitVec.toNat_inj]
    rfl
  have hnone : @unpackMantissa .binary64 b = 0#_ ↔ b.toNat % 2 ^ 52 = 0 := by
    rw [← hm, ← BitVec.toNat_inj]
    rfl
  have himplicit : (1#1 ++ @unpackMantissa .binary64 b).toNat = b.toNat % 2 ^ 52 + 2 ^ 52 := by
    rw [BitVec.toNat_append, ← Nat.shiftLeft_add_eq_or_of_lt (@unpackMantissa .binary64 b).isLt,
      hm, Nat.add_comm]
    rfl
  unfold Binary.ofBits UnpackedFloat.unpack
  simp only [hmax, hzero, hnone]
  show (if b.toNat / 2 ^ 52 % 2 ^ 11 = 2047 then
      if b.toNat % 2 ^ 52 = 0 then Binary.infinite (decide (2 ^ 63 ≤ b.toNat)) else Binary.nan
    else if b.toNat / 2 ^ 52 % 2 ^ 11 = 0 then
      .finite (decide (2 ^ 63 ≤ b.toNat)) (b.toNat % 2 ^ 52) Binary.leastExponent
    else
      .finite (decide (2 ^ 63 ≤ b.toNat)) (b.toNat % 2 ^ 52 + 2 ^ 52)
        ((b.toNat / 2 ^ 52 % 2 ^ 11 : Nat) - 1075)) = _
  split
  · split
    next => exact congrArg _ hs.symm
    next => rfl
  · split
    next hbiased =>
      split
      next hm0 => rw [hm0]; exact congrArg (Binary.finite · 0 _) hs.symm
      next => simp only [toBinary, hs, hm, he, hbiased]; rfl
    next => simp only [toBinary, hs, himplicit, he]; rfl

theorem toBinary_injective : Function.Injective toBinary := by
  intro a b h
  rcases a with s | _ | s | ⟨s, m, e, hm⟩ <;> rcases b with s' | _ | s' | ⟨s', m', e', hm'⟩ <;>
    simp only [toBinary, Binary.infinite.injEq, Binary.finite.injEq, isNegative_inj, reduceCtorEq,
      infinity.injEq, zero.injEq, finite.injEq] at h ⊢
  all_goals first | exact h | exact h.1 | omega

/-! ## One way to write a number -/

/-- The mantissa of a finite value fills its 53 bits, unless the exponent is the least one. -/
theorem canonical_ofBits {bits : Nat} {negative : Bool} {m : Nat} {q : Int}
    (h : Binary.ofBits bits = .finite negative m q) :
    m < 2 ^ 53 ∧ -1074 ≤ q ∧ (q = -1074 ∨ 2 ^ 52 ≤ m) := by
  dsimp only [Binary.ofBits] at h
  split at h
  next => split at h <;> cases h
  next =>
    have hm : bits % Binary.hiddenBit < 2 ^ 52 := Nat.mod_lt _ (by decide)
    split at h
    next =>
      cases h
      exact ⟨by omega, Int.le_refl _, Or.inl rfl⟩
    next =>
      have hhidden : Binary.hiddenBit = 2 ^ 52 := rfl
      injection h with _ hmantissa hexponent
      omega

/-- The value of a whole number, in whole numbers. -/
theorem natAbs_mul_of_toInt? {negative : Bool} {m : Nat} {q n : Int}
    (h : (Binary.finite negative m q).toInt? = some n) :
    n.natAbs * 2 ^ (-q).toNat = m * 2 ^ q.toNat ∧
      n = if negative then -(n.natAbs : Int) else n.natAbs := by
  obtain ⟨k, hk, rfl⟩ := Option.map_eq_some_iff.mp h
  have habs : (if negative then -(k : Int) else k).natAbs = k := by split <;> omega
  rw [habs]
  refine ⟨?_, rfl⟩
  split at hk
  next hq =>
    obtain rfl := Option.some.inj hk
    rw [show (-q).toNat = 0 by omega]
    exact Nat.mul_one _
  next hq =>
    split at hk
    next hmod =>
      obtain rfl := Option.some.inj hk
      rw [show q.toNat = 0 by omega, Nat.pow_zero, Nat.mul_one]
      exact Nat.div_mul_cancel (Nat.dvd_of_mod_eq_zero hmod)
    next => cases hk

/-- Of two ways to write one whole number the one with the lesser exponent is the other. -/
theorem eq_of_natAbs_mul {m m' N : Nat} {q q' : Int} (h : N * 2 ^ (-q).toNat = m * 2 ^ q.toNat)
    (h' : N * 2 ^ (-q').toNat = m' * 2 ^ q'.toNat) (hq : q ≤ q') (hm : m < 2 ^ 53)
    (hm' : q' = -1074 ∨ 2 ^ 52 ≤ m') (hleast : -1074 ≤ q) : m = m' ∧ q = q' := by
  obtain ⟨d, rfl⟩ : ∃ d : Nat, q' = q + d := ⟨(q' - q).toNat, by omega⟩
  have hscale : m = m' * 2 ^ d := by
    have hsame : m * 2 ^ (q.toNat + (-(q + d)).toNat) =
        m' * 2 ^ d * 2 ^ (q.toNat + (-(q + d)).toNat) := by
      calc m * 2 ^ (q.toNat + (-(q + d)).toNat)
          = m * 2 ^ q.toNat * 2 ^ (-(q + d)).toNat := by rw [Nat.pow_add]; ring
        _ = N * 2 ^ (-(q + d)).toNat * 2 ^ (-q).toNat := by rw [← h]; ring
        _ = m' * (2 ^ (q + d).toNat * 2 ^ (-q).toNat) := by rw [h']; ring
        _ = m' * (2 ^ d * 2 ^ (q.toNat + (-(q + d)).toNat)) := by
          rw [← Nat.pow_add, ← Nat.pow_add]
          congr 2
          omega
        _ = m' * 2 ^ d * 2 ^ (q.toNat + (-(q + d)).toNat) := by ring
    exact Nat.eq_of_mul_eq_mul_right (Nat.two_pow_pos _) hsame
  cases d with
  | zero => exact ⟨by simpa using hscale, by simp⟩
  | succ d =>
    -- the mantissa with the greater exponent fills its bits, so the other would have one too many
    have hfull : 2 ^ 52 ≤ m' := hm'.resolve_left (by omega)
    have hpow : 1 ≤ 2 ^ d := Nat.one_le_two_pow
    have hdouble : m' * 2 ≤ m' * (2 ^ d * 2) := Nat.mul_le_mul_left _ (by omega)
    rw [hscale, Nat.pow_succ] at hm
    omega

/-- Two numbers that are the same whole number other than zero are written alike. -/
theorem eq_of_toInt? {a b : Nat} {n : Int} (ha : (Binary.ofBits a).toInt? = some n)
    (hb : (Binary.ofBits b).toInt? = some n) (hn : n ≠ 0) : Binary.ofBits a = Binary.ofBits b := by
  cases hfa : Binary.ofBits a with
  | nan => rw [hfa] at ha; cases ha
  | infinite negative => rw [hfa] at ha; cases ha
  | finite negative m q =>
    cases hfb : Binary.ofBits b with
    | nan => rw [hfb] at hb; cases hb
    | infinite negative => rw [hfb] at hb; cases hb
    | finite negative' m' q' =>
      rw [hfa] at ha
      rw [hfb] at hb
      obtain ⟨hm, hleast, hfull⟩ := canonical_ofBits hfa
      obtain ⟨hm', hleast', hfull'⟩ := canonical_ofBits hfb
      obtain ⟨hvalue, hsign⟩ := natAbs_mul_of_toInt? ha
      obtain ⟨hvalue', hsign'⟩ := natAbs_mul_of_toInt? hb
      have hnegative : negative = negative' := by
        cases negative <;> cases negative' <;> simp at hsign hsign' <;> first | rfl | omega
      have hsame : m = m' ∧ q = q' := by
        rcases Int.le_total q q' with hq | hq
        · exact eq_of_natAbs_mul hvalue hvalue' hq hm hfull' hleast
        · have hsame := eq_of_natAbs_mul hvalue' hvalue hq hm' hfull hleast'
          exact ⟨hsame.1.symm, hsame.2.symm⟩
      rw [hnegative, hsame.1, hsame.2]

/-! ## Packing -/

/-- A number whose mantissa fills its bits and whose exponent is in range is packed without loss. -/
theorem unpack_pack (s : Sign) {m : Nat} {e : Int} (hm : m.log2 = 52) (hlow : -1074 ≤ e)
    (hhigh : e ≤ 971) (hpos : 0 < m) :
    (Float.Model.pack (.finite s m e hpos)).unpack = .finite s m e hpos := by
  refine unpack_pack_full .binary64 s (hm ▸ rfl) hlow ?_ hpos
  show e + (52 : Nat) < 1024
  omega

/-! ## Integers -/

/-- The number that a word is, below the first that takes more than 53 bits. -/
theorem unpack_toFloat {n : Nat} (hn : 0 < n) (hbound : n < 2 ^ 53) :
    n.toUInt64.toFloat.toModel.unpack = .finite .positive (n * 2 ^ (52 - n.log2))
      ((n.log2 : Int) - 52) (Nat.mul_pos hn (Nat.two_pow_pos _)) := by
  have hlog : n.log2 ≤ 52 := by
    have := (Nat.log2_lt hn.ne').mpr hbound
    omega
  have hfull : (n * 2 ^ (52 - n.log2)).log2 = 52 := by
    rw [log2_mul_two_pow hn.ne']
    omega
  have hsame : n.toUInt64.toNat = n := by
    show n % 2 ^ 64 = n
    omega
  show (Float.Model.pack
    (UnpackedFloat.normalize .binary64 (n.toUInt64.toNat : Int) 0 .positive)).unpack = _
  rw [hsame]
  rw [normalize_pos _ hn]
  have hlow : -1074 ≤ 0 - ((52 - n.log2 : Nat) : Int) := by omega
  rw [round_exact .binary64 .positive hn (show n.log2 + (52 - n.log2) + 1 = 53 by omega) hlow]
  simp only [show 0 - ((52 - n.log2 : Nat) : Int) = (n.log2 : Int) - 52 by omega]
  exact unpack_pack .positive hfull (by omega) (by omega) _

/-- The number that a whole number is, below the first that takes more than 53 bits. -/
theorem unpack_ofNat {n : Nat} (hn : 0 < n) (hbound : n < 2 ^ 53) :
    (Float.ofNat n).toModel.unpack = .finite .positive (n * 2 ^ (52 - n.log2))
      ((n.log2 : Int) - 52) (Nat.mul_pos hn (Nat.two_pow_pos _)) := by
  have hlog : n.log2 ≤ 52 := by
    have := (Nat.log2_lt hn.ne').mpr hbound
    omega
  have hfull : (n * 2 ^ (52 - n.log2)).log2 = 52 := by
    rw [log2_mul_two_pow hn.ne']
    omega
  -- the conversion multiplies by the zeroth power of ten
  have hproduct : Float.ofNat n = n.toUInt64.toFloat * Float.ofBits 0x3FF0000000000000 := by
    show Float.ofScientific n false 0 = _
    unfold Float.ofScientific
    rw [dif_pos ⟨hbound, by decide⟩]
    rfl
  have hone : (Float.ofBits 0x3FF0000000000000).toModel.unpack =
      .finite .positive (2 ^ 52) (-52) (by decide) := rfl
  rw [hproduct]
  show (Float.Model.pack (UnpackedFloat.mul .binary64 n.toUInt64.toFloat.toModel.unpack
    (Float.ofBits 0x3FF0000000000000).toModel.unpack)).unpack = _
  rw [unpack_toFloat hn hbound, hone]
  show (Float.Model.pack (roundWithAccuracy .binary64 .positive _
    ((n.log2 : Int) - 52 - (52 : Nat)) .exact)).unpack = _
  have hlow : -1074 ≤ (n.log2 : Int) - 52 := by omega
  rw [roundWithAccuracy_exact .binary64 .positive (congrArg (· + 1) hfull) hlow
    (Nat.mul_pos hn (Nat.two_pow_pos _))]
  exact unpack_pack .positive hfull (by omega) (by omega) _

/-- Both zeros are the integer zero. -/
theorem toInt?_zero (negative : Bool) (q : Int) : (Binary.finite negative 0 q).toInt? = some 0 := by
  cases negative <;> simp [Binary.toInt?]

theorem toInt?_finite (negative : Bool) (n : Nat) {k : Nat} (hk : k ≤ 52) :
    (Binary.finite negative (n * 2 ^ (52 - k)) ((k : Int) - 52)).toInt? =
      some (if negative then -(n : Int) else n) := by
  have hmagnitude : (if 0 ≤ (k : Int) - 52 then
        some (n * 2 ^ (52 - k) * 2 ^ ((k : Int) - 52).toNat)
      else if n * 2 ^ (52 - k) % 2 ^ (-((k : Int) - 52)).toNat = 0 then
        some (n * 2 ^ (52 - k) / 2 ^ (-((k : Int) - 52)).toNat) else none) = some n := by
    rcases Nat.lt_or_eq_of_le hk with hlt | rfl
    · rw [if_neg (by omega), show (-((k : Int) - 52)).toNat = 52 - k by omega,
        if_pos (Nat.mul_mod_left _ _), Nat.mul_div_cancel _ (Nat.two_pow_pos _)]
    · simp
  exact congrArg (Option.map fun (n : Nat) => if negative then -(n : Int) else n) hmagnitude

/-- An integer of at most 53 bits is kept by the conversion. -/
theorem wholeValue?_floatOfInt {n : Int} (hn : n.natAbs < 2 ^ 53) :
    wholeValue? (Json.floatOfInt n) = some n := by
  have hlog : ∀ {m : Nat}, 0 < m → m < 2 ^ 53 → m.log2 ≤ 52 := fun hpos hm =>
    Nat.le_of_lt_succ ((Nat.log2_lt hpos.ne').mpr hm)
  rw [wholeValue?, ofFloat_eq]
  unfold Json.floatOfInt
  rcases Int.lt_trichotomy n 0 with hneg | rfl | hpos
  · have hm : 0 < (-n).toNat ∧ (-n).toNat < 2 ^ 53 := by omega
    rw [if_neg (by omega)]
    show (toBinary (Float.Model.pack (Float.ofNat (-n).toNat).toModel.unpack.neg).unpack).toInt? = _
    rw [unpack_ofNat hm.1 hm.2]
    have hfull : ((-n).toNat * 2 ^ (52 - (-n).toNat.log2)).log2 = 52 := by
      rw [log2_mul_two_pow hm.1.ne']
      have := hlog hm.1 hm.2
      omega
    have := hlog hm.1 hm.2
    rw [UnpackedFloat.neg, unpack_pack _ hfull (by omega) (by omega) _]
    show (Binary.finite true _ _).toInt? = _
    rw [toInt?_finite true _ this]
    simp
    omega
  · exact toInt?_zero false (-1074)
  · have hm : 0 < n.toNat ∧ n.toNat < 2 ^ 53 := by omega
    rw [if_pos (by omega), unpack_ofNat hm.1 hm.2]
    show (Binary.finite false _ _).toInt? = _
    rw [toInt?_finite false _ (hlog hm.1 hm.2)]
    simp
    omega

theorem unpack_eq_of_ofFloat_eq {x y : Float} (h : Binary.ofFloat x = Binary.ofFloat y) :
    x.toModel.unpack = y.toModel.unpack := by
  rw [ofFloat_eq, ofFloat_eq] at h
  exact toBinary_injective h

/-- The number that is the integer zero is one of the two zeros. -/
theorem unpack_eq_zero {x : Float} (hx : wholeValue? x = some 0) :
    ∃ s, x.toModel.unpack = .zero s := by
  rw [wholeValue?, ofFloat_eq] at hx
  cases hu : x.toModel.unpack with
  | notANumber => rw [hu] at hx; cases hx
  | infinity s => rw [hu] at hx; cases hx
  | zero s => exact ⟨s, rfl⟩
  | finite s m e hm =>
    rw [hu] at hx
    obtain ⟨hvalue, -⟩ := natAbs_mul_of_toInt? hx
    have hpos := Nat.mul_pos hm (Nat.two_pow_pos e.toNat)
    rw [← hvalue] at hpos
    simp at hpos

theorem unpack_ne_notANumber {x : Float} {n : Int} (hx : wholeValue? x = some n) :
    x.toModel.unpack ≠ .notANumber := fun hnan => by
  rw [wholeValue?, ofFloat_eq, hnan] at hx
  cases hx

/-- Numbers that are the same integer are equal. -/
theorem beq_of_wholeValue? {x y : Float} {n : Int} (hx : wholeValue? x = some n)
    (hy : wholeValue? y = some n) : (x == y) = true := by
  refine (beq_iff_ne_notANumber_and_eq _ _).mpr
    ⟨unpack_ne_notANumber hx, unpack_ne_notANumber hy, ?_⟩
  rcases eq_or_ne n 0 with rfl | hn
  · obtain ⟨s, hs⟩ := unpack_eq_zero hx
    obtain ⟨s', hs'⟩ := unpack_eq_zero hy
    rw [hs, hs']
    cases s <;> cases s' <;> simp
  · exact Or.inl (unpack_eq_of_ofFloat_eq (eq_of_toInt? hx hy hn))

/-! ## Equal numbers -/

/-- Equal numbers compare alike with any other. -/
theorem compare_congr {a b : UnpackedFloat} (h : a.beq b = true) (c : UnpackedFloat) :
    a.compare c = b.compare c ∧ c.compare a = c.compare b := by
  obtain ⟨-, -, rfl | ⟨rfl, rfl⟩ | ⟨rfl, rfl⟩⟩ := (beq_iff_ne_notANumber_and_eq _ _).mp h
  · exact ⟨rfl, rfl⟩
  -- no comparison looks at the sign of a zero
  · rcases c with (_ | _) | _ | _ | ⟨_ | _, _⟩ <;> exact ⟨rfl, rfl⟩
  · rcases c with (_ | _) | _ | _ | ⟨_ | _, _⟩ <;> exact ⟨rfl, rfl⟩

section

variable {x y : Float}

theorem lt_congr_left (h : (x == y) = true) (z : Float) : x < z ↔ y < z := by
  rw [lt_iff, lt_iff, UnpackedFloat.lt, UnpackedFloat.lt, (compare_congr h _).1]

theorem lt_congr_right (h : (x == y) = true) (z : Float) : z < x ↔ z < y := by
  rw [lt_iff, lt_iff, UnpackedFloat.lt, UnpackedFloat.lt, (compare_congr h _).2]

theorem isFinite_congr (h : (x == y) = true) : x.isFinite = y.isFinite := by
  show x.toModel.unpack.isFinite = y.toModel.unpack.isFinite
  obtain ⟨-, -, heq | ⟨hx, hy⟩ | ⟨hx, hy⟩⟩ := (beq_iff_ne_notANumber_and_eq _ _).mp h
  · rw [heq]
  · rw [hx, hy]; rfl
  · rw [hx, hy]; rfl

theorem beq_symm (h : (x == y) = true) : (y == x) = true := by
  obtain ⟨hx, hy, heq | ⟨hx0, hy0⟩ | ⟨hx0, hy0⟩⟩ := (beq_iff_ne_notANumber_and_eq _ _).mp h
  · exact (beq_iff_ne_notANumber_and_eq _ _).mpr ⟨hy, hx, Or.inl heq.symm⟩
  · exact (beq_iff_ne_notANumber_and_eq _ _).mpr ⟨hy, hx, Or.inr (Or.inr ⟨hy0, hx0⟩)⟩
  · exact (beq_iff_ne_notANumber_and_eq _ _).mpr ⟨hy, hx, Or.inr (Or.inl ⟨hy0, hx0⟩)⟩

theorem beq_self_of_isFinite (h : x.isFinite = true) : (x == x) = true := by
  refine (beq_iff_ne_notANumber_and_eq _ _).mpr ⟨?_, ?_, Or.inl rfl⟩
  all_goals
    intro hnan
    rw [show x.isFinite = x.toModel.unpack.isFinite from rfl, hnan] at h
    cases h

end

end Patchbay.Binary64
