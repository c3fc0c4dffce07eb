import Patchbay.Program.Script
import Patchbay.Proofs.Json.Reread
/-!
# Literals of numbers

The text of a number in a program is a literal exactly when the number is finite, and the literal is
read as the number that it was written from, but for the sign of a zero (`exists_literal_iff`).
Whole numbers below `10¹⁵` are written as integers, all others with their shortest digits and never
with an exponent; either way the decimal that is written lies in the rounding interval of the
number.

A literal is read in one way only, from its text (`Literal.parseFloat?_text`).
-/

namespace Patchbay.Script

open Patchbay.Number Patchbay.Json Patchbay.Json.Numeral

/-! ## Literals -/

/-- A decimal literal, maybe with a minus before it. -/
structure Literal where
  negative : Bool
  numeral : Numeral
  wellFormed : numeral.WellFormed

namespace Literal

def text (l : Literal) : String :=
  String.ofList ((if l.negative then ['-'] else []) ++ l.numeral.text)

/-- The number nearest to what is written. -/
def value (l : Literal) : Float :=
  let magnitude := l.numeral.decimal.toFloat
  if l.negative then -magnitude else magnitude

theorem parseExponent?_text {n : Numeral} (h : n.WellFormed) :
    parseExponent? (exponentText n.exponent) = some (n.exponentValue?.getD 0) := by
  rw [exponentValue?]
  cases hexponent : n.exponent with
  | none => rfl
  | some part =>
    obtain ⟨negative, digits⟩ := part
    obtain ⟨hne, hdigits⟩ := h.exponent _ hexponent
    have hall : digits.all Char.isDigit = true := List.all_eq_true.mpr hdigits
    show parseExponent? ('e' :: (if negative then '-' else '+') :: digits) = _
    rw [parseExponent?, if_pos (.inl rfl)]
    cases negative <;> simp [takeSign, hne, hall]

theorem parseDecimal?_text {n : Numeral} (h : n.WellFormed) :
    parseDecimal? n.text = some n.decimal := by
  have hexponent := parseExponent?_text h
  obtain ⟨htake, hdrop⟩ := takeWhile_digits h.whole.digit (n.head?_fractionText .nil)
  rw [List.append_nil] at htake hdrop
  rw [parseDecimal?, Numeral.text, htake, hdrop, Numeral.decimal]
  cases hfraction : n.fraction with
  | none =>
    have hstops := head?_exponentText n.exponent .nil
    rw [List.append_nil] at hstops
    cases hrest : exponentText n.exponent with
    | nil => simp [fractionText, hrest ▸ hexponent, h.whole.nonempty]
    | cons c rest =>
      have hpoint : c ≠ '.' := (hstops c (by rw [hrest]; rfl)).2
      simp [fractionText, hrest ▸ hexponent, hpoint, h.whole.nonempty]
  | some digits =>
    obtain ⟨-, hdigits⟩ := h.fraction _ hfraction
    have hstops : ∀ c ∈ (exponentText n.exponent).head?, c.isDigit = false := fun c hc =>
      (head?_exponentText n.exponent .nil c (by rwa [List.append_nil])).1
    obtain ⟨htake, hdrop⟩ := takeWhile_digits hdigits hstops
    simp [fractionText, htake, hdrop, h.whole.nonempty, hexponent]

theorem toLower_of_isDigit {c : Char} (h : c.isDigit = true) : c.toLower = c := by
  unfold Char.toLower
  refine dif_neg fun hupper => ?_
  have hdigit : c.toNat ≤ 57 := (Char.isDigit_iff_toNat.mp h).2
  have hletter : 65 ≤ c.toNat := UInt32.le_iff_toNat_le.mp hupper.1
  omega

/-- What is read from the text of a literal is its value. -/
theorem parseFloat?_text (l : Literal) : parseFloat? l.text = some l.value := by
  obtain ⟨negative, n, h⟩ := l
  obtain ⟨c, whole, hc⟩ := List.exists_cons_of_ne_nil h.whole.nonempty
  have hdigit : c.isDigit = true := h.whole.digit c (by simp [hc])
  obtain ⟨rest, hrest⟩ : ∃ rest, n.text = c :: rest := ⟨_, by rw [Numeral.text, hc]; rfl⟩
  have hsign : takeSign (Literal.text ⟨negative, n, h⟩).toList = (negative, n.text) := by
    rw [Literal.text, String.toList_ofList, hrest]
    cases negative with
    | true => rfl
    | false =>
      show takeSign (c :: rest) = _
      unfold takeSign
      split
      next heq =>
        obtain rfl := (List.cons.inj heq).1
        cases hdigit
      next heq =>
        obtain rfl := (List.cons.inj heq).1
        cases hdigit
      next => rfl
  -- the words for numbers that are not finite begin with letters
  have hword : ∀ first others, first.isDigit = false →
      String.ofList (n.text.map Char.toLower) ≠ String.ofList (first :: others) := by
    intro first others hfirst heq
    rw [hrest, List.map_cons, toLower_of_isDigit hdigit] at heq
    obtain rfl := (List.cons.inj (String.ofList_injective heq)).1
    exact absurd (hfirst.symm.trans hdigit) Bool.noConfusion
  unfold parseFloat?
  simp only [hsign]
  rw [if_neg (not_or.mpr
      ⟨hword 'i' ['n', 'f'] rfl, hword 'i' ['n', 'f', 'i', 'n', 'i', 't', 'y'] rfl⟩),
    if_neg (hword 'n' ['a', 'n'] rfl), parseDecimal?_text h]
  rfl

end Literal

/-! ## Texts of numbers -/

/-- A literal is read as the number in whose rounding interval it lies. -/
theorem Literal.value_eq {x : Float} {negative : Bool} {m : Nat} {q : Int}
    (hx : Binary.ofFloat x = .finite negative m q) (hm : m ≠ 0) {n : Numeral} (hn : n.WellFormed)
    (hdigits : n.decimal.digits ≠ 0)
    (hholds : (Shortest.interval m q).Holds (q - 2) n.decimal.value) :
    Literal.value ⟨negative, n, hn⟩ = x := by
  have hpos := Nat.pos_of_ne_zero hm
  obtain ⟨hbits, hlow, hfull⟩ := Binary64.canonical_ofBits hx
  have hhigh := le_of_ofBits hx
  have hread := Binary64.unpack_decimal_of_holds hdigits hpos hbits hlow hhigh hfull hholds
  refine Binary64.eq_of_ofFloat ?_ hx
  cases negative with
  | true => exact Binary64.ofFloat_neg hbits hlow hhigh hfull hread
  | false =>
    show Binary.ofFloat n.decimal.toFloat = _
    rw [Binary64.ofFloat_eq, hread]
    rfl

/-- Digits alone write a whole number. -/
theorem decimal_whole (digits : List Char) :
    Numeral.decimal ⟨digits, none, none⟩ = ⟨digitsValue 0 digits, 0⟩ := rfl

/-- The digits of a decimal with the point in its place, and zeros up to the point. -/
theorem exists_numeral_positional {d : Decimal} (hd : d.digits ≠ 0) : ∃ n : Numeral, n.WellFormed ∧
    (d.positional false).toList = n.text ∧ n.decimal.digits ≠ 0 ∧ n.decimal.value = d.value := by
  by_cases hexponent : 0 ≤ d.exponent
  · obtain ⟨k, hk⟩ : ∃ k : Nat, d.exponent = k := ⟨d.exponent.toNat, by omega⟩
    have hvalue : digitsValue 0 (Nat.toDigits 10 d.digits ++ List.replicate k '0') =
        d.digits * 10 ^ k := by
      rw [digitsValue_append, digitsValue_toDigits, digitsValue_zeros]
    refine ⟨⟨Nat.toDigits 10 d.digits ++ List.replicate k '0', none, none⟩,
      ⟨⟨by simp, ?_⟩, ?_, by simp, by simp⟩, ?_, ?_, ?_⟩
    · intro c hc
      exact (List.mem_append.mp hc).elim (isDigit_toDigits c) (isDigit_zeros _ c)
    · intro hzero
      rw [List.head?_append_of_ne_nil _ Nat.toDigits_ne_nil] at hzero
      exact absurd hzero (head?_toDigits hd)
    · simp [Decimal.positional, hk, Numeral.text, fractionText, exponentText]
    · rw [decimal_whole, hvalue]
      exact (Nat.mul_pos (Nat.pos_of_ne_zero hd) (Nat.pow_pos (by decide))).ne'
    · rw [decimal_whole, hvalue, Decimal.value, Decimal.value, hk]
      simp
  · have hsame : d.positional false = d.positional true := by
      unfold Decimal.positional
      rw [if_neg hexponent, if_neg hexponent]
    obtain ⟨n, hn⟩ := exists_writes_positional hd
    rw [if_neg hexponent] at hn
    exact ⟨n, hn.wellFormed, hsame ▸ hn.text, hn.decimal ▸ hd, by rw [hn.decimal]⟩

/-- A number lies in its own rounding interval. -/
theorem holds_self {m : Nat} (q : Int) (hm : m ≠ 0) :
    (Shortest.interval m q).Holds (q - 2) (m * 2 ^ q) := by
  have hunit : (0 : ℚ) < 2 ^ (q - 2) := zpow_pos (by norm_num) _
  have hvalue : (m : ℚ) * 2 ^ q = (4 * m : Nat) * 2 ^ (q - 2) := by
    rw [zpow_sub₀ (by norm_num)]
    push_cast
    ring
  have hlow : (Shortest.interval m q).low < 4 * m := by
    simp only [Shortest.interval]
    split <;> omega
  have hhigh : 4 * m < (Shortest.interval m q).high := by
    simp only [Shortest.interval]
    omega
  have hlow : ((Shortest.interval m q).low : ℚ) < (4 * m : Nat) := Nat.cast_lt.mpr hlow
  have hhigh : ((4 * m : Nat) : ℚ) < (Shortest.interval m q).high := Nat.cast_lt.mpr hhigh
  have hbelow := mul_lt_mul_of_pos_right hlow hunit
  have habove := mul_lt_mul_of_pos_right hhigh hunit
  rw [hvalue]
  unfold Shortest.Interval.Holds
  split
  · exact ⟨hbelow.le, habove.le⟩
  · exact ⟨hbelow, habove⟩

theorem isFinite_of_ofFloat {x : Float} {negative : Bool} {m : Nat} {q : Int}
    (h : Binary.ofFloat x = .finite negative m q) : x.isFinite = true := by
  rw [Binary64.ofFloat_eq] at h
  show x.toModel.unpack.isFinite = true
  cases hx : x.toModel.unpack with
  | notANumber => rw [hx] at h; cases h
  | infinity s => rw [hx] at h; cases h
  | zero s => rfl
  | finite s m e hm => rfl

theorem exists_ofFloat_of_whole {x : Float} {n : Int} (hx : wholeValue? x = some n) :
    ∃ negative m q, Binary.ofFloat x = .finite negative m q := by
  unfold wholeValue? at hx
  cases hparts : Binary.ofFloat x with
  | nan => rw [hparts] at hx; cases hx
  | infinite negative => rw [hparts] at hx; cases hx
  | finite negative m q => exact ⟨negative, m, q, rfl⟩

/-- A whole number is written as an integer. -/
theorem exists_literal_of_whole {x : Float} {n : Int} (hx : wholeValue? x = some n) :
    ∃ l : Literal, l.text = toString n ∧ (l.value == x) = true := by
  have hn := Numeral.WellFormed.toDigits n.natAbs
  have hdecimal : Numeral.decimal ⟨Nat.toDigits 10 n.natAbs, none, none⟩ = ⟨n.natAbs, 0⟩ := by
    rw [decimal_whole, digitsValue_toDigits]
  refine ⟨⟨decide (n < 0), _, hn⟩, ?_, ?_⟩
  · rw [← String.toList_inj, toList_toString, Literal.text, String.toList_ofList]
    simp [Numeral.text, fractionText, exponentText]
  rcases eq_or_ne n 0 with rfl | hne
  · have hzero : wholeValue? (0.0 : Float) = some 0 := Binary64.toInt?_zero false (-1074)
    have hread : Literal.value ⟨decide ((0 : Int) < 0), _, hn⟩ = 0.0 := by
      dsimp only [Literal.value]
      rw [if_neg (by decide), hdecimal, Decimal.toFloat]
      exact if_pos Int.natAbs_zero
    rw [hread]
    exact Binary64.beq_of_wholeValue? hzero hx
  obtain ⟨negative, m, q, hparts⟩ := exists_ofFloat_of_whole hx
  have hinteger : (Binary.finite negative m q).toInt? = some n := hparts ▸ hx
  obtain ⟨hvalue, hsign⟩ := Binary64.natAbs_mul_of_toInt? hinteger
  have hm : m ≠ 0 := by
    rintro rfl
    rw [Nat.zero_mul] at hvalue
    have := (Nat.mul_eq_zero.mp hvalue).resolve_right (Nat.two_pow_pos _).ne'
    omega
  have hnegative : decide (n < 0) = negative := by
    cases negative with
    | true =>
      rw [if_pos rfl] at hsign
      exact decide_eq_true (by omega)
    | false =>
      rw [if_neg (by decide)] at hsign
      exact decide_eq_false (by omega)
  subst hnegative
  have hsame : Decimal.value ⟨n.natAbs, 0⟩ = m * 2 ^ q := by
    have hcast : (n.natAbs : ℚ) * 2 ^ (-q).toNat = m * 2 ^ q.toNat := by exact_mod_cast hvalue
    rw [Decimal.value, zpow_zero, mul_one, Shortest.zpow_eq_div 2 (by norm_num) q, ← mul_div_assoc,
      ← hcast, mul_div_cancel_right₀ _ (by positivity)]
  rw [Literal.value_eq hparts hm hn (hdecimal ▸ Int.natAbs_ne_zero.mpr hne)
    (hdecimal ▸ hsame ▸ holds_self q hm)]
  exact Binary64.beq_self_of_isFinite (isFinite_of_ofFloat hparts)

/-- Any other number is written with its shortest digits. -/
theorem exists_literal_of_plain {x : Float} {negative : Bool} {m : Nat} {q : Int}
    (hx : Binary.ofFloat x = .finite negative m q) (hm : m ≠ 0) :
    ∃ l : Literal, l.text = plainText x ∧ l.value = x := by
  obtain ⟨hbits, hlow, -⟩ := Binary64.canonical_ofBits hx
  obtain ⟨hholds, hdigits, -⟩ := Shortest.shortest_spec .up hm hbits hlow (le_of_ofBits hx)
  obtain ⟨n, hn, htext, hsome, hvalue⟩ := exists_numeral_positional hdigits
  refine ⟨⟨negative, n, hn⟩, ?_, Literal.value_eq hx hm hn hsome (hvalue ▸ hholds)⟩
  have hmagnitude : Layout.plain.magnitude m q = (shortest .up m q).positional false := if_neg hm
  rw [← String.toList_inj, Literal.text, String.toList_ofList, plainText, Layout.render, hx]
  dsimp only
  rw [hmagnitude, String.toList_append, htext]
  cases negative <;> rfl

/-- A literal starts with a digit or with a minus before one. -/
theorem Literal.head_text (l : Literal) : ∃ c rest, c.isDigit = true ∧
    (l.text.toList = c :: rest ∨ l.text.toList = '-' :: c :: rest) := by
  obtain ⟨negative, n, h⟩ := l
  obtain ⟨c, whole, hc⟩ := List.exists_cons_of_ne_nil h.whole.nonempty
  refine ⟨c, whole ++ (fractionText n.fraction ++ exponentText n.exponent),
    h.whole.digit c (by simp [hc]), ?_⟩
  rw [Literal.text, String.toList_ofList, Numeral.text, hc]
  cases negative with
  | true => exact .inr rfl
  | false => exact .inl rfl

/-- The words for numbers that are not finite are no literals. -/
theorem isFinite_of_text {x : Float} {l : Literal} (h : l.text = numberText x) :
    x.isFinite = true := by
  obtain ⟨c, rest, hdigit, hhead⟩ := l.head_text
  have hletter : ∀ {first others}, first.isDigit = false → first :: others ≠ c :: rest := by
    rintro first others hfirst heq
    rw [(List.cons.inj heq).1, hdigit] at hfirst
    cases hfirst
  rw [h] at hhead
  have hword : ∀ {word}, numberText x = word → word.toList ≠ c :: rest ∧
      word.toList ≠ '-' :: c :: rest → x.isFinite = true := by
    rintro word rfl hne
    exact absurd hhead (not_or.mpr hne)
  cases hx : Binary.ofFloat x with
  | finite negative m q => exact isFinite_of_ofFloat hx
  | nan =>
    have htext : numberText x = "NaN" := by
      rw [numberText, wholeValue?, plainText, Layout.render, hx]
      rfl
    exact hword htext ⟨hletter rfl, fun heq => by cases heq⟩
  | infinite negative =>
    have htext : numberText x = if negative then "-inf" else "inf" := by
      rw [numberText, wholeValue?, plainText, Layout.render, hx]
      rfl
    cases negative with
    | true => exact hword htext ⟨hletter rfl, fun heq => hletter rfl (List.cons.inj heq).2⟩
    | false => exact hword htext ⟨hletter rfl, fun heq => by cases heq⟩

/-- Whole numbers are written as integers if they are small, zero among them. -/
theorem numberText_cases (x : Float) :
    (∃ n, wholeValue? x = some n ∧ numberText x = toString n) ∨
      wholeValue? x ≠ some 0 ∧ numberText x = plainText x := by
  unfold numberText
  cases hwhole : wholeValue? x with
  | none => exact .inr ⟨nofun, rfl⟩
  | some n =>
    by_cases hsmall : n.natAbs < 10 ^ 15
    · exact .inl ⟨n, rfl, if_pos hsmall⟩
    · refine .inr ⟨fun hzero => hsmall ?_, if_neg hsmall⟩
      rw [Option.some.inj hzero]
      decide

/-- The text of a number is a literal for it exactly when the number is finite. -/
theorem exists_literal_iff {x : Float} :
    (∃ l : Literal, l.text = numberText x ∧ (l.value == x) = true) ↔ x.isFinite = true := by
  refine ⟨fun ⟨l, htext, _⟩ => isFinite_of_text htext, fun hfinite => ?_⟩
  obtain ⟨n, hn, htext⟩ | ⟨hzero, htext⟩ := numberText_cases x
  · rw [htext]
    exact exists_literal_of_whole hn
  · obtain ⟨negative, m, q, hx⟩ := exists_ofFloat hfinite
    have hm : m ≠ 0 := by
      rintro rfl
      refine hzero ?_
      rw [wholeValue?, hx]
      exact Binary64.toInt?_zero negative q
    obtain ⟨l, hl, hvalue⟩ := exists_literal_of_plain hx hm
    exact ⟨l, hl.trans htext.symm, by rw [hvalue, Binary64.beq_self_of_isFinite hfinite]⟩

end Patchbay.Script
