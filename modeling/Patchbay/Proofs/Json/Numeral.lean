import Mathlib.Data.List.Basic
import Mathlib.Data.List.TakeWhile
import Mathlib.Tactic.IntervalCases
import Mathlib.Tactic.Ring
import Patchbay.Json.Outline
import Patchbay.Number.Layout
/-!
# Numerals

The text of a number has up to three parts (`Numeral`): digits before the point, digits after it and
an exponent. Reading takes the parts apart as they were put together (`readNumber_text`), and as
long as the digits fit in a word the number read is their value scaled in binary64
(`Numeral.number_eq`). The text of a decimal is a numeral that writes the decimal
(`exists_numeral`); only a whole number has a digit more than it needs, the zero after its point.
-/

namespace Patchbay.Json

open Patchbay.Number

/-! ## Runs of digits -/

/-- A text that does not go on with more of a number. -/
def Stops (rest : List Char) : Prop :=
  ∀ c ∈ rest.head?, c.isDigit = false ∧ c ≠ '.' ∧ c ≠ 'e' ∧ c ≠ 'E'

theorem Stops.nil : Stops [] := by simp [Stops]

theorem takeWhile_digits {digits rest : List Char} (h : ∀ c ∈ digits, c.isDigit = true)
    (hrest : ∀ c ∈ rest.head?, c.isDigit = false) :
    (digits ++ rest).takeWhile Char.isDigit = digits ∧
      (digits ++ rest).dropWhile Char.isDigit = rest := by
  rw [List.takeWhile_append_of_pos h, List.dropWhile_append_of_pos h]
  cases rest with
  | nil => simp
  | cons c rest =>
    have hc : c.isDigit = false := hrest c rfl
    simp [hc]

theorem digitsValue_append (start : Nat) (front back : List Char) :
    digitsValue start (front ++ back) = digitsValue (digitsValue start front) back := by
  rw [digitsValue, List.foldl_append]
  rfl

theorem digitsValue_zeros (start n : Nat) :
    digitsValue start (List.replicate n '0') = start * 10 ^ n := by
  induction n generalizing start with
  | zero => simp [digitsValue]
  | succ n ih =>
    show digitsValue (start * 10 + 0) (List.replicate n '0') = _
    rw [ih, Nat.pow_succ]
    ring

/-- The digits of a number are read as it. -/
theorem digitsValue_toDigits (n : Nat) : digitsValue 0 (Nat.toDigits 10 n) = n := by
  have hsame : ∀ start digits, digitsValue start digits = Nat.ofDigitChars 10 digits start := by
    intro start digits
    simp only [digitsValue, Nat.ofDigitChars, Nat.mul_comm]
  rw [hsame, Nat.ofDigitChars_ten_toDigits]

theorem isDigit_toDigits {n : Nat} : ∀ c ∈ Nat.toDigits 10 n, c.isDigit = true := fun _ hc =>
  Nat.isDigit_of_mem_toDigits (by decide) (by decide) hc

/-- More digits make no less. -/
theorem le_digitsValue (start : Nat) (digits : List Char) : start ≤ digitsValue start digits := by
  induction digits generalizing start with
  | nil => exact Nat.le_refl _
  | cons c digits ih =>
    exact Nat.le_trans (Nat.le_trans (Nat.le_mul_of_pos_right _ (by decide)) (Nat.le_add_right _ _))
      (ih _)

/-- Digits that fit in the word are all taken. -/
theorem gatherDigits_eq {word : Nat} {digits : List Char} (h : digitsValue word digits ≤ wordMax)
    (taken : Nat) :
    gatherDigits word taken digits = (digitsValue word digits, taken + digits.length, 0) := by
  induction digits generalizing word taken with
  | nil => rfl
  | cons c digits ih =>
    have hnext : ¬wordMax < word * 10 + (c.toNat - '0'.toNat) :=
      Nat.not_lt_of_le (Nat.le_trans (le_digitsValue _ digits) h)
    rw [gatherDigits, if_neg hnext, ih h, List.length_cons, Nat.add_assoc, Nat.add_comm 1]
    rfl

/-! ## The parts of a number -/

/-- The text of a number without its sign, in its parts. -/
structure Numeral where
  whole : List Char
  /-- The digits after the point. -/
  fraction : Option (List Char)
  /-- The sign of the exponent and its digits. -/
  exponent : Option (Bool × List Char)

namespace Numeral

def fractionText : Option (List Char) → List Char
  | none => []
  | some digits => '.' :: digits

def exponentText : Option (Bool × List Char) → List Char
  | none => []
  | some (negative, digits) => 'e' :: (if negative then '-' else '+') :: digits

def text (n : Numeral) : List Char :=
  n.whole ++ (fractionText n.fraction ++ exponentText n.exponent)

/-- A run of at least one digit. -/
structure IsRun (digits : List Char) : Prop where
  nonempty : digits ≠ []
  digit : ∀ c ∈ digits, c.isDigit = true

/-- Every part has a digit, and only a single digit before the point may be zero. -/
structure WellFormed (n : Numeral) : Prop where
  whole : IsRun n.whole
  leading : n.whole.head? = some '0' → n.whole.length = 1
  fraction : ∀ digits ∈ n.fraction, IsRun digits
  exponent : ∀ part ∈ n.exponent, IsRun part.2

/-- The exponent that is written. -/
def exponentValue? (n : Numeral) : Option Int :=
  n.exponent.map fun (negative, digits) =>
    if negative then -(digitsValue 0 digits : Int) else digitsValue 0 digits

/-- The decimal that is written. -/
def decimal (n : Numeral) : Decimal where
  digits := digitsValue (digitsValue 0 n.whole) (n.fraction.getD [])
  exponent := n.exponentValue?.getD 0 - (n.fraction.getD []).length

theorem IsRun.toDigits (n : Nat) : IsRun (Nat.toDigits 10 n) :=
  ⟨Nat.toDigits_ne_nil, isDigit_toDigits⟩

theorem readFraction?_text {fraction : Option (List Char)} (h : ∀ digits ∈ fraction, IsRun digits)
    {rest : List Char} (hrest : ∀ c ∈ rest.head?, c.isDigit = false ∧ c ≠ '.') :
    readFraction? (fractionText fraction ++ rest) = some (fraction, rest) := by
  cases fraction with
  | none =>
    cases rest with
    | nil => rfl
    | cons c rest =>
      have hc : c ≠ '.' := (hrest c rfl).2
      rw [fractionText, List.nil_append, readFraction?]
      exact fun _ heq => hc (List.cons.inj heq).1
  | some digits =>
    obtain ⟨hne, hdigits⟩ := h digits rfl
    obtain ⟨htake, hdrop⟩ := takeWhile_digits hdigits fun c hc => (hrest c hc).1
    show readFraction? ('.' :: (digits ++ rest)) = _
    rw [readFraction?]
    simp only [htake, hdrop, List.isEmpty_iff, hne, if_false]

theorem readExponent?_text {n : Numeral} (h : n.WellFormed) {rest : List Char}
    (hrest : Stops rest) :
    readExponent? (exponentText n.exponent ++ rest) = some (n.exponentValue?, rest) := by
  rw [exponentValue?]
  cases hexponent : n.exponent with
  | none =>
    cases rest with
    | nil => rfl
    | cons c rest =>
      obtain ⟨-, -, hsmall, hlarge⟩ := hrest c rfl
      rw [exponentText, List.nil_append, readExponent?, if_neg (by simp [hsmall, hlarge])]
      rfl
  | some part =>
    obtain ⟨negative, digits⟩ := part
    obtain ⟨hne, hdigits⟩ := h.exponent _ hexponent
    obtain ⟨htake, hdrop⟩ := takeWhile_digits hdigits fun c hc => (hrest c hc).1
    have hsign : takeSign ((if negative then '-' else '+') :: (digits ++ rest)) =
        (negative, digits ++ rest) := by
      cases negative <;> rfl
    show readExponent? ('e' :: (if negative then '-' else '+') :: (digits ++ rest)) = _
    rw [readExponent?, if_pos (Or.inl rfl)]
    simp only [hsign, htake, hdrop, List.isEmpty_iff, hne, if_false, Option.map_some]

theorem head?_exponentText (exponent : Option (Bool × List Char)) {rest : List Char}
    (hrest : Stops rest) :
    ∀ c ∈ (exponentText exponent ++ rest).head?, c.isDigit = false ∧ c ≠ '.' := by
  intro c hc
  cases exponent with
  | none => exact ⟨(hrest c hc).1, (hrest c hc).2.1⟩
  | some part =>
    obtain rfl : 'e' = c := Option.some.inj hc
    decide

theorem head?_fractionText (n : Numeral) {rest : List Char} (hrest : Stops rest) :
    ∀ c ∈ (fractionText n.fraction ++ (exponentText n.exponent ++ rest)).head?,
      c.isDigit = false := by
  intro c hc
  cases hfraction : n.fraction with
  | none =>
    rw [hfraction] at hc
    exact (head?_exponentText n.exponent hrest c hc).1
  | some digits =>
    rw [hfraction] at hc
    obtain rfl : '.' = c := Option.some.inj hc
    rfl

/-- A number is read part by part, up to where it ends. -/
theorem readNumber_text {n : Numeral} (h : n.WellFormed) (negative : Bool) {rest : List Char}
    (hrest : Stops rest) :
    readNumber ((if negative then ['-'] else []) ++ (n.text ++ rest)) =
      some (numberValue negative n.whole n.fraction n.exponentValue?, rest) := by
  have hassoc : n.text ++ rest =
      n.whole ++ (fractionText n.fraction ++ (exponentText n.exponent ++ rest)) := by
    simp [text]
  obtain ⟨htake, hdrop⟩ := takeWhile_digits h.whole.digit (n.head?_fractionText hrest)
  have hfraction := readFraction?_text h.fraction (head?_exponentText n.exponent hrest)
  have hwhole : (n.whole.isEmpty || (n.whole.head? == some '0' && 1 < n.whole.length)) = false := by
    rw [Bool.or_eq_false_iff, List.isEmpty_eq_false_iff, Bool.and_eq_false_iff]
    refine ⟨h.whole.nonempty, ?_⟩
    by_cases hzero : n.whole.head? = some '0'
    · exact Or.inr (by simp [h.leading hzero])
    · exact Or.inl (beq_eq_false_iff_ne.mpr hzero)
  -- a minus is no digit
  have hminus : ∀ chars, n.text ++ rest ≠ '-' :: chars := by
    intro chars heq
    obtain ⟨c, whole, hc⟩ := List.exists_cons_of_ne_nil h.whole.nonempty
    rw [hassoc, hc] at heq
    obtain rfl : c = '-' := (List.cons.inj heq).1
    have hdigit := h.whole.digit '-' (by simp [hc])
    cases hdigit
  cases negative with
  | true =>
    show readNumber ('-' :: (n.text ++ rest)) = _
    simp [readNumber, hassoc, htake, hdrop, hwhole, hfraction, readExponent?_text h hrest]
  | false =>
    show readNumber (n.text ++ rest) = _
    unfold readNumber
    split
    next hsplit =>
      split at hsplit
      next heq => exact absurd heq (hminus _)
      next =>
        cases hsplit
        simp [hassoc, htake, hdrop, hwhole, hfraction, readExponent?_text h hrest]

/-- A numeral that is no integer is its digits, scaled. -/
theorem number_eq {n : Numeral} (hparts : n.fraction.isSome ∨ n.exponent.isSome)
    (hfits : n.decimal.digits ≤ wordMax) (negative : Bool) :
    numberValue negative n.whole n.fraction n.exponentValue? =
      (scaleWord 4 (Float.ofNat n.decimal.digits) n.decimal.exponent).map fun x =>
        .float (if negative then -x else x) := by
  have hwhole : digitsValue 0 n.whole ≤ wordMax := Nat.le_trans (le_digitsValue _ _) hfits
  have hgather : gatherDigits (digitsValue 0 n.whole) 0 (n.fraction.getD []) =
      (n.decimal.digits, 0 + (n.fraction.getD []).length, 0) := gatherDigits_eq hfits 0
  have hscale : ((0 : Nat) : Int) - ((0 + (n.fraction.getD []).length : Nat) : Int) +
      n.exponentValue?.getD 0 = n.decimal.exponent := by
    simp only [decimal]
    omega
  rw [numberValue, gatherDigits_eq hwhole]
  cases hfraction : n.fraction with
  | none =>
    cases hexponent : n.exponentValue? with
    | none =>
      rw [exponentValue?, Option.map_eq_none_iff] at hexponent
      simp [hfraction, hexponent] at hparts
    | some e =>
      rw [hfraction] at hgather hscale
      rw [hexponent] at hscale
      simp only [hgather, hscale]
  | some digits =>
    rw [hfraction] at hgather hscale
    simp only [hgather, hscale]

end Numeral

/-! ## Decimals as numerals -/

theorem head?_toDigits {n : Nat} (hn : n ≠ 0) : (Nat.toDigits 10 n).head? ≠ some '0' := by
  induction n using Nat.strongRecOn with
  | ind n ih =>
    rcases Nat.lt_or_ge n 10 with hlt | hge
    · rw [Nat.toDigits_of_lt_base hlt]
      interval_cases n <;> simp_all
    · rw [Nat.toDigits_of_base_le (by decide) hge,
        List.head?_append_of_ne_nil _ Nat.toDigits_ne_nil]
      exact ih (n / 10) (by omega) (by omega)

/-- A numeral is the text of a number with a point or an exponent, and writes a decimal. -/
structure Numeral.Writes (n : Numeral) (text : String) (d : Decimal) : Prop where
  wellFormed : n.WellFormed
  text : text.toList = n.text
  parts : n.fraction.isSome ∨ n.exponent.isSome
  decimal : n.decimal = d

/-- The decimal that the text of a decimal writes. A whole number that is written without an
exponent has a zero after its point. -/
def written (d : Decimal) : Decimal :=
  if Layout.json.positional d.order ∧ 0 ≤ d.exponent then
    ⟨d.digits * 10 ^ (d.exponent.toNat + 1), -1⟩
  else d

theorem isDigit_zeros (n : Nat) : ∀ c ∈ List.replicate n '0', c.isDigit = true := fun c hc => by
  rw [List.eq_of_mem_replicate hc]
  rfl

/-- Digits with zeros after them and a zero after the point. -/
theorem exists_writes_whole {digits : Nat} (hd : digits ≠ 0) (zeros : Nat) : ∃ n : Numeral,
    n.Writes (String.ofList (Nat.toDigits 10 digits ++ List.replicate zeros '0') ++ ".0")
      ⟨digits * 10 ^ (zeros + 1), -1⟩ := by
  have hvalue : digitsValue (digitsValue 0 (Nat.toDigits 10 digits ++ List.replicate zeros '0'))
      ['0'] = digits * 10 ^ (zeros + 1) := by
    rw [digitsValue_append, digitsValue_toDigits, digitsValue_zeros, Nat.pow_succ, ← Nat.mul_assoc]
    rfl
  refine ⟨⟨Nat.toDigits 10 digits ++ List.replicate zeros '0', some ['0'], none⟩,
    ⟨⟨by simp, ?_⟩, ?_, ?_, by simp⟩, by simp [Numeral.text, Numeral.fractionText,
      Numeral.exponentText], Or.inl rfl, ?_⟩
  · intro c hc
    exact (List.mem_append.mp hc).elim (isDigit_toDigits c) (isDigit_zeros _ c)
  · intro hzero
    rw [List.head?_append_of_ne_nil _ Nat.toDigits_ne_nil] at hzero
    exact absurd hzero (head?_toDigits hd)
  · rintro part ⟨⟩
    exact ⟨by simp, by simp⟩
  · simp [Numeral.decimal, Numeral.exponentValue?, hvalue]

/-- All digits after the point, with zeros before them. -/
theorem exists_writes_fraction {digits places : Nat}
    (hshort : (Nat.toDigits 10 digits).length ≤ places) : ∃ n : Numeral,
    n.Writes ("0." ++ String.ofList
      (List.replicate (places - (Nat.toDigits 10 digits).length) '0' ++
      Nat.toDigits 10 digits)) ⟨digits, -(places : Int)⟩ := by
  have hvalue : digitsValue (digitsValue 0 ['0'])
      (List.replicate (places - (Nat.toDigits 10 digits).length) '0' ++ Nat.toDigits 10 digits) =
        digits := by
    rw [digitsValue_append, digitsValue_zeros]
    show digitsValue (0 * _) _ = _
    rw [Nat.zero_mul, digitsValue_toDigits]
  have hlength : places - (Nat.toDigits 10 digits).length + (Nat.toDigits 10 digits).length =
      places := Nat.sub_add_cancel hshort
  refine ⟨⟨['0'], some (List.replicate (places - (Nat.toDigits 10 digits).length) '0' ++
    Nat.toDigits 10 digits), none⟩, ⟨⟨by simp, by simp⟩, by simp, ?_, by simp⟩,
    by simp [Numeral.text, Numeral.fractionText, Numeral.exponentText], Or.inl rfl, ?_⟩
  · rintro part ⟨⟩
    refine ⟨by simp, fun c hc => ?_⟩
    exact (List.mem_append.mp hc).elim (isDigit_zeros _ c) (isDigit_toDigits c)
  · simp [Numeral.decimal, Numeral.exponentValue?, hvalue, hlength]

/-- The point between two of the digits. -/
theorem exists_writes_pointed {digits front places : Nat} (hd : digits ≠ 0)
    (hlength : (Nat.toDigits 10 digits).length = front + places) (hfront : 0 < front)
    (hplaces : 0 < places) : ∃ n : Numeral,
    n.Writes (String.ofList ((Nat.toDigits 10 digits).take front) ++ "." ++
      String.ofList ((Nat.toDigits 10 digits).drop front)) ⟨digits, -(places : Int)⟩ := by
  have htake : (Nat.toDigits 10 digits).take front ≠ [] := by
    rw [← List.length_pos_iff, List.length_take]
    omega
  have hdrop : (Nat.toDigits 10 digits).drop front ≠ [] := by
    rw [← List.length_pos_iff, List.length_drop]
    omega
  have hvalue : digitsValue (digitsValue 0 ((Nat.toDigits 10 digits).take front))
      ((Nat.toDigits 10 digits).drop front) = digits := by
    rw [← digitsValue_append, List.take_append_drop, digitsValue_toDigits]
  refine ⟨⟨(Nat.toDigits 10 digits).take front, some ((Nat.toDigits 10 digits).drop front), none⟩,
    ⟨⟨htake, fun c hc => isDigit_toDigits c (List.mem_of_mem_take hc)⟩, ?_, ?_, by simp⟩,
    by simp [Numeral.text, Numeral.fractionText, Numeral.exponentText], Or.inl rfl, ?_⟩
  · intro hzero
    have hhead := head?_toDigits hd
    rw [← List.take_append_drop front (Nat.toDigits 10 digits),
      List.head?_append_of_ne_nil _ htake] at hhead
    exact absurd hzero hhead
  · rintro part ⟨⟩
    exact ⟨hdrop, fun c hc => isDigit_toDigits c (List.mem_of_mem_drop hc)⟩
  · simp [Numeral.decimal, Numeral.exponentValue?, hvalue, hlength]

theorem exists_writes_positional {d : Decimal} (hd : d.digits ≠ 0) : ∃ n : Numeral,
    n.Writes (d.positional true)
      (if 0 ≤ d.exponent then ⟨d.digits * 10 ^ (d.exponent.toNat + 1), -1⟩ else d) := by
  rw [Decimal.positional]
  split
  next hexponent => exact exists_writes_whole hd _
  next hexponent =>
    obtain ⟨places, hplaces⟩ : ∃ places : Nat, (-d.exponent).toNat = places := ⟨_, rfl⟩
    have hparts : d = ⟨d.digits, -(places : Int)⟩ := by
      rw [show -(places : Int) = d.exponent by omega]
    simp only [hplaces]
    rw [hparts]
    split
    next hshort => exact exists_writes_fraction hshort
    next hlong => exact exists_writes_pointed hd (by omega) (by omega) (by omega)

theorem exists_writes_scientific (d : Decimal) :
    ∃ n : Numeral, n.Writes (d.scientific d.order true) d := by
  obtain ⟨c, rest, hdigits⟩ :=
    List.exists_cons_of_ne_nil (Nat.toDigits_ne_nil (n := d.digits) (b := 10))
  have hvalue : digitsValue (digitsValue 0 [c]) rest = d.digits := by
    rw [← digitsValue_append, List.singleton_append, ← hdigits, digitsValue_toDigits]
  have hrun : ∀ c' ∈ c :: rest, c'.isDigit = true := hdigits ▸ isDigit_toDigits
  have horder : (if d.order < 0 then -(d.order.natAbs : Int) else d.order.natAbs) - rest.length =
      d.exponent := by
    have hlength : d.order = d.exponent + rest.length := by
      rw [Decimal.order, hdigits, List.length_cons]
      omega
    split <;> omega
  refine ⟨⟨[c], if rest = [] then none else some rest,
    some (decide (d.order < 0), Nat.toDigits 10 d.order.natAbs)⟩, ⟨⟨by simp, ?_⟩, by simp, ?_, ?_⟩,
    ?_, Or.inr rfl, ?_⟩
  · intro c' hc
    exact hrun c' (List.mem_singleton.mp hc ▸ List.mem_cons_self)
  · intro digits hmem
    split at hmem
    next => cases hmem
    next hrest =>
      cases hmem
      exact ⟨hrest, fun c' hc => hrun c' (List.mem_cons_of_mem c hc)⟩
  · rintro part ⟨⟩
    exact .toDigits _
  · cases rest with
    | nil =>
      by_cases hnegative : d.order < 0 <;>
        simp [Decimal.scientific, hdigits, Numeral.text, Numeral.fractionText,
          Numeral.exponentText, digitText, hnegative]
    | cons c' rest =>
      by_cases hnegative : d.order < 0 <;>
        simp [Decimal.scientific, hdigits, Numeral.text, Numeral.fractionText,
          Numeral.exponentText, digitText, hnegative]
  · have hgetD : (if rest = [] then none else some rest).getD [] = rest := by
      split <;> simp_all
    simp only [Numeral.decimal, Numeral.exponentValue?, hgetD, hvalue, Option.map_some,
      Option.getD_some, digitsValue_toDigits, decide_eq_true_eq, horder]

/-- The decimal that the text of a number writes, `m` and `q` being its mantissa and exponent. -/
def decimalOf (m : Nat) (q : Int) : Decimal :=
  if m = 0 then ⟨0, -1⟩ else written (shortest .even m q)

theorem exists_writes_magnitude {m : Nat} {q : Int}
    (h : m ≠ 0 → (shortest .even m q).digits ≠ 0) : ∃ n : Numeral,
    n.Writes (Layout.json.magnitude m q) (decimalOf m q) := by
  rw [Layout.magnitude, decimalOf]
  split
  next =>
    refine ⟨⟨['0'], some ['0'], none⟩, ⟨⟨by simp, by simp⟩, by simp, ?_, by simp⟩, rfl, Or.inl rfl,
      rfl⟩
    rintro digits ⟨⟩
    exact ⟨by simp, by simp⟩
  next hm =>
    rw [written]
    show ∃ n : Numeral, n.Writes (if Layout.json.positional (shortest .even m q).order then
      (shortest .even m q).positional true
      else (shortest .even m q).scientific (shortest .even m q).order true) _
    split
    next hpositional =>
      simp only [hpositional, true_and]
      exact exists_writes_positional (h hm)
    next hscientific =>
      rw [if_neg fun hboth => hscientific hboth.1]
      exact exists_writes_scientific _

end Patchbay.Json
