import Patchbay.Proofs.Program.Literals
import Patchbay.Proofs.Toml.Readers
/-!
# Numbers in TOML texts

A whole number that fits in a signed word is read from its digits as an integer
(`scalar_toDigits`). The text of a literal with a point or an exponent is read as the number of the
literal (`scalar_literal`). The forms that are tried before break off: texts and words begin
otherwise, and a date or a time has a mark where a number goes on or ends.

Every finite float has such a literal, its shortest digits with a point (`exists_literal_pointed`).
-/

namespace Patchbay.Toml.Reader

open Patchbay.Json Patchbay.Number Patchbay.Script

variable {digits rest : List Char} {times : Nat} {mark : Char}

/-! ## Runs of digits -/

/-- A further digit, which an underscore could stand before. -/
theorem nextDigit_cons {c : Char} (hc : c.isDigit = true) (rest : List Char) :
    (do let _ ← maybe (char '_'); one Char.isDigit : Reader Char) (c :: rest) = some (c, rest) := by
  have hunderscore : char '_' (c :: rest) = none := by
    refine char_none fun heq => ?_
    obtain rfl : c = '_' := Option.some.inj heq
    cases hc
  rw [bind_apply, maybe_of_none hunderscore]
  exact one_cons hc

theorem nextDigit_none (hrest : ∀ c ∈ rest.head?, c.isDigit = false)
    (hmark : rest.head? ≠ some '_') :
    (do let _ ← maybe (char '_'); one Char.isDigit : Reader Char) rest = none := by
  rw [bind_apply, maybe_of_none (char_none hmark)]
  exact one_none hrest

theorem digitsBy_run (h : Numeral.IsRun digits) (hrest : ∀ c ∈ rest.head?, c.isDigit = false)
    (hmark : rest.head? ≠ some '_') (htimes : digits.length ≤ times) :
    digitsBy Char.isDigit times (digits ++ rest) = some (digits, rest) := by
  obtain ⟨c, tail, rfl⟩ := List.exists_cons_of_ne_nil h.nonempty
  obtain ⟨hc, htail⟩ := List.forall_mem_cons.mp h.digit
  have hparts : ∀ part ∈ tail.map fun d => ([d], d), ∀ rest',
      (do let _ ← maybe (char '_'); one Char.isDigit : Reader Char) (part.1 ++ rest') =
        some (part.2, rest') := by
    intro part hpart rest'
    obtain ⟨d, hd, rfl⟩ := List.mem_map.mp hpart
    exact nextDigit_cons (htail d hd) rest'
  have hfew : (tail.map fun d => ([d], d)).length ≤ times :=
    (List.length_map _).trans_le (Nat.le_of_succ_le htimes)
  have hmany := many_flatMap hparts (nextDigit_none hrest hmark) hfew
  rw [List.flatMap_map, List.flatMap_singleton', List.map_map] at hmany
  rw [digitsBy, List.cons_append, bind_apply, one_cons hc, Option.bind_some, bind_apply, hmany]
  simp [Function.comp_def]

/-- A zero at the front stands alone. -/
theorem wholeDigits_run (h : Numeral.IsRun digits)
    (hleading : digits.head? = some '0' → digits.length = 1)
    (hrest : ∀ c ∈ rest.head?, c.isDigit = false) (hmark : rest.head? ≠ some '_')
    (htimes : digits.length ≤ times) :
    wholeDigits times (digits ++ rest) = some (digits, rest) := by
  have hhead : (digits ++ rest).head? = digits.head? := List.head?_append_of_ne_nil _ h.nonempty
  rw [wholeDigits, bind_apply, peek_apply, Option.bind_some, hhead]
  by_cases hzero : digits.head? = some '0'
  · obtain ⟨c, rfl⟩ := List.length_eq_one_iff.mp (hleading hzero)
    obtain rfl : c = '0' := Option.some.inj hzero
    rfl
  · rw [if_neg (by simpa using hzero)]
    exact digitsBy_run h hrest hmark htimes

/-- A minus before digits is read, if there is one. -/
theorem sign_append (h : Numeral.IsRun digits) (negative : Bool) (rest : List Char) :
    sign ((if negative then ['-'] else []) ++ (digits ++ rest)) =
      some (if negative then ['-'] else [], digits ++ rest) := by
  obtain ⟨c, tail, rfl⟩ := List.exists_cons_of_ne_nil h.nonempty
  have hc := h.digit c List.mem_cons_self
  cases negative with
  | true => rfl
  | false =>
    have hmark : one (fun c => c == '+' || c == '-') (c :: (tail ++ rest)) = none := by
      refine one_none fun d hd => ?_
      obtain rfl : c = d := Option.some.inj hd
      rw [Bool.or_eq_false_iff, beq_eq_false_iff_ne, beq_eq_false_iff_ne]
      constructor <;> rintro rfl <;> cases hc
    simp [sign, maybe_of_none hmark]

/-! ## Dates and times -/

/-- Reading a field takes digits. -/
theorem exists_of_mapM_digits {count : Nat} {s s' taken : List Char}
    (h : ((List.replicate count ()).mapM fun _ => one Char.isDigit : Reader (List Char)) s =
      some (taken, s')) : s = taken ++ s' ∧ ∀ c ∈ taken, c.isDigit = true := by
  induction count generalizing s taken with
  | zero =>
    cases h
    exact ⟨rfl, List.forall_mem_nil _⟩
  | succ count ih =>
    rw [List.replicate_succ, List.mapM_cons, bind_apply] at h
    cases s with
    | nil => cases h
    | cons c s =>
      by_cases hc : c.isDigit = true
      · rw [one_cons hc, Option.bind_some, bind_apply] at h
        obtain ⟨⟨tail, s''⟩, htail, heq⟩ := Option.bind_eq_some_iff.mp h
        cases heq
        obtain ⟨rfl, hdigits⟩ := ih htail
        exact ⟨rfl, List.forall_mem_cons.mpr ⟨hc, hdigits⟩⟩
      · have hfails : one Char.isDigit (c :: s) = none := if_neg hc
        rw [hfails] at h
        cases h

theorem exists_of_field {count low high n : Nat} {s s' : List Char}
    (h : field count low high s = some (n, s')) :
    ∃ taken, s = taken ++ s' ∧ ∀ c ∈ taken, c.isDigit = true := by
  rw [field, bind_apply] at h
  obtain ⟨⟨taken, s''⟩, htaken, h⟩ := Option.bind_eq_some_iff.mp h
  obtain ⟨hs, hdigits⟩ := exists_of_mapM_digits htaken
  dsimp only at h
  split at h
  next =>
    cases h
    exact ⟨taken, hs, hdigits⟩
  next => cases h

/-- What is left of a run of digits begins with a digit, or as the text behind the run. -/
theorem head_of_append {taken s' : List Char} {c : Char} (hdigits : ∀ c ∈ digits, c.isDigit = true)
    (hrest : ∀ c ∈ rest.head?, c.isDigit = false) (htaken : ∀ c ∈ taken, c.isDigit = true)
    (h : digits ++ rest = taken ++ s') (hc : s'.head? = some c) :
    c.isDigit = true ∨ rest.head? = some c := by
  rcases List.append_eq_append_iff.mp h with ⟨more, htaken', hrest'⟩ | ⟨left, hdigits', hs'⟩
  · cases more with
    | nil => exact Or.inr (by rwa [hrest', List.nil_append])
    | cons d more =>
      have hd : d.isDigit = false := hrest d (by rw [hrest']; rfl)
      have hd' : d.isDigit = true := htaken d (by rw [htaken']; simp)
      rw [hd] at hd'
      cases hd'
  · cases left with
    | nil => exact Or.inr (by rwa [hs', List.nil_append] at hc)
    | cons d left =>
      rw [hs'] at hc
      obtain rfl : d = c := Option.some.inj hc
      exact Or.inl (hdigits d (by rw [hdigits']; simp))

/-- Behind a field comes a mark, which a run of digits does not have. -/
theorem field_mark_none {β : Type} {count low high : Nat}
    (hdigits : ∀ c ∈ digits, c.isDigit = true) (hrest : ∀ c ∈ rest.head?, c.isDigit = false)
    (hhead : rest.head? ≠ some mark) (hmark : mark.isDigit = false) (next : Nat → Unit → Reader β) :
    (do let n ← field count low high; let u ← char mark; next n u : Reader β) (digits ++ rest) =
      none := by
  rw [bind_apply]
  cases hfield : field count low high (digits ++ rest) with
  | none => rfl
  | some result =>
    obtain ⟨n, s'⟩ := result
    obtain ⟨taken, htaken, hall⟩ := exists_of_field hfield
    -- a field that is shorter than the run stops before a digit, one as long before what follows
    have hchar : char mark s' = none := by
      refine char_none fun heq => ?_
      rcases head_of_append hdigits hrest hall htaken heq with hdigit | hbehind
      · rw [hmark] at hdigit
        cases hdigit
      · exact hhead hbehind
    rw [Option.bind_some, bind_apply, hchar]
    rfl

theorem moment_none (hdigits : ∀ c ∈ digits, c.isDigit = true)
    (hrest : ∀ c ∈ rest.head?, c.isDigit = false) (hminus : rest.head? ≠ some '-')
    (hcolon : rest.head? ≠ some ':') : moment (digits ++ rest) = none := by
  have hdate : date (digits ++ rest) = none :=
    field_mark_none hdigits hrest hminus (by decide) _
  have htime : timeOfDay (digits ++ rest) = none :=
    field_mark_none hdigits hrest hcolon (by decide) _
  rw [moment, orElse_apply, bind_apply, hdate]
  exact htime

/-! ## Other forms -/

theorem longText_none {quote : Char} {s : List Char} (h : s.head? ≠ some quote)
    (part : Reader (List Char)) (times : Nat) : longText quote part times s = none := by
  have hword : word (String.ofList [quote, quote, quote]) s = none :=
    word_none (String.toList_ofList) h
  rw [longText, bind_apply, hword]
  rfl

theorem text_none {s : List Char} (hdouble : s.head? ≠ some '"') (hsingle : s.head? ≠ some '\'')
    (times : Nat) : text times s = none := by
  simp [text, longQuoted, longLiteral, longText_none hdouble, longText_none hsingle, quoted,
    literal, char_none hdouble, char_none hsingle]

theorem specialFloat_none (h : Numeral.IsRun digits) (rest : List Char) :
    specialFloat (digits ++ rest) = none := by
  obtain ⟨c, tail, hdigits⟩ := List.exists_cons_of_ne_nil h.nonempty
  have hdigit : c.isDigit = true := h.digit c (by simp [hdigits])
  have hletter : ∀ d : Char, d.isDigit = false → (digits ++ rest).head? ≠ some d := by
    intro d hd heq
    rw [hdigits] at heq
    obtain rfl : c = d := Option.some.inj heq
    rw [hd] at hdigit
    cases hdigit
  have hsign : sign (digits ++ rest) = some ([], digits ++ rest) := sign_append h false rest
  rw [specialFloat, bind_apply, hsign]
  simp [word_none (w := "inf") rfl (hletter 'i' rfl), word_none (w := "nan") rfl (hletter 'n' rfl)]

/-- A number in another base is marked behind a zero. -/
theorem based_none {w : String} (hw : w.toList = ['0', mark])
    (hleading : digits.head? = some '0' → digits.length = 1) (hne : digits ≠ [])
    (hmark : rest.head? ≠ some mark) (base times : Nat) :
    based w base times (digits ++ rest) = none := by
  have hword : word w (digits ++ rest) = none := by
    by_cases hzero : digits.head? = some '0'
    · obtain ⟨c, rfl⟩ := List.length_eq_one_iff.mp (hleading hzero)
      obtain rfl : c = '0' := Option.some.inj hzero
      exact word_second_none hw hmark
    · refine word_none hw ?_
      rwa [List.head?_append_of_ne_nil _ hne]
  rw [based, bind_apply, hword]
  rfl

/-! ## The end of a number -/

/-- The marks within numbers, dates and times. -/
def marks : List Char := ['_', '.', 'e', 'E', '-', ':', 'x', 'o', 'b']

/-- A text that goes on with nothing that belongs to a number, a date or a time. -/
def Ends (rest : List Char) : Prop := ∀ c ∈ rest.head?, c.isDigit = false ∧ c ∉ marks

theorem ends_newline (rest : List Char) : Ends ('\n' :: rest) := by
  rintro c ⟨⟩
  decide

namespace Ends

theorem isDigit_eq (h : Ends rest) : ∀ c ∈ rest.head?, c.isDigit = false := fun c hc => (h c hc).1

theorem ne (h : Ends rest) (hmark : mark ∈ marks) : rest.head? ≠ some mark := fun heq =>
  (h mark heq).2 hmark

end Ends

/-! ## Integers -/

theorem exponent_none (h : Ends rest) (times : Nat) : exponent times rest = none := by
  have hmark : one (fun c => c == 'e' || c == 'E') rest = none := by
    refine one_none fun c hc => ?_
    rw [Bool.or_eq_false_iff, beq_eq_false_iff_ne, beq_eq_false_iff_ne]
    constructor
    · rintro rfl
      exact h.ne (by decide) hc
    · rintro rfl
      exact h.ne (by decide) hc
  rw [exponent, bind_apply, hmark]
  rfl

/-- Digits alone are no float. -/
theorem float_none (h : Numeral.IsRun digits)
    (hleading : digits.head? = some '0' → digits.length = 1) (hrest : Ends rest)
    (htimes : digits.length ≤ times) : float times (digits ++ rest) = none := by
  have hsign : sign (digits ++ rest) = some ([], digits ++ rest) := sign_append h false rest
  have hwhole := wholeDigits_run h hleading hrest.isDigit_eq (hrest.ne (by decide)) htimes
  have hfraction : fraction times rest = none := by
    rw [fraction, bind_apply, char_none (hrest.ne (by decide))]
    rfl
  rw [float, bind_apply, hsign, Option.bind_some, bind_apply, hwhole]
  simp [exponent_none hrest, hfraction]

theorem decimal_toDigits {n : Nat} (hn : n < 2 ^ 63) (hrest : Ends rest)
    (htimes : (Nat.toDigits 10 n).length ≤ times) :
    decimal times (Nat.toDigits 10 n ++ rest) = some ((n : Int), rest) := by
  have hrun := Numeral.WellFormed.toDigits n
  have hsign : sign (Nat.toDigits 10 n ++ rest) = some ([], Nat.toDigits 10 n ++ rest) :=
    sign_append hrun.whole false rest
  have hwhole :=
    wholeDigits_run hrun.whole hrun.leading hrest.isDigit_eq (hrest.ne (by decide)) htimes
  have hword : inWord (n : Int) rest = some ((n : Int), rest) := by
    have hpower : Nat.pow 2 63 = 2 ^ 63 := rfl
    rw [inWord, if_pos (by omega)]
    rfl
  rw [decimal, bind_apply, hsign, Option.bind_some, bind_apply, hwhole, Option.bind_some]
  dsimp only
  rw [digitsValue_toDigits]
  exact hword

/-- A number starts as no text and no word does. -/
theorem head?_ne_of_number {c d : Char} (hc : c.isDigit = true ∨ c = '-') (s : List Char)
    (hdigit : d.isDigit = false) (hminus : d ≠ '-') : (c :: s).head? ≠ some d := by
  rintro ⟨⟩
  rcases hc with hc | hc
  · rw [hdigit] at hc
    cases hc
  · exact hminus hc

theorem scalar_of_number (times : Nat) {c : Char} {s : List Char} (hc : c.isDigit = true ∨ c = '-')
    (hmoment : moment (c :: s) = none) : scalar times (c :: s) =
      ((.float <$> float times) <|> (.float <$> specialFloat) <|> (.int <$> based "0x" 16 times) <|>
        (.int <$> based "0o" 8 times) <|> (.int <$> based "0b" 2 times) <|>
        (.int <$> decimal times) : Reader Value) (c :: s) := by
  have hother {d : Char} := head?_ne_of_number (d := d) hc s
  have htext := text_none (hother rfl (by decide)) (hother rfl (by decide)) times
  have htrue := word_none (w := "true") rfl (hother rfl (by decide))
  have hfalse := word_none (w := "false") rfl (hother rfl (by decide))
  simp [scalar, htext, htrue, hfalse, hmoment]

/-- A whole number that fits in a signed word is read from its digits. -/
theorem scalar_toDigits {n : Nat} (hn : n < 2 ^ 63) (hrest : Ends rest)
    (htimes : (Nat.toDigits 10 n).length ≤ times) :
    scalar times (Nat.toDigits 10 n ++ rest) = some (.int n, rest) := by
  have hrun := Numeral.WellFormed.toDigits n
  have hmoment := moment_none hrun.whole.digit hrest.isDigit_eq (hrest.ne (by decide))
    (hrest.ne (by decide))
  have hspecial := specialFloat_none hrun.whole rest
  have hbased (w : String) (base : Nat) (mark : Char) (hw : w.toList = ['0', mark])
      (hmark : mark ∈ marks) : based w base times (Nat.toDigits 10 n ++ rest) = none :=
    based_none hw hrun.leading hrun.whole.nonempty (hrest.ne hmark) base times
  obtain ⟨c, tail, hdigits⟩ := List.exists_cons_of_ne_nil hrun.whole.nonempty
  have hdigit := hrun.whole.digit c (by rw [hdigits]; exact List.mem_cons_self)
  rw [hdigits, List.cons_append] at hmoment
  have hstart := scalar_of_number times (Or.inl hdigit) hmoment
  rw [← List.cons_append, ← hdigits] at hstart
  rw [hstart]
  simp [float_none hrun.whole hrun.leading hrest htimes, hspecial,
    hbased "0x" 16 'x' rfl (by decide), hbased "0o" 8 'o' rfl (by decide),
    hbased "0b" 2 'b' rfl (by decide), decimal_toDigits hn hrest htimes]

/-! ## Floats -/

theorem exponent_text {negative : Bool} (h : Numeral.IsRun digits) (hrest : Ends rest)
    (htimes : digits.length ≤ times) :
    exponent times (Numeral.exponentText (some (negative, digits)) ++ rest) =
      some (Numeral.exponentText (some (negative, digits)), rest) := by
  have hdigits := digitsBy_run h hrest.isDigit_eq (hrest.ne (by decide)) htimes
  cases negative <;> simp [exponent, Numeral.exponentText, one, sign, maybe, hdigits]

theorem fraction_text (h : Numeral.IsRun digits) (hrest : ∀ c ∈ rest.head?, c.isDigit = false)
    (hmark : rest.head? ≠ some '_') (htimes : digits.length ≤ times) :
    fraction times ('.' :: (digits ++ rest)) = some ('.' :: digits, rest) := by
  simp [fraction, digitsBy_run h hrest hmark htimes]

/-- Behind a part of a numeral no digits go on, nor does a date or a time. -/
theorem head_exponentText (n : Numeral) (hrest : Ends rest) :
    (∀ c ∈ (Numeral.exponentText n.exponent ++ rest).head?, c.isDigit = false) ∧
      ∀ mark ∈ ['_', '-', ':'], (Numeral.exponentText n.exponent ++ rest).head? ≠ some mark := by
  cases n.exponent with
  | none =>
    have hmarks : ['_', '-', ':'] ⊆ marks := by decide
    exact ⟨hrest.isDigit_eq, fun mark hmark => hrest.ne (hmarks hmark)⟩
  | some part => exact ⟨by rintro c ⟨⟩; rfl, by simp [Numeral.exponentText]⟩

theorem head_fractionText (n : Numeral) (hrest : Ends rest) :
    (∀ c ∈ (Numeral.fractionText n.fraction ++ (Numeral.exponentText n.exponent ++ rest)).head?,
      c.isDigit = false) ∧
      ∀ mark ∈ ['_', '-', ':'],
        (Numeral.fractionText n.fraction ++ (Numeral.exponentText n.exponent ++ rest)).head? ≠
          some mark := by
  cases n.fraction with
  | none => exact head_exponentText n hrest
  | some digits => exact ⟨by rintro c ⟨⟩; rfl, by simp [Numeral.fractionText]⟩

/-- What stands behind the whole part of a literal that is no integer. -/
theorem tail_text {n : Numeral} (h : n.WellFormed) (hparts : n.fraction.isSome ∨ n.exponent.isSome)
    (hrest : Ends rest) (htimes : n.text.length ≤ times) :
    (exponent times <|> do return (← fraction times) ++ ((← maybe (exponent times)).getD []) :
        Reader (List Char))
        (Numeral.fractionText n.fraction ++ (Numeral.exponentText n.exponent ++ rest)) =
      some (Numeral.fractionText n.fraction ++ Numeral.exponentText n.exponent, rest) := by
  rw [Numeral.text, List.length_append, List.length_append] at htimes
  have hexponents : ∀ part ∈ n.exponent, exponent times (Numeral.exponentText (some part) ++ rest) =
      some (Numeral.exponentText (some part), rest) := by
    rintro ⟨negative, digits⟩ hpart
    rw [Option.mem_def.mp hpart, Numeral.exponentText, List.length_cons, List.length_cons] at htimes
    exact exponent_text (h.exponent _ hpart) hrest (by omega)
  cases hfraction : n.fraction with
  | none =>
    rw [hfraction] at hparts
    obtain ⟨part, hexponent⟩ := Option.isSome_iff_exists.mp (hparts.resolve_left Bool.false_ne_true)
    rw [hexponent, Numeral.fractionText, List.nil_append, List.nil_append, orElse_apply,
      hexponents part hexponent]
    rfl
  | some digits =>
    rw [hfraction, Numeral.fractionText, List.length_cons] at htimes
    obtain ⟨hstop, hmark⟩ := head_exponentText n hrest
    have hfew : digits.length ≤ times := by omega
    have hdigits := fraction_text (h.fraction _ hfraction) hstop (hmark '_' (by decide)) hfew
    -- the exponent that is tried first is not one, as there is a point
    have hnone : exponent times
        ('.' :: (digits ++ (Numeral.exponentText n.exponent ++ rest))) = none := rfl
    rw [Numeral.fractionText, List.cons_append, orElse_apply, hnone, bind_apply, hdigits]
    cases hexponent : n.exponent with
    | none => simp [Numeral.exponentText, maybe_of_none (exponent_none hrest times)]
    | some part => simp [maybe_of_some (hexponents part hexponent)]

/-- A literal that is no integer is read as its number. -/
theorem float_literal {l : Literal} (hparts : l.numeral.fraction.isSome ∨ l.numeral.exponent.isSome)
    (hfinite : l.value.isFinite = true) (hrest : Ends rest) (htimes : l.text.length ≤ times) :
    float times (l.text.toList ++ rest) = some (l.value, rest) := by
  have hvalue := l.parseFloat?_text
  obtain ⟨negative, n, h⟩ := l
  dsimp only at hparts
  have htext : (Literal.text ⟨negative, n, h⟩).toList =
      (if negative then ['-'] else []) ++ (n.whole ++ (Numeral.fractionText n.fraction ++
        Numeral.exponentText n.exponent)) := by
    rw [Literal.text, String.toList_ofList, Numeral.text]
  have hlength : n.text.length ≤ times := by
    rw [← String.length_toList, htext, List.length_append, ← Numeral.text] at htimes
    omega
  have hwholeLength : n.whole.length ≤ times := by
    rw [Numeral.text, List.length_append] at hlength
    omega
  have hsign := sign_append h.whole negative
    (Numeral.fractionText n.fraction ++ (Numeral.exponentText n.exponent ++ rest))
  obtain ⟨hstop, hmark⟩ := head_fractionText n hrest
  have hwhole := wholeDigits_run h.whole h.leading hstop (hmark '_' (by decide)) hwholeLength
  have htail := tail_text h hparts hrest hlength
  have hinfinite := Binary64.isInf_of_isFinite hfinite
  -- the parts that are read, put together, are the text that the number is computed from
  have hwritten : String.ofList ((if negative then ['-'] else []) ++ n.whole ++
      (Numeral.fractionText n.fraction ++ Numeral.exponentText n.exponent)) =
        Literal.text ⟨negative, n, h⟩ := by
    rw [← String.toList_inj, String.toList_ofList, htext, List.append_assoc]
  rw [htext, List.append_assoc, List.append_assoc, List.append_assoc, float, bind_apply, hsign,
    Option.bind_some, bind_apply, hwhole, Option.bind_some, bind_apply, htail, Option.bind_some]
  dsimp only
  rw [hwritten, hvalue, bind_apply, lift_apply]
  simp [hinfinite]

theorem scalar_literal {l : Literal}
    (hparts : l.numeral.fraction.isSome ∨ l.numeral.exponent.isSome)
    (hfinite : l.value.isFinite = true) (hrest : Ends rest) (htimes : l.text.length ≤ times) :
    scalar times (l.text.toList ++ rest) = some (.float l.value, rest) := by
  have hfloat := float_literal hparts hfinite hrest htimes
  -- a minus begins no date and no time; without it the whole part has no mark behind it
  obtain ⟨c, s, hc, htext, hmoment⟩ : ∃ c s, (c.isDigit = true ∨ c = '-') ∧
      l.text.toList ++ rest = c :: s ∧ moment (c :: s) = none := by
    obtain ⟨negative, n, h⟩ := l
    rw [Literal.text, String.toList_ofList, List.append_assoc]
    cases negative with
    | true => exact ⟨'-', n.text ++ rest, Or.inr rfl, rfl, rfl⟩
    | false =>
      obtain ⟨hstop, hmark⟩ := head_fractionText n hrest
      have hmoment :=
        moment_none h.whole.digit hstop (hmark '-' (by decide)) (hmark ':' (by decide))
      obtain ⟨c, tail, hwhole⟩ := List.exists_cons_of_ne_nil h.whole.nonempty
      have htext : n.text ++ rest = c :: (tail ++ (Numeral.fractionText n.fraction ++
          (Numeral.exponentText n.exponent ++ rest))) := by
        simp [Numeral.text, hwhole]
      refine ⟨c, _, Or.inl (h.whole.digit c (by simp [hwhole])), htext, ?_⟩
      rwa [hwhole] at hmoment
  rw [htext] at hfloat ⊢
  rw [scalar_of_number times hc hmoment, orElse_apply, map_apply, hfloat]
  rfl

/-! ## Numbers as values -/

theorem value_of_number {c : Char} (hc : c.isDigit = true ∨ c = '-') (s : List Char) :
    value times levels (c :: s) = scalar times (c :: s) := by
  rw [levels, value, bind_apply, peek_apply, Option.bind_some]
  dsimp only
  generalize ho : (c :: s).head? = o
  split
  next => exact absurd ho (head?_ne_of_number hc s rfl (by decide))
  next => exact absurd ho (head?_ne_of_number hc s rfl (by decide))
  next => rfl

theorem isGap_of_number {c : Char} (hc : c.isDigit = true ∨ c = '-') : isGap c = false := by
  rw [isGap, Bool.or_eq_false_iff, beq_eq_false_iff_ne, beq_eq_false_iff_ne]
  constructor <;> rintro rfl <;> simp at hc

/-- A number that starts with a digit or a minus and is read up to the end of its line is a value.
-/
theorem Writes.of_scalar {text : List Char} {v : Value}
    (hhead : ∃ c tail, text = c :: tail ∧ (c.isDigit = true ∨ c = '-'))
    (hscalar : ∀ times rest, text.length ≤ times →
      scalar times (text ++ '\n' :: rest) = some (v, '\n' :: rest)) : Writes text v := by
  obtain ⟨c, tail, rfl, hc⟩ := hhead
  refine ⟨⟨c, tail, rfl, isGap_of_number hc⟩, fun times rest htimes => ?_⟩
  rw [List.cons_append, value_of_number hc]
  exact hscalar times rest htimes

theorem writes_toDigits {n : Nat} (hn : n < 2 ^ 63) : Writes (Nat.toDigits 10 n) (.int n) := by
  refine .of_scalar ?_ fun times rest htimes => scalar_toDigits hn (ends_newline rest) htimes
  obtain ⟨c, tail, hdigits⟩ := List.exists_cons_of_ne_nil (Nat.toDigits_ne_nil (n := n) (b := 10))
  exact ⟨c, tail, hdigits, Or.inl (isDigit_toDigits c (by rw [hdigits]; exact List.mem_cons_self))⟩

theorem writes_literal {l : Literal}
    (hparts : l.numeral.fraction.isSome ∨ l.numeral.exponent.isSome)
    (hfinite : l.value.isFinite = true) : Writes l.text.toList (.float l.value) := by
  refine .of_scalar ?_ fun times rest htimes =>
    scalar_literal hparts hfinite (ends_newline rest) (by rwa [String.length_toList] at htimes)
  obtain ⟨c, tail, hc, htext | htext⟩ := l.head_text
  · exact ⟨c, tail, htext, Or.inl hc⟩
  · exact ⟨'-', c :: tail, htext, Or.inr rfl⟩

/-! ## Floats with a point -/

/-- A zero keeps its sign. -/
theorem exists_literal_zero (negative : Bool) : ∃ l : Literal,
    l.text = (if negative then "-" else "") ++ "0.0" ∧
      (l.numeral.fraction.isSome ∨ l.numeral.exponent.isSome) ∧
      Binary.ofFloat l.value = .finite negative 0 (-1074) := by
  have hwell : Numeral.WellFormed ⟨['0'], some ['0'], none⟩ :=
    ⟨⟨by simp, by simp⟩, by simp, by simp [Numeral.IsRun.mk], by simp⟩
  have hzero : (Numeral.decimal ⟨['0'], some ['0'], none⟩).toFloat = 0.0 := if_pos rfl
  refine ⟨⟨negative, _, hwell⟩, ?_, Or.inl rfl, ?_⟩
  · rw [← String.toList_inj, Literal.text, String.toList_ofList, String.toList_append]
    cases negative <;> rfl
  · have hsigned :
        Binary.ofFloat (if negative then -0.0 else 0.0) = .finite negative 0 (-1074) := by
      cases negative <;> decide
    dsimp only [Literal.value]
    rwa [hzero]

/-- A float that is written with a point is a literal for it, bit by bit. -/
theorem exists_literal_pointed {x : Float} (hx : x.isFinite = true) : ∃ l : Literal,
    l.text = Layout.pointedPlain.render x ∧
      (l.numeral.fraction.isSome ∨ l.numeral.exponent.isSome) ∧ l.value = x := by
  obtain ⟨negative, m, q, hparts⟩ := exists_ofFloat hx
  obtain ⟨hbits, hlow, hfull⟩ := Binary64.canonical_ofBits hparts
  have hrender : Layout.pointedPlain.render x =
      (if negative then "-" else "") ++ Layout.pointedPlain.magnitude m q := by
    rw [Layout.render, hparts]
  rw [hrender]
  rcases Nat.eq_zero_or_pos m with rfl | hpos
  · obtain rfl : q = -1074 := hfull.resolve_right (by decide)
    obtain ⟨l, htext, hpoint, hvalue⟩ := exists_literal_zero negative
    exact ⟨l, htext, hpoint, Binary64.eq_of_ofFloat hvalue hparts⟩
  · have hm := Nat.ne_of_gt hpos
    obtain ⟨hholds, hdigits, -⟩ := Shortest.shortest_spec .up hm hbits hlow (le_of_ofBits hparts)
    have hmagnitude : Layout.pointedPlain.magnitude m q = (shortest .up m q).positional true :=
      if_neg hm
    rw [hmagnitude]
    generalize shortest .up m q = d at hholds hdigits
    -- a whole number is written with its zeros, which changes the digits but not the value
    obtain ⟨n, hn⟩ := exists_writes_positional hdigits
    have hsame : n.decimal.digits ≠ 0 ∧ n.decimal.value = d.value := by
      rw [hn.decimal]
      split
      next hexponent =>
        exact ⟨Nat.mul_ne_zero hdigits (Nat.pow_pos (by decide)).ne', value_zeros hexponent⟩
      next => exact ⟨hdigits, rfl⟩
    refine ⟨⟨negative, n, hn.wellFormed⟩, ?_, hn.parts,
      Literal.value_eq hparts hm hn.wellFormed hsame.1 (hsame.2 ▸ hholds)⟩
    rw [← String.toList_inj, Literal.text, String.toList_ofList, String.toList_append, hn.text]
    cases negative <;> rfl

end Patchbay.Toml.Reader
