import Mathlib.Data.List.Forall2
import Mathlib.Tactic.IntervalCases
import Patchbay.Json.Outline
import Patchbay.Json.Printer
/-!
# Quoted texts read back

Reading undoes quoting, whatever characters a text holds (`readText_quoted`). A character is written
as itself, as a letter after a backslash or as four hexadecimal digits, and is read as a piece that
stands for it (`Piece.StandsFor`). Only control characters are written in digits, and none of them
is half of a surrogate pair, so pairing leaves every piece what it is (`pairUnits_eq`).
-/

namespace Patchbay.Json

/-- The character that a piece is read from. -/
inductive Piece.StandsFor : Piece → Char → Prop
  | plain (c : Char) : StandsFor (.plain c) c
  | unit {c : Char} : c.toNat < 0x20 → StandsFor (.unit c.toNat) c

/-! ## One character -/

/-- The digits of a control character's escape are read as its number. -/
theorem exists_controlEscape {n : Nat} (hn : n < 0x20) : ∃ a b c d,
    (controlEscape n).toList = ['\\', 'u', a, b, c, d] ∧ hexUnit? a b c d = some n := by
  have hlist : (controlEscape n).toList = '\\' :: 'u' ::
      (List.replicate (4 - (Nat.toDigits 16 n).length) '0' ++ Nat.toDigits 16 n) := by
    simp [controlEscape]
  have hdigits : ∀ n < 0x20, ∃ a b c d,
      List.replicate (4 - (Nat.toDigits 16 n).length) '0' ++ Nat.toDigits 16 n = [a, b, c, d] ∧
        hexUnit? a b c d = some n := by
    intro n hn
    interval_cases n <;> exact ⟨_, _, _, _, rfl, rfl⟩
  obtain ⟨a, b, c, d, hread, hvalue⟩ := hdigits n hn
  exact ⟨a, b, c, d, by rw [hlist, hread], hvalue⟩

/-- What a character is written as is read as one piece. -/
theorem readPieces_escapedChar (c : Char) : ∃ piece : Piece, piece.StandsFor c ∧
    ∀ pieces rest, readPieces pieces ((escapedChar c).toList ++ rest) =
      readPieces (piece :: pieces) rest := by
  unfold escapedChar
  split
  case h_8 hquote hslash _ _ _ _ _ =>
    split
    next hcontrol =>
      obtain ⟨a, b, c', d, hlist, hvalue⟩ := exists_controlEscape hcontrol
      refine ⟨.unit c.toNat, .unit hcontrol, fun pieces rest => ?_⟩
      rw [hlist]
      show readPieces pieces ('\\' :: 'u' :: a :: b :: c' :: d :: rest) = _
      rw [readPieces, hvalue]
    next hcontrol =>
      refine ⟨.plain c, .plain c, fun pieces rest => ?_⟩
      rw [String.toList_singleton]
      show readPieces pieces (c :: rest) = _
      rw [readPieces, if_neg hcontrol]
      · exact fun h => hquote h
      all_goals intros; exact absurd ‹_› hslash
  all_goals exact ⟨.plain _, .plain _, fun _ _ => rfl⟩

/-! ## A whole text -/

/-- Each character of a text is read as a piece that stands for it. -/
theorem readPieces_escaped (chars : List Char) {read : List Char} {pieces : List Piece}
    (h : List.Forall₂ Piece.StandsFor pieces read) (rest : List Char) :
    ∃ pieces', List.Forall₂ Piece.StandsFor pieces' (chars.reverse ++ read) ∧
      readPieces pieces ((chars.flatMap fun c => (escapedChar c).toList) ++ '"' :: rest) =
        some (pieces', rest) := by
  induction chars generalizing read pieces with
  | nil => exact ⟨pieces, h, rfl⟩
  | cons c chars ih =>
    obtain ⟨piece, hpiece, hread⟩ := readPieces_escapedChar c
    obtain ⟨pieces', hpieces, hrest⟩ := ih (.cons hpiece h)
    refine ⟨pieces', ?_, ?_⟩
    · rwa [List.reverse_cons, List.append_assoc, List.singleton_append]
    · rw [List.flatMap_cons, List.append_assoc, hread, hrest]

/-- Pieces that stand for characters are no surrogates. -/
theorem pairUnits_eq {pieces : List Piece} {chars : List Char}
    (h : List.Forall₂ Piece.StandsFor pieces chars) (after : List Char) :
    pairUnits after pieces = some (chars.reverse ++ after) := by
  induction h generalizing after with
  | nil => rfl
  | @cons piece c pieces chars hpiece hrest ih =>
    rw [List.reverse_cons, List.append_assoc, List.singleton_append, ← ih]
    cases hpiece with
    | plain => rw [pairUnits]
    | unit hcontrol =>
      have hlow : isLowSurrogate c.toNat = false := by
        simp only [isLowSurrogate, Bool.and_eq_false_iff, decide_eq_false_iff_not]
        omega
      have hhigh : isHighSurrogate c.toNat = false := by
        simp only [isHighSurrogate, Bool.and_eq_false_iff, decide_eq_false_iff_not]
        omega
      -- a piece before it that is written in digits too might have been the first half of a pair
      cases hrest with
      | nil => simp [pairUnits, hlow, hhigh]
      | cons hnext _ => cases hnext <;> simp [pairUnits, hlow, hhigh]

/-- A text is read as it was written. -/
theorem readText_quoted (s : String) : ∃ chars, (quoted s).toList = '"' :: chars ∧
    ∀ rest, readText (chars ++ rest) = some (some s, rest) := by
  refine ⟨(s.toList.flatMap fun c => (escapedChar c).toList) ++ ['"'], ?_, fun rest => ?_⟩
  · simp [quoted, List.flatMap_map]
  · obtain ⟨pieces, hpieces, hread⟩ := readPieces_escaped s.toList .nil rest
    rw [List.append_assoc, List.singleton_append, readText, hread]
    simp [pairUnits_eq hpieces]

end Patchbay.Json
