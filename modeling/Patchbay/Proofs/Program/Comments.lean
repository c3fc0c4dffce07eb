import Mathlib.Data.List.Forall2
import Patchbay.Program.Script
/-!
# Line comments

What is left of the text of a program without its line comments (`Script.eraseComments`). A comment
runs from `//` to the next end of a line, of which the script language knows four; only two of them
are escaped in a quoted text.

A comment of one line leaves nothing but the end of its line (`leaves_comment`), and every line ends
outside of comments and texts (`erase_newline`). So two programs that differ in comments of one line
only are the same without comments (`eraseComments_eq`).
-/

namespace Patchbay.Script

/-! ## Erasing -/

/-- The characters at which a line of a script ends. -/
def isLineEnd (c : Char) : Bool := c = '\n' || c = '\r' || c = '\u2028' || c = '\u2029'

/-- A text of a single line. -/
def OneLine (s : String) : Prop := s.toList.any isLineEnd = false

/-- What is read. The only literals of texts in programs are those between double quotes. -/
inductive Mode where
  | code
  | comment
  | text
  /-- In a text, behind a backslash. -/
  | escaped
deriving DecidableEq

/-- What is read behind a character outside of comments. A text ends at its quote, and with its line
at the latest. -/
def Mode.next : Mode → Char → Mode
  | .text, '"' => .code
  | .text, '\\' => .escaped
  | .code, '"' => .text
  | .code, _ => .code
  | _, c => if c = '\n' || c = '\r' then .code else .text

/-- The characters outside of comments. The end of the line is not part of a comment. -/
def erase : Mode → List Char → List Char
  | _, [] => []
  | .comment, c :: rest => if isLineEnd c then c :: erase .code rest else erase .comment rest
  | .code, '/' :: '/' :: rest => erase .comment rest
  | mode, c :: rest => c :: erase (mode.next c) rest

/-- A text without its line comments. -/
def eraseComments (s : String) : String := String.ofList (erase .code s.toList)

/-! ## Lines -/

/-- Outside of comments a character is kept, unless a comment starts with it. -/
theorem erase_cons {mode : Mode} (hmode : mode ≠ .comment) {c : Char} {rest : List Char}
    (h : ¬(mode = .code ∧ c = '/' ∧ rest.head? = some '/')) :
    erase mode (c :: rest) = c :: erase (mode.next c) rest := by
  cases mode with
  | comment => exact absurd rfl hmode
  | text => rw [erase] <;> simp
  | escaped => rw [erase] <;> simp
  | code =>
    rw [erase]
    · simp
    · rintro rest' - rfl rfl
      exact h ⟨rfl, rfl, rfl⟩

/-- The end of a line ends comments and texts. -/
theorem next_newline {mode : Mode} : mode.next '\n' = .code := by
  cases mode <;> rfl

/-- What follows a line is read as code, however the line was read. -/
theorem erase_newline (mode : Mode) (xs rest : List Char) :
    erase mode (xs ++ '\n' :: rest) = erase mode (xs ++ ['\n']) ++ erase .code rest := by
  fun_induction erase mode xs with
  | case1 mode =>
    -- the end of the line itself
    by_cases hmode : mode = .comment
    · subst hmode
      rfl
    · have hnot : ∀ l : List Char, ¬(mode = .code ∧ '\n' = '/' ∧ l.head? = some '/') :=
        fun l h => absurd h.2.1 (by decide)
      rw [List.nil_append, List.nil_append, erase_cons hmode (hnot rest),
        erase_cons hmode (hnot []), next_newline]
      rfl
  | case2 c xs hend ih =>
    rw [List.cons_append, List.cons_append, erase, erase, if_pos hend, if_pos hend, ih]
    rfl
  | case3 c xs hend ih =>
    rw [List.cons_append, List.cons_append, erase, erase, if_neg hend, if_neg hend, ih]
  | case4 xs ih =>
    show erase .comment (xs ++ '\n' :: rest) = erase .comment (xs ++ ['\n']) ++ _
    exact ih
  | case5 mode c xs hmode hslash ih =>
    have hcomment : mode ≠ .comment := fun h => hmode h
    -- the next character is that of the line, or its end
    have hnot : ∀ l : List Char,
        ¬(mode = .code ∧ c = '/' ∧ (xs ++ '\n' :: l).head? = some '/') := by
      rintro l ⟨rfl, rfl, hhead⟩
      cases xs with
      | nil => cases hhead
      | cons d xs =>
        obtain rfl : d = '/' := Option.some.inj hhead
        exact hslash _ rfl rfl rfl
    rw [List.cons_append, List.cons_append, erase_cons hcomment (hnot rest),
      erase_cons hcomment (hnot []), ih]
    rfl

/-- A comment of one line is erased up to the end of its line. -/
theorem erase_comment {xs : List Char} (h : xs.any isLineEnd = false) (rest : List Char) :
    erase .comment (xs ++ '\n' :: rest) = '\n' :: erase .code rest := by
  induction xs with
  | nil => rfl
  | cons c xs ih =>
    rw [List.any_cons, Bool.or_eq_false_iff] at h
    rw [List.cons_append, erase, if_neg (Bool.not_eq_true _ ▸ h.1)]
    exact ih h.2

/-! ## Passages -/

/-- A passage that starts and ends outside of comments and texts, and what is left of it. -/
def Leaves (xs left : List Char) : Prop :=
  ∀ rest, erase .code (xs ++ rest) = left ++ erase .code rest

theorem leaves_nil : Leaves [] [] := fun _ => rfl

theorem Leaves.append {xs ys left left' : List Char} (h : Leaves xs left) (h' : Leaves ys left') :
    Leaves (xs ++ ys) (left ++ left') := by
  intro rest
  rw [List.append_assoc, h, h', List.append_assoc]

/-- A line, with its end. -/
theorem leaves_line (xs : List Char) : Leaves (xs ++ ['\n']) (erase .code (xs ++ ['\n'])) := by
  intro rest
  rw [List.append_assoc]
  exact erase_newline .code xs rest

/-- A comment of one line leaves the end of its line. -/
theorem leaves_comment {text : String} (h : OneLine text) :
    Leaves (("// " ++ text).toList ++ ['\n']) ['\n'] := by
  intro rest
  have hline : (' ' :: text.toList).any isLineEnd = false := by
    rw [List.any_cons, h]
    rfl
  rw [String.toList_append, List.append_assoc]
  exact erase_comment hline rest

/-- Two passages of which the same is left. -/
def SameCode (xs ys : List Char) : Prop := ∃ left, Leaves xs left ∧ Leaves ys left

theorem sameCode_nil : SameCode [] [] := ⟨[], leaves_nil, leaves_nil⟩

theorem sameCode_line (xs : List Char) : SameCode (xs ++ ['\n']) (xs ++ ['\n']) :=
  ⟨_, leaves_line xs, leaves_line xs⟩

theorem SameCode.append {xs ys xs' ys' : List Char} (h : SameCode xs ys) (h' : SameCode xs' ys') :
    SameCode (xs ++ xs') (ys ++ ys') := by
  obtain ⟨left, hx, hy⟩ := h
  obtain ⟨left', hx', hy'⟩ := h'
  exact ⟨left ++ left', hx.append hx', hy.append hy'⟩

theorem SameCode.erase_eq {xs ys : List Char} (h : SameCode xs ys) :
    erase .code xs = erase .code ys := by
  obtain ⟨left, hx, hy⟩ := h
  have hxs := hx []
  have hys := hy []
  rw [List.append_nil] at hxs hys
  rw [hxs, hys]

/-! ## Statements -/

variable {α : Type}

/-- One statement, or two comments that are both allowed. -/
inductive Stmt.Agree (allowed : String → Prop) : Stmt α → Stmt α → Prop
  | same (s : Stmt α) : Agree allowed s s
  | comment {t t' : String} : allowed t → allowed t' → Agree allowed (.comment t) (.comment t')

/-- Scripts that agree statement by statement. -/
def Paragraphs.Agree (allowed : String → Prop) (p p' : Paragraphs α) : Prop :=
  List.Forall₂ (List.Forall₂ (Stmt.Agree allowed)) p p'

/-- Statements agree with themselves. -/
theorem agree_refl (allowed : String → Prop) (l : List (Stmt α)) :
    List.Forall₂ (Stmt.Agree allowed) l l :=
  List.forall₂_same.mpr fun s _ => .same s

variable [Scalar α]

/-- The lines of statements, each with its end. -/
def charsOf (l : List (Stmt α)) : List Char := (linesOf l).flatMap fun line => line.toList ++ ['\n']

theorem charsOf_cons (s : Stmt α) (l : List (Stmt α)) :
    charsOf (s :: l) = (s.lines.flatMap fun line => line.toList ++ ['\n']) ++ charsOf l := by
  rw [charsOf, linesOf, List.flatMap_append, charsOf]

theorem toList_toText (p : Paragraphs α) :
    (toText p).toList = ['\n'].intercalate (p.map charsOf) := by
  rw [toText, String.toList_intercalate, List.map_map]
  congr 1
  refine List.map_congr_left fun l _ => ?_
  simp [charsOf, String.toList_join, List.flatMap_map]

theorem sameCode_lines (lines : List String) :
    SameCode (lines.flatMap fun line => line.toList ++ ['\n'])
      (lines.flatMap fun line => line.toList ++ ['\n']) := by
  induction lines with
  | nil => exact sameCode_nil
  | cons line lines ih => exact (sameCode_line line.toList).append ih

theorem sameCode_charsOf {l l' : List (Stmt α)} (h : List.Forall₂ (Stmt.Agree OneLine) l l') :
    SameCode (charsOf l) (charsOf l') := by
  induction h with
  | nil => exact sameCode_nil
  | cons hs _ ih =>
    rw [charsOf_cons, charsOf_cons]
    refine SameCode.append ?_ ih
    cases hs with
    | same => exact sameCode_lines _
    | comment ht ht' =>
      have hleaves := leaves_comment ht
      have hleaves' := leaves_comment ht'
      exact ⟨_, hleaves.append leaves_nil, hleaves'.append leaves_nil⟩

/-- Scripts that differ in comments of one line only are the same without comments. -/
theorem eraseComments_eq {p p' : Paragraphs α} (h : p.Agree OneLine p') :
    eraseComments (toText p) = eraseComments (toText p') := by
  have hsame : SameCode (['\n'].intercalate (p.map charsOf))
      (['\n'].intercalate (p'.map charsOf)) := by
    unfold Paragraphs.Agree at h
    induction h with
    | nil => exact sameCode_nil
    | cons hl hrest ih =>
      cases hrest with
      | nil => simpa using sameCode_charsOf hl
      | cons hl' hrest =>
        rw [List.map_cons, List.map_cons, List.map_cons, List.map_cons,
          List.intercalate_cons_cons, List.intercalate_cons_cons]
        exact ((sameCode_charsOf hl).append (sameCode_line [])).append ih
  rw [eraseComments, eraseComments, toList_toText, toList_toText, hsame.erase_eq]

end Patchbay.Script
