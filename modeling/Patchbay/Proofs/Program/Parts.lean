import Mathlib.Tactic.Tauto
import Patchbay.Program.Script
/-!
# Parts of programs

The statements that a statement holds in its bodies (`Stmt.bodies`), and the expressions that it
holds besides these (`Stmt.exprs`). All that a program says is in the expressions of the statements
within it (`within`), such as the numbers that it writes (`numbersIn`).
-/

namespace Patchbay.Script

variable {α : Type}

/-! ## Statements -/

mutual

/-- The bodies in a statement, those in its bodies included. -/
@[simp]
def Stmt.bodies : Stmt α → List (List (Stmt α))
  | .function _ _ body | .forItems _ _ _ body | .forKeys _ _ body | .forCount _ _ _ _ _ body
  | .listen _ _ body => body :: bodiesIn body
  | .guard _ s => [s] :: s.bodies
  | .cases _ body rest last => body :: bodiesIn body ++ bodiesInCases rest ++ last :: bodiesIn last
  | .comment _ | .const .. | .variables _ | .assign .. | .run _ | .result _ | .skip | .offer _ => []

@[simp]
def bodiesIn : List (Stmt α) → List (List (Stmt α))
  | [] => []
  | s :: rest => s.bodies ++ bodiesIn rest

@[simp]
def bodiesInCases : List (Expr α × List (Stmt α)) → List (List (Stmt α))
  | [] => []
  | (_, body) :: rest => body :: bodiesIn body ++ bodiesInCases rest

end

/-- The expressions of a statement that are not part of its bodies. -/
@[simp]
def Stmt.exprs : Stmt α → List (Expr α)
  | .const _ e | .run e | .result e => [e]
  | .variables bindings => bindings.map (·.2)
  | .assign _ target value => [target, value]
  | .forItems _ source _ _ | .forKeys _ source _ => [source]
  | .forCount _ start condition _ _ _ => [start, condition]
  | .guard condition _ => [condition]
  | .cases first _ rest _ => first :: rest.map (·.1)
  | .comment _ | .skip | .function .. | .listen .. | .offer _ => []

theorem bodiesIn_append (l l' : List (Stmt α)) :
    bodiesIn (l ++ l') = bodiesIn l ++ bodiesIn l' := by
  induction l with
  | nil => rfl
  | cons s l ih => rw [List.cons_append, bodiesIn, bodiesIn, ih, List.append_assoc]

/-- All statements among others, those in bodies included. -/
def within (l : List (Stmt α)) : List (Stmt α) := l ++ (bodiesIn l).flatten

theorem mem_within_append {l l' : List (Stmt α)} {s : Stmt α} :
    s ∈ within (l ++ l') ↔ s ∈ within l ∨ s ∈ within l' := by
  simp only [within, bodiesIn_append, List.flatten_append, List.mem_append]
  tauto

/-! ## Numbers -/

mutual

/-- The numbers that an expression writes. -/
@[simp]
def Expr.numbers : Expr α → List α
  | .number x => [x]
  | .name _ | .text _ | .bool _ | .bundle _ => []
  | .member e _ | .negated e | .paren e => e.numbers
  | .item e e' | .binary _ e e' => e.numbers ++ e'.numbers
  | .call e arguments => e.numbers ++ numbersOf arguments
  | .construct _ arguments | .list arguments => numbersOf arguments
  | .record fields => numbersOfRecord fields

@[simp]
def numbersOf : List (Expr α) → List α
  | [] => []
  | e :: rest => e.numbers ++ numbersOf rest

@[simp]
def numbersOfRecord : List (String × Expr α) → List α
  | [] => []
  | (_, e) :: rest => e.numbers ++ numbersOfRecord rest

end

/-- The numbers that statements write. -/
def numbersIn (l : List (Stmt α)) : List α :=
  (within l).flatMap fun s => s.exprs.flatMap Expr.numbers

theorem mem_numbersIn_append {l l' : List (Stmt α)} {x : α} :
    x ∈ numbersIn (l ++ l') ↔ x ∈ numbersIn l ∨ x ∈ numbersIn l' := by
  simp only [numbersIn, List.mem_flatMap, mem_within_append, or_and_right, exists_or]

theorem mem_numbersIn_flatten {l : Paragraphs α} {x : α} :
    x ∈ numbersIn l.flatten ↔ ∃ p ∈ l, x ∈ numbersIn p := by
  induction l with
  | nil => simp [numbersIn, within]
  | cons p l ih => simp [mem_numbersIn_append, ih]

theorem mem_numbersIn {l : List (Stmt α)} {x : α} :
    x ∈ numbersIn l ↔ ∃ s ∈ l, x ∈ numbersIn [s] := by
  induction l with
  | nil => simp [numbersIn, within]
  | cons s l ih => rw [← List.singleton_append, mem_numbersIn_append, ih]; simp

end Patchbay.Script
