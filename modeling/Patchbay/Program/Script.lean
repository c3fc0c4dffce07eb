import Patchbay.Json.Printer
import Patchbay.Scalar
/-!
# Scripts

Generated programs as trees of statements and expressions of the script language, and their text.
Only a `name` is looked up in a scope; the fields of objects, keys and operators are not names.

A program is a list of paragraphs with a blank line between two of them. Statements inside braces
are indented by two blanks.
-/

namespace Patchbay.Script

inductive Expr (α : Type) where
  | name (x : String)
  | number (x : α)
  | text (s : String)
  | bool (b : Bool)
  | member (object : Expr α) (field : String)
  | item (object index : Expr α)
  | call (callee : Expr α) (arguments : List (Expr α))
  | construct (type : String) (arguments : List (Expr α))
  | list (items : List (Expr α))
  | record (fields : List (String × Expr α))
  /-- A record whose fields have the names of the variables that they are set to. -/
  | bundle (names : List String)
  | binary (operator : String) (left right : Expr α)
  | negated (e : Expr α)
  | paren (e : Expr α)

inductive Stmt (α : Type) where
  | comment (text : String)
  | const (name : String) (value : Expr α)
  | variables (bindings : List (String × Expr α))
  /-- Sets a place by `=` or by an operator such as `+=`. -/
  | assign (operator : String) (target value : Expr α)
  | run (e : Expr α)
  | result (e : Expr α)
  | skip
  | function (name : String) (parameters : List String) (body : List (Stmt α))
  /-- Goes through the items of a list; several names take an item apart. -/
  | forItems (names : List String) (source : Expr α) (braced : Bool) (body : List (Stmt α))
  | forKeys (name : String) (source : Expr α) (body : List (Stmt α))
  /-- Counts a variable up or down as long as a condition holds. -/
  | forCount (name : String) (start condition : Expr α) (step : String) (braced : Bool)
      (body : List (Stmt α))
  /-- A condition with one statement behind it. -/
  | guard (condition : Expr α) (body : Stmt α)
  /-- The first case whose condition holds, or the last part. -/
  | cases (first : Expr α) (body : List (Stmt α)) (rest : List (Expr α × List (Stmt α)))
      (last : List (Stmt α))
  /-- Answers an event. -/
  | listen (event parameter : String) (body : List (Stmt α))
  /-- Makes variables known outside the program. -/
  | offer (names : List String)

/-! ## Text -/

/-- The literal of a number: a whole number below `10¹⁵` has neither fraction nor sign of zero. -/
def numberText (x : Float) : String :=
  match Number.wholeValue? x with
  | some n => if n.natAbs < Nat.pow 10 15 then toString n else Number.plainText x
  | none => Number.plainText x

def commaSeparated (texts : List String) : String := String.intercalate ", " texts

mutual

def Expr.toText {α : Type} [Scalar α] : Expr α → String
  | .name x => x
  | .number x => numberText (Scalar.toFloat x)
  | .text s => Json.quoted s
  | .bool b => if b then "true" else "false"
  | .member e field => e.toText ++ "." ++ field
  | .item e index => e.toText ++ "[" ++ index.toText ++ "]"
  | .call f arguments => f.toText ++ "(" ++ commaSeparated (textsOf arguments) ++ ")"
  | .construct type arguments =>
    "new " ++ type ++ "(" ++ commaSeparated (textsOf arguments) ++ ")"
  | .list items => "[" ++ commaSeparated (textsOf items) ++ "]"
  | .record [] => "\x7b\x7d"
  | .record fields => "\x7b " ++ commaSeparated (fieldTexts fields) ++ " \x7d"
  | .bundle names => "\x7b " ++ commaSeparated names ++ " \x7d"
  | .binary operator left right => left.toText ++ " " ++ operator ++ " " ++ right.toText
  | .negated e => "!" ++ e.toText
  | .paren e => "(" ++ e.toText ++ ")"

def textsOf {α : Type} [Scalar α] : List (Expr α) → List String
  | [] => []
  | e :: rest => e.toText :: textsOf rest

def fieldTexts {α : Type} [Scalar α] : List (String × Expr α) → List String
  | [] => []
  | (name, e) :: rest => (name ++ ": " ++ e.toText) :: fieldTexts rest

end

/-- Lines inside braces, between an opening and a closing line. -/
def braces (opening : String) (body : List String) (closing : String) : List String :=
  (opening ++ " \x7b") :: body.map ("  " ++ ·) ++ ["\x7d" ++ closing]

/-- Puts a head before the lines of a body, on the same line. -/
def behind (head : String) : List String → List String
  | [] => [head]
  | line :: rest => (head ++ " " ++ line) :: rest

/-- A head with its body, braced or on the same line. -/
def headed (head : String) (braced : Bool) (body : List String) : List String :=
  if braced then braces head body "" else behind head body

def itemNames : List String → String
  | [x] => x
  | xs => "[" ++ commaSeparated xs ++ "]"

mutual

def Stmt.lines {α : Type} [Scalar α] : Stmt α → List String
  | .comment text => ["// " ++ text]
  | .const name value => ["const " ++ name ++ " = " ++ value.toText ++ ";"]
  | .variables bindings =>
    ["let " ++ commaSeparated (bindings.map fun (x, e) => x ++ " = " ++ e.toText) ++ ";"]
  | .assign operator target value =>
    [target.toText ++ " " ++ operator ++ " " ++ value.toText ++ ";"]
  | .run e => [e.toText ++ ";"]
  | .result e => ["return " ++ e.toText ++ ";"]
  | .skip => ["continue;"]
  | .function name parameters body =>
    braces ("function " ++ name ++ "(" ++ commaSeparated parameters ++ ")") (linesOf body) ""
  | .forItems names source braced body =>
    headed ("for (const " ++ itemNames names ++ " of " ++ source.toText ++ ")") braced
      (linesOf body)
  | .forKeys name source body =>
    headed ("for (const " ++ name ++ " in " ++ source.toText ++ ")") true (linesOf body)
  | .forCount name start condition step braced body =>
    headed ("for (let " ++ name ++ " = " ++ start.toText ++ "; " ++ condition.toText ++ "; " ++
      name ++ step ++ ")") braced (linesOf body)
  | .guard condition body => behind ("if (" ++ condition.toText ++ ")") body.lines
  | .cases first body rest last =>
    ("if (" ++ first.toText ++ ") \x7b") :: (linesOf body).map ("  " ++ ·) ++ casesLines rest ++
      (if last.isEmpty then [] else "\x7d else \x7b" :: (linesOf last).map ("  " ++ ·)) ++ ["\x7d"]
  | .listen event parameter body =>
    braces ("window.addEventListener(" ++ Json.quoted event ++ ", (" ++ parameter ++ ") =>")
      (linesOf body) ");"
  | .offer names => ["export \x7b " ++ commaSeparated names ++ " \x7d;"]

def linesOf {α : Type} [Scalar α] : List (Stmt α) → List String
  | [] => []
  | s :: rest => s.lines ++ linesOf rest

def casesLines {α : Type} [Scalar α] : List (Expr α × List (Stmt α)) → List String
  | [] => []
  | (condition, body) :: rest =>
    ("\x7d else if (" ++ condition.toText ++ ") \x7b") :: (linesOf body).map ("  " ++ ·) ++
      casesLines rest

end

/-- A script: paragraphs of statements. -/
abbrev Paragraphs (α : Type) := List (List (Stmt α))

/-- The text of a script; every line ends with a line break. -/
def toText {α : Type} [Scalar α] (paragraphs : Paragraphs α) : String :=
  "\n".intercalate <| paragraphs.map fun p => String.join ((linesOf p).map (· ++ "\n"))

/-! ## Writing expressions -/

namespace Expr

variable {α : Type}

/-- The method of an object, called. -/
def send (object : Expr α) (method : String) (arguments : List (Expr α)) : Expr α :=
  .call (.member object method) arguments

/-- A function called by its name. -/
def apply (function : String) (arguments : List (Expr α)) : Expr α :=
  .call (.name function) arguments

def times (a b : Expr α) : Expr α := .binary "*" a b

def plus (a b : Expr α) : Expr α := .binary "+" a b

def minus (a b : Expr α) : Expr α := .binary "-" a b

def lessThan (a b : Expr α) : Expr α := .binary "<" a b

end Expr

namespace Stmt

variable {α : Type}

def set (target value : Expr α) : Stmt α := .assign "=" target value

/-- Sets the value of a parameter of an audio object. -/
def setValue (param value : Expr α) : Stmt α := .set (.member param "value") value

end Stmt

end Patchbay.Script
