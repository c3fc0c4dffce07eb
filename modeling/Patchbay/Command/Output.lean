import Patchbay.Store.Library
/-!
# Output of commands

A command writes lines and either succeeds or fails with a message and what lies behind it.
-/

namespace Patchbay.Command

/-- Why a command fails: a message, and the messages of what lies behind it, the nearest first. -/
structure Failure where
  message : String
  causes : List String := []
deriving DecidableEq, Repr

namespace Failure

/-- A cause with a mark in front of its first line, all other lines being indented alike. -/
def indented (mark : String) (cause : String) : String :=
  let indent := String.ofList (List.replicate mark.length ' ')
  mark ++ ("\n" ++ indent).intercalate (cause.splitOn "\n")

/-- The text of a failure. Several causes are numbered. -/
def text (f : Failure) : String :=
  let causes := match f.causes with
    | [] => []
    | [cause] => [indented "    " cause]
    | causes => causes.zipIdx.map fun (cause, n) =>
        let number := toString n
        indented (String.ofList (List.replicate (5 - number.length) ' ') ++ number ++ ": ") cause
  "Error: " ++ f.message ++
    (if causes.isEmpty then "" else "\n\nCaused by:\n" ++ "\n".intercalate causes)

/-- A failure behind another message. -/
def behind (f : Failure) (message : String) : Failure := ⟨message, f.message :: f.causes⟩

def ofFault (f : Library.Fault) : Failure := ⟨f.message, f.causes⟩

end Failure

/-- What a command has done: its exit code, what it has written, and the failure, if any. -/
structure Outcome where
  exit : Nat
  output : String
  error : Option String
deriving DecidableEq, Repr

/-- A running command: it writes lines, uses files and can fail. -/
abbrev Action (m : Type → Type) := ExceptT Failure (StateT String m)

namespace Action

variable {m : Type → Type} [Monad m]

/-- Writes a text as it is. -/
def write (text : String) : Action m Unit := modify (· ++ text)

/-- Writes a line. -/
def say (line : String) : Action m Unit := write (line ++ "\n")

def sayAll (lines : List String) : Action m Unit := lines.forM say

def fail {β : Type} (message : String) : Action m β := throw ⟨message, []⟩

/-- The result of an operation, or a failure. -/
def orFail {β ε : Type} (failure : ε → Failure) (operation : m (Except ε β)) : Action m β := do
  match ← operation with
  | .ok b => return b
  | .error e => throw (failure e)

/-- Runs a command. -/
def outcome (action : Action m Unit) : m Outcome := do
  let (result, output) ← action.run.run ""
  match result with
  | .ok () => return ⟨0, output, none⟩
  | .error failure => return ⟨1, output, some failure.text⟩

end Action

/-! ## Columns -/

def blanks (n : Nat) : String := String.ofList (List.replicate n ' ')

/-- A text filled up at its end to a width. -/
def left (width : Nat) (text : String) : String := text ++ blanks (width - text.length)

/-- A text filled up at its front to a width. -/
def right (width : Nat) (text : String) : String := blanks (width - text.length) ++ text

def underline (length : Nat) : String := String.ofList (List.replicate length '=')

/-- The names of families with their numbers, one to a line. -/
def countLines (counts : List (String × Nat)) : List String :=
  counts.map fun (name, n) => "  " ++ left 20 name ++ " " ++ toString n

end Patchbay.Command
