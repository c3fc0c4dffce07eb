import Patchbay.Command.Output
import Patchbay.Palette
/-!
# The command about kinds

Lists the palette, or shows the sockets and controls of one kind.
-/

namespace Patchbay.Command

variable {m : Type → Type} [Monad m]

/-- The columns of the palette's table. -/
def paletteLine (label tag description : String) : String :=
  "  " ++ left 30 label ++ "  " ++ left 30 tag ++ "  " ++ description

def categoryLines (c : Palette.Category) : List String :=
  ["", c.name ++ " - " ++ c.description, paletteLine "Label" "Tag" "Description",
      paletteLine "-----" "---" "-----------"] ++
    (Palette.entriesIn c).map fun e => paletteLine e.label e.kind.tag e.description

def socketLine (s : Socket) : String :=
  let inline := match s.inline with
    | some control => ", inline '" ++ control ++ "'"
    | none => ""
  "  " ++ left 22 s.name ++ "  " ++ s.combine.name ++ ", " ++ s.multiplicity.name ++ inline

/-- What a control accepts. A bound that no finite number reaches is none. -/
def describe : Control.Domain Float → String
  | .number standard range =>
    let bounds (x : Float) : Bool := -Scalar.largest < x && x < Scalar.largest
    let text := Number.plainText
    match bounds range.low, bounds range.high with
    | true, true => text standard ++ " in [" ++ text range.low ++ ", " ++ text range.high ++ "]"
    | true, false => text standard ++ ", at least " ++ text range.low
    | false, true => text standard ++ ", at most " ++ text range.high
    | false, false => text standard
  | .choice standard options => standard ++ " (one of " ++ ", ".intercalate options ++ ")"
  | .key standard => standard.code ++ " (key code)"
  | .profile => "ADSR profile"

def controlLine (c : Control Float) : String :=
  "  " ++ left 14 c.key ++ "  " ++ left 20 c.label ++ "  " ++ describe c.domain ++
    (if c.live then "  [live]" else "")

def orNone (lines : List String) : List String := if lines.isEmpty then ["  (none)"] else lines

def entryLines (e : Palette.Entry) : List String :=
  [e.label, underline e.label.length, "", e.description, "Tag: " ++ e.kind.tag,
      "Category: " ++ e.category.name, "", "Inputs:"] ++
    orNone (e.kind.inputs.map socketLine) ++ ["Outputs:"] ++
    orNone (e.kind.outputs.map socketLine) ++ ["Controls:"] ++
    orNone ((e.kind.controls (α := Float)).map controlLine)

def kinds (kind category : Option String) : Action m Unit := do
  let lines ← match kind with
    | some name =>
      match Palette.find? name with
      | some e => pure (entryLines e)
      | none => Action.fail ("Unknown node kind: " ++ name)
    | none => do
      let categories ← match category with
        | some name =>
          match Palette.Category.find? name with
          | some c => pure [c]
          | none => Action.fail ("Unknown category: " ++ name)
        | none => pure Palette.Category.all
      pure (["Available Node Kinds", "===================="] ++ categories.flatMap categoryLines)
  Action.sayAll lines

end Patchbay.Command
