import Patchbay.Json.Outline
import Patchbay.Json.Printer
import Patchbay.Text.Quoted
/-!
# Shapes

Taking an outline apart against an expected shape. The first problem in reading order is the
answer: either the text is malformed there, or a value does not have the shape that is expected
there (a `Misfit`). Records may be given as lists of their members in order.
-/

namespace Patchbay.Json

/-- The value that was found where something else was expected. -/
inductive Found where
  | null
  | bool (b : Bool)
  | int (n : Int)
  | float (x : Float)
  | text (s : String)
  | list
  | record

/-- How a value differs from the expected shape. -/
inductive Misfit where
  | unexpected (found : Found) (expected : String)
  | missing (field : String)
  | duplicate (field : String)
  | unknownVariant (name : String) (first second : String)
  | wrongLength (length : Nat) (expected : String)
  | notSingle (expected : String)

/-- Why an outline gives no value. -/
inductive Fault where
  | malformed
  | misfit (m : Misfit)

def Found.describe : Found → String
  | .null => "null"
  | .bool b => "boolean `" ++ (if b then "true" else "false") ++ "`"
  | .int n => "integer `" ++ toString n ++ "`"
  | .float x => "floating point `" ++ Number.Layout.json.render x ++ "`"
  | .text s => "string " ++ Text.inspected s
  | .list => "sequence"
  | .record => "map"

def Misfit.message : Misfit → String
  | .unexpected found expected => "invalid type: " ++ found.describe ++ ", expected " ++ expected
  | .missing field => "missing field `" ++ field ++ "`"
  | .duplicate field => "duplicate field `" ++ field ++ "`"
  | .unknownVariant name first second =>
    "unknown variant `" ++ name ++ "`, expected `" ++ first ++ "` or `" ++ second ++ "`"
  | .wrongLength length expected =>
    "invalid length " ++ toString length ++ ", expected " ++ expected
  | .notSingle expected => "invalid value: map, expected " ++ expected

/-- Where an outline comes from. A text can hold a field twice and is bounded in its nesting; in a
value both are settled, and its misfits are told apart more finely. -/
inductive Origin where
  | text
  | value
deriving DecidableEq, Repr

/-- The number of containers that may lie within each other in a text. -/
def deepest : Nat := 127

/-- Enters a container that lies within `depth` others. -/
def enter (origin : Origin) (depth : Nat) : Except Fault Unit :=
  if origin = .text ∧ deepest ≤ depth then .error .malformed else .ok ()

/-- The fault of a value that is not what was expected. -/
def unexpected (expected : String) : Outline → Fault
  | .null => .misfit (.unexpected .null expected)
  | .bool b => .misfit (.unexpected (.bool b) expected)
  | .number (some (.int n)) => .misfit (.unexpected (.int n) expected)
  | .number (some (.float x)) => .misfit (.unexpected (.float x) expected)
  | .number none => .malformed
  | .text (some s) => .misfit (.unexpected (.text s) expected)
  | .text none => .malformed
  | .list _ _ => .misfit (.unexpected .list expected)
  | .record _ _ => .misfit (.unexpected .record expected)
  | .broken => .malformed

/-! ## Values kept as they are -/

mutual

/-- Keeps a value; `depth` containers lie around it. -/
def keep (origin : Origin) (depth : Nat) : Outline → Except Fault Json
  | .null => .ok .null
  | .bool b => .ok (.bool b)
  | .number (some n) => .ok (.number n)
  | .text (some s) => .ok (.text s)
  | .list items whole => do
    enter origin depth
    let kept ← keepItems origin (depth + 1) items
    if whole then .ok (.list kept) else .error .malformed
  | .record entries whole => do
    enter origin depth
    let kept ← keepEntries origin (depth + 1) entries
    if whole then .ok (.ofFields kept) else .error .malformed
  | .number none | .text none | .broken => .error .malformed

def keepItems (origin : Origin) (depth : Nat) : List Outline → Except Fault (List Json)
  | [] => .ok []
  | item :: rest => do
    let kept ← keep origin depth item
    return kept :: (← keepItems origin depth rest)

def keepEntries (origin : Origin) (depth : Nat) :
    List (Option String × Outline) → Except Fault (List (String × Json))
  | [] => .ok []
  | (none, _) :: _ => .error .malformed
  | (some name, value) :: rest => do
    let kept ← keep origin depth value
    return (name, kept) :: (← keepEntries origin depth rest)

end

/-! ## Expected shapes -/

def asText : Outline → Except Fault String
  | .text (some s) => .ok s
  | other => .error (unexpected "a string" other)

def asFloat : Outline → Except Fault Float
  | .number (some n) => .ok n.toFloat
  | other => .error (unexpected "f64" other)

/-- A list whose items are all read the same way. -/
def asList {β : Type} (origin : Origin) (read : Nat → Outline → Except Fault β) (depth : Nat) :
    Outline → Except Fault (List β)
  | .list items whole => do
    enter origin depth
    let values ← items.mapM (read (depth + 1))
    if whole then .ok values else .error .malformed
  | other => .error (unexpected "a sequence" other)

/-- One member of a record under construction. `read` puts it into the record; `present` tells
whether it is there already. -/
structure Member (σ : Type) where
  name : String
  required : Bool
  present : σ → Bool
  read : Nat → Outline → σ → Except Fault σ

/-- Reads the entries of a record in the order in which they are written. An entry that is no
member is skipped, but has to be whole. -/
def readEntriesInto {σ : Type} (members : List (Member σ)) (depth : Nat) :
    List (Option String × Outline) → σ → Except Fault σ
  | [], partly => .ok partly
  | (none, _) :: _, _ => .error .malformed
  | (some name, value) :: rest, partly =>
    match members.find? (·.name == name) with
    | none =>
      if value.isWhole then readEntriesInto members depth rest partly else .error .malformed
    | some member =>
      if member.present partly then .error (.misfit (.duplicate name))
      else do
        let partly ← member.read depth value partly
        readEntriesInto members depth rest partly

/-- The first required member that a record lacks. -/
def firstMissing? {σ : Type} (members : List (Member σ)) (partly : σ) : Option String :=
  (members.find? fun m => m.required && !m.present partly).map (·.name)

/-- Reads members from a list by position; `index` members have been read. -/
def readItemsInto {σ : Type} (title : String) (whole : Bool) (depth : Nat) :
    Nat → List (Member σ) → List Outline → σ → Except Fault (σ × List Outline)
  | _, [], items, partly => .ok (partly, items)
  | index, member :: members, item :: items, partly => do
    let partly ← member.read depth item partly
    readItemsInto title whole depth (index + 1) members items partly
  | index, member :: members, [], partly =>
    if !whole then .error .malformed
    else if member.required then .error (.misfit (.wrongLength index title))
    else readItemsInto title whole depth (index + 1) members [] partly

/-- A record, given by names or by position. `title` names it in messages. -/
def asRecord {σ : Type} (origin : Origin) (title : String) (members : List (Member σ)) (empty : σ)
    (depth : Nat) : Outline → Except Fault σ
  | .record entries whole => do
    enter origin depth
    let partly ← readEntriesInto members (depth + 1) entries empty
    if !whole then .error .malformed
    else match firstMissing? members partly with
      | some name => .error (.misfit (.missing name))
      | none => .ok partly
  | .list items whole => do
    enter origin depth
    let plural := title ++ " with " ++ toString members.length ++ " elements"
    let (partly, rest) ← readItemsInto plural whole (depth + 1) 0 members items empty
    if rest.isEmpty then
      if whole then .ok partly else .error .malformed
    else match origin with
      | .text => .error .malformed
      | .value => .error (.misfit (.wrongLength items.length "fewer elements in array"))
  | other => .error (unexpected title other)

/-- One of two words, given as a text or as the only name of a record whose value is null. -/
def asVariant {β : Type} (origin : Origin) (first second : String × β) (depth : Nat)
    (outline : Outline) : Except Fault β :=
  let choose (name : String) : Except Fault β :=
    if name = first.1 then .ok first.2
    else if name = second.1 then .ok second.2
    else .error (.misfit (.unknownVariant name first.1 second.1))
  let nothing : Outline → Except Fault Unit
    | .null => .ok ()
    | other => .error (unexpected "unit" other)
  match outline with
  | .text (some s) => choose s
  | .record entries whole => do
    enter origin depth
    match origin, entries with
    | .value, [(some name, value)] =>
      let chosen ← choose name
      nothing value
      return chosen
    | .value, _ => .error (.misfit (.notSingle "map with a single key"))
    | .text, (some name, value) :: rest =>
      let chosen ← choose name
      nothing value
      if rest.isEmpty && whole then .ok chosen else .error .malformed
    | .text, _ => .error .malformed
  | other =>
    match origin with
    | .text => .error .malformed
    | .value => .error (unexpected "string or map" other)

end Patchbay.Json
