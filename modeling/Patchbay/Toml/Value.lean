/-!
# TOML values

A TOML document is a table. Its values are written in place, its tables in place, under headers or
through dotted keys; how a table came to be decides what may still be added to it.
-/

namespace Patchbay.Toml

/-- How a table came to be: written in braces, named by a header, named on the way to the table of
a header, or named on the way to the value of a dotted key. -/
inductive Standing where
  | braced
  | header
  | implied
  | dotted
deriving DecidableEq, Repr

inductive Value where
  | text (s : String)
  | int (n : Int)
  | float (x : Float)
  | bool (b : Bool)
  /-- A date, a time of day or both. What it says is not kept. -/
  | moment
  | list (items : List Value)
  | table (standing : Standing) (fields : List (String × Value))
  /-- Tables under headers of one name in double brackets. -/
  | tables (items : List (List (String × Value)))

/-- The fields of a table, each name once. -/
abbrev Fields := List (String × Value)

namespace Fields

def get? (fields : Fields) (name : String) : Option Value :=
  (fields.find? (·.1 == name)).map (·.2)

/-- Puts a value in place of the one of that name, or at the end. -/
def put (fields : Fields) (name : String) (value : Value) : Fields :=
  if fields.any (·.1 == name) then
    fields.map fun f => if f.1 == name then (name, value) else f
  else fields ++ [(name, value)]

end Fields

/-! ## Building tables -/

/-- What one line of a document says. -/
inductive Statement where
  | header (path : List String)
  | listHeader (path : List String)
  | entry (path : List String) (name : String) (value : Value)

/-- Changes the last of some tables, if there is one. -/
def changeLast {β : Type} (change : β → Option β) : List β → Option (List β)
  | [] => none
  | [last] => (change last).map ([·])
  | item :: rest => (changeLast change rest).map (item :: ·)

/-- Changes the table that a path leads to and, where the path ends, tells how that table came to
be. A table that is missing on the way is made. `enter` tells which standing of a table lets the
path through. -/
def changeAt (made : Standing) (enter : Standing → Bool)
    (change : Standing → Fields → Option Fields) :
    List String → Standing → Fields → Option Fields
  | [], standing, fields => change standing fields
  | name :: path, _, fields =>
    match Fields.get? fields name with
    | none => (changeAt made enter change path made []).map fun inner =>
        Fields.put fields name (.table made inner)
    | some (.table standing inner) =>
      if enter standing then
        (changeAt made enter change path standing inner).map fun inner =>
          Fields.put fields name (.table standing inner)
      else none
    | some (.tables items) =>
      (changeLast (changeAt made enter change path .header) items).map fun items =>
        Fields.put fields name (.tables items)
    | some _ => none

/-- Dotted keys lead through tables that only they or a path to a header have named. -/
def Standing.isImplicit : Standing → Bool
  | implied | dotted => true
  | header | braced => false

/-- Headers lead through every table that is not written in braces. -/
def Standing.isOpen (s : Standing) : Bool := s != .braced

/-- Adds a value under a key. A dotted key ends in a table that dotted keys have made, a plain key
in any other. -/
def addEntry (path : List String) (name : String) (value : Value) (standing : Standing)
    (fields : Fields) : Option Fields :=
  changeAt .dotted Standing.isImplicit
    (fun standing fields =>
      if (standing == .dotted) == path.isEmpty then none
      else if (Fields.get? fields name).isSome then none
      else some (Fields.put fields name value))
    path standing fields

/-- Changes the table of a header, given the header's path. -/
def changeUnder (path : List String) (change : Standing → Fields → Option Fields)
    (root : Fields) : Option Fields :=
  changeAt .implied Standing.isOpen change path .header root

/-- Names a table by a header, keeping what paths to other headers have put into it. -/
def declare (name : String) (fields : Fields) : Option Fields :=
  match Fields.get? fields name with
  | none => some (Fields.put fields name (.table .header []))
  | some (.table .implied inner) => some (Fields.put fields name (.table .header inner))
  | some _ => none

/-- Begins one more of the tables of a name. -/
def declareNext (name : String) (fields : Fields) : Option Fields :=
  match Fields.get? fields name with
  | none => some (Fields.put fields name (.tables [[]]))
  | some (.tables items) => some (Fields.put fields name (.tables (items ++ [[]])))
  | some _ => none

/-- A document up to some line: its fields, and the header that the next lines are under. -/
structure Draft where
  header : List String
  fields : Fields

/-- Applies `change` to the table around the last name of a header. -/
def Draft.declareBy (d : Draft) (path : List String)
    (change : String → Fields → Option Fields) : Option Draft := do
  let name ← path.getLast?
  let fields ← changeUnder path.dropLast (fun _ => change name) d.fields
  return ⟨path, fields⟩

/-- Takes in one line. -/
def Draft.take (d : Draft) : Statement → Option Draft
  | .header path => d.declareBy path declare
  | .listHeader path => d.declareBy path declareNext
  | .entry path name value =>
    (changeUnder d.header (addEntry path name value) d.fields).map fun fields =>
      { d with fields }

/-- The table that the lines of a document make; `none` when they do not fit together. -/
def Fields.ofStatements (statements : List Statement) : Option Fields :=
  (statements.foldlM Draft.take ⟨[], []⟩).map (·.fields)

/-- The table that the entries between braces make. -/
def Fields.ofEntries (entries : List (List String × String × Value)) : Option Fields :=
  entries.foldlM (fun fields (path, name, value) => addEntry path name value .braced fields) []

end Patchbay.Toml
