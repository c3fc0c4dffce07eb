import Patchbay.Number.Nearest
/-!
# JSON values

A record's fields are an association list. Records made by `Json.ofFields` have each name once and
in order, so that two records with the same content are equal.
-/

namespace Patchbay

/-- A number as JSON distinguishes it: written without point and exponent, or with one. -/
inductive Json.Number where
  | int (n : Int)
  | float (x : Float)

inductive Json where
  | null
  | bool (b : Bool)
  | number (n : Json.Number)
  | text (s : String)
  | list (items : List Json)
  | record (fields : List (String × Json))

namespace Json

/-- The float of an integer, rounded to the nearest. -/
def floatOfInt (n : Int) : Float :=
  if 0 ≤ n then Float.ofNat n.toNat else -Float.ofNat (-n).toNat

def Number.toFloat : Number → Float
  | .int n => floatOfInt n
  | .float x => x

/-- Puts a field into an ordered record; a field of that name is replaced. -/
def putField (name : String) (value : Json) : List (String × Json) → List (String × Json)
  | [] => [(name, value)]
  | (other, kept) :: rest =>
    if name < other then (name, value) :: (other, kept) :: rest
    else if name = other then (name, value) :: rest
    else (other, kept) :: putField name value rest

/-- The fields ordered by name; of several with one name the last counts. -/
def orderFields (fields : List (String × Json)) : List (String × Json) :=
  fields.foldl (fun ordered (name, value) => putField name value ordered) []

def ofFields (fields : List (String × Json)) : Json := record (orderFields fields)

def findField? (name : String) (fields : List (String × Json)) : Option Json :=
  (fields.find? (·.1 == name)).map (·.2)

/-- A field of a record; `none` also for a value that is no record. -/
def field? (value : Json) (name : String) : Option Json :=
  match value with
  | record fields => findField? name fields
  | _ => none

end Json

end Patchbay
