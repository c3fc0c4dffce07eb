import Patchbay.Kind
/-!
# Panels

The controls of one node with their values. A panel holds one value for each control of its kind,
in the order of the kind's controls, and takes only values that the control accepts.
-/

namespace Patchbay

/-- A control value that was not accepted, with the field it was meant for. -/
structure Rejection where
  kind : Kind
  field : String
  cause : Control.Fault

def Rejection.message (r : Rejection) : String :=
  "invalid '" ++ r.field ++ "' for " ++ r.kind.tag ++ ": " ++ r.cause.message

structure Panel (α : Type) where
  kind : Kind
  values : List (Control.Value α)

namespace Panel

variable {α : Type} [Scalar α]

/-- Every control at its standard value. -/
def standard (kind : Kind) : Panel α := ⟨kind, kind.controls.map (·.domain.standardValue)⟩

/-- The controls with their values. -/
def entries (p : Panel α) : List (Control α × Control.Value α) := p.kind.controls.zip p.values

def get? (p : Panel α) (key : String) : Option (Control.Value α) :=
  (p.entries.find? (·.1.key == key)).map (·.2)

/-- The number that a control holds; zero when it holds none. -/
def number (p : Panel α) (key : String) : α := ((p.get? key).bind (·.number?)).getD 0.0

/-- The word that a control holds; empty when it holds none. -/
def choice (p : Panel α) (key : String) : String := ((p.get? key).bind (·.choice?)).getD ""

/-- The profile that a control holds; the standard one when it holds none. -/
def profile (p : Panel α) (key : String) : Profile α :=
  ((p.get? key).bind (·.profile?)).getD .standard

/-- Gives a control a value that it accepts. -/
def set (p : Panel α) (key : String) (value : Control.Value α) : Except Rejection (Panel α) :=
  match (p.kind.control? key : Option (Control α)) with
  | none => .error ⟨p.kind, key, .noSuchControl⟩
  | some control =>
    match control.domain.fault? value with
    | some cause => .error ⟨p.kind, key, cause⟩
    | none => .ok { p with
        values := p.entries.map fun (c, v) => if c.key == key then value else v }

/-- The value of a control in a record of fields: what is written there, or the standard value. -/
def readField (kind : Kind) (fields : List (String × Json)) (control : Control α) :
    Except Rejection (Control.Value α) :=
  match Json.findField? control.key fields with
  | none => .ok control.domain.standardValue
  | some written => (control.domain.read written).mapError (⟨kind, control.key, ·⟩)

/-- Reads the values of a kind's controls from a record. Fields that are no controls are ignored,
and the first control that cannot be read is the answer. -/
def ofData (kind : Kind) : Json → Except Rejection (Panel α)
  | .null => .ok (standard kind)
  | .record fields => do return ⟨kind, ← kind.controls.mapM (readField kind fields)⟩
  | other => .error ⟨kind, "data", .expectedRecord other⟩

/-- The record that `ofData` reads the values from. -/
def toData (p : Panel α) : Json :=
  .ofFields (p.entries.map fun (c, v) => (c.key, (v.map Scalar.toFloat).toJson))

end Panel

end Patchbay
