import Patchbay.Keyboard.Key
import Patchbay.Keyboard.Profile
import Patchbay.Text.Blank
/-!
# Controls

The settings of a node: numbers in a range, words from a list, keys and envelope profiles. A
control accepts exactly the values of its domain and says of any other what is wrong with it.
-/

namespace Patchbay

namespace Control

/-- The values that a control accepts, and the one it starts with. -/
inductive Domain (α : Type) where
  | number (standard : α) (range : Range α)
  | choice (standard : String) (options : List String)
  | key (standard : Key)
  | profile

inductive Value (α : Type) where
  | number (x : α)
  | choice (name : String)
  | profile (p : Profile α)

/-- Why a value is not accepted. -/
inductive Fault where
  | notFinite (value : Float)
  | outside (value low high : Float)
  | notAnOption (name : String) (options : List String)
  | notAKey (name : String)
  | badProfile (cause : Profile.Fault)
  | wrongSort (value : Value Float)
  | noNumber (written : String)
  | expectedNumber (found : Json)
  | expectedText (found : Json)
  | misshapen (cause : Json.Fault)
  | noSuchControl
  | expectedRecord (found : Json)
  | unknownControl
  | notLive
  | mustBeFinite

end Control

/-- A control of a node. A live control can be moved while its node sounds. -/
structure Control (α : Type) where
  key : String
  label : String
  domain : Control.Domain α
  live : Bool

namespace Control

/-! ## Messages -/

def inspectedNumber (x : Float) : String := Number.Layout.inspected.render x

/-- A value as messages quote it. -/
def Value.inspected : Value Float → String
  | .number x => "Number(" ++ inspectedNumber x ++ ")"
  | .choice name => "Choice(" ++ Text.inspected name ++ ")"
  | .profile p =>
    let names := ["attack", "attack_length", "decay", "decay_length", "sustain",
      "sustain_length", "release_length"]
    let fields := (names.zip p.toList).map fun (name, x) => name ++ ": " ++ inspectedNumber x
    "Profile(VoiceProfile \x7b " ++ String.intercalate ", " fields ++ " \x7d)"

def Fault.message : Fault → String
  | .notFinite v => Number.plainText v ++ " is not a finite number"
  | .outside v low high =>
    Number.plainText v ++ " is outside [" ++ Number.plainText low ++ ", " ++
      Number.plainText high ++ "]"
  | .notAnOption name options =>
    "'" ++ name ++ "' is not one of " ++ String.intercalate ", " options
  | .notAKey name => "'" ++ name ++ "' is not a key on the layout"
  | .badProfile cause => cause.message
  | .wrongSort value => "unexpected value " ++ value.inspected
  | .noNumber written => "'" ++ written ++ "' is not a number"
  | .expectedNumber found => "expected a number, found " ++ found.compact
  | .expectedText found => "expected a string, found " ++ found.compact
  | .misshapen (.misfit m) => m.message
  | .misshapen .malformed => "malformed value"
  | .noSuchControl => "no such control"
  | .expectedRecord found => "expected an object, found " ++ found.compact
  | .unknownControl => "unknown control"
  | .notLive => "not adjustable while playing"
  | .mustBeFinite => "must be a finite number"

/-! ## Values -/

namespace Value

variable {α : Type}

def number? : Value α → Option α
  | number x => some x
  | _ => none

def choice? : Value α → Option String
  | choice name => some name
  | _ => none

def profile? : Value α → Option (Profile α)
  | profile p => some p
  | _ => none

def map {β : Type} (f : α → β) : Value α → Value β
  | number x => number (f x)
  | choice name => choice name
  | profile p => profile (p.map f)

/-- The JSON form of a number: an integer when it is whole and its magnitude below `9 · 10¹⁵`,
where integers are told apart in binary64. -/
def numberToJson (x : Float) : Json :=
  match Number.wholeValue? x with
  | some n => if n.natAbs < 9 * Nat.pow 10 15 then .number (.int n) else .number (.float x)
  | none => if x.isFinite then .number (.float x) else .null

def toJson : Value Float → Json
  | number x => numberToJson x
  | choice name => .text name
  | profile p => p.toJson

end Value

/-! ## Domains -/

namespace Domain

variable {α : Type}

def standardValue [Scalar α] : Domain α → Value α
  | number standard _ => .number standard
  | choice standard _ => .choice standard
  | key standard => .choice standard.code
  | profile => .profile .standard

/-- The nearest number that the domain accepts; other domains take any number as it is. -/
def clamp [Scalar α] (d : Domain α) (x : α) : α :=
  match d with
  | number _ range => range.clamp x
  | _ => x

/-- Why a value is not in the domain; `none` when it is. -/
def fault? [Scalar α] (d : Domain α) (value : Value α) : Option Fault :=
  match d, value with
  | number _ range, .number x =>
    if !Scalar.isFinite x then some (.notFinite (Scalar.toFloat x))
    else if x < range.low ∨ range.high < x then
      some (.outside (Scalar.toFloat x) (Scalar.toFloat range.low) (Scalar.toFloat range.high))
    else none
  | choice _ options, .choice name =>
    if name ∈ options then none else some (.notAnOption name options)
  | key _, .choice name => if (Key.ofCode? name).isSome then none else some (.notAKey name)
  | profile, .profile p => p.fault?.map .badProfile
  | _, other => some (.wrongSort (other.map Scalar.toFloat))

/-- The value that a JSON value writes. Numbers may be written as text. Whether the value is in
the domain is not asked here. -/
def readValue [Scalar α] (d : Domain α) (written : Json) : Except Fault (Value α) :=
  match d, written with
  | number .., .number n => .ok (.number (Scalar.ofFloat n.toFloat))
  | number .., .text s =>
    match Number.parseFloat? (Text.trimmed s) with
    | some x => .ok (.number (Scalar.ofFloat x))
    | none => .error (.noNumber s)
  | number .., other => .error (.expectedNumber other)
  | choice .., .text s | key .., .text s => .ok (.choice s)
  | choice .., other | key .., other => .error (.expectedText other)
  | profile, other =>
    match Profile.ofJson other with
    | .ok p => .ok (.profile (p.map Scalar.ofFloat))
    | .error cause => .error (.misshapen cause)

/-- Reads a value and checks that it is in the domain. -/
def read [Scalar α] (d : Domain α) (written : Json) : Except Fault (Value α) := do
  let value ← d.readValue written
  match d.fault? value with
  | some fault => .error fault
  | none => .ok value

end Domain

section

variable {α : Type}

/-- Any finite number. -/
def number [Scalar α] (key label : String) (standard : α) : Control α :=
  ⟨key, label, .number standard .unbounded, false⟩

def ranged [Scalar α] (key label : String) (standard low high : α) : Control α :=
  ⟨key, label, .number standard ⟨low, high⟩, false⟩

def atLeast [Scalar α] (key label : String) (standard low : α) : Control α :=
  ⟨key, label, .number standard (.atLeast low), false⟩

def choice (key label standard : String) (options : List String) : Control α :=
  ⟨key, label, .choice standard options, false⟩

/-- The same control, movable while its node sounds. -/
def alive (c : Control α) : Control α := { c with live := true }

end

end Control

end Patchbay
