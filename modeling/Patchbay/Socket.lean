/-!
# Sockets

The places where connections leave and enter a node. An input socket says how many connections it
takes and how they act together on what it drives.
-/

namespace Patchbay

inductive Direction where
  | input
  | output
deriving DecidableEq, Repr

def Direction.name : Direction → String
  | input => "input"
  | output => "output"

inductive Multiplicity where
  | single
  | multiple
deriving DecidableEq, Repr

def Multiplicity.name : Multiplicity → String
  | single => "Single"
  | multiple => "Multiple"

/-- How the connections into a socket act:

* `signal`: each is patched into the input of the primitive;
* `override`: the one connection takes the place of the inline value;
* `additive`: all connections together take the place of the inline value;
* `modulate`: each is added onto the value that is there. -/
inductive Combine where
  | signal
  | override
  | additive
  | modulate
deriving DecidableEq, Repr

namespace Combine

def name : Combine → String
  | signal => "Signal"
  | override => "Override"
  | additive => "Additive"
  | modulate => "Modulate"

/-- Whether connections replace the value of the parameter they drive. -/
def replaces : Combine → Bool
  | override | additive => true
  | signal | modulate => false

end Combine

structure Socket where
  name : String
  label : String
  direction : Direction
  multiplicity : Multiplicity
  combine : Combine
  /-- The control whose value is in effect while nothing is connected. -/
  inline : Option String
deriving DecidableEq, Repr

namespace Socket

def signalInput (name label : String) : Socket := ⟨name, label, .input, .multiple, .signal, none⟩

/-- One connection takes the place of a control. -/
def base (name label control : String) : Socket :=
  ⟨name, label, .input, .single, .override, some control⟩

/-- The sum of the connections takes the place of a control. -/
def additive (name label control : String) : Socket :=
  ⟨name, label, .input, .multiple, .additive, some control⟩

/-- Connections add onto the value that another socket gives. -/
def additional (name label : String) : Socket := ⟨name, label, .input, .multiple, .modulate, none⟩

def output (name label : String) : Socket := ⟨name, label, .output, .multiple, .signal, none⟩

end Socket

end Patchbay
