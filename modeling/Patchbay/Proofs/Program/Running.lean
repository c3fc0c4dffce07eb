import Mathlib.Logic.Function.Basic
import Patchbay.Program.Basic
import Patchbay.Proofs.Patch.Atomic
/-!
# Running programs

What a generated program does when a page runs it, in the terms in which graphs are built: its audio
objects are primitives on a rack, in the order in which they are created, and its voices are those
of a voicing. A parameter has the value it was last set to, or the standard value of its family.

Only what stands outside of functions is run. The functions that a program brings along are called
by their names, after they were declared: the generators of noise fill a buffer, whose samples are
not looked at here, and the helpers of the keyboard register profiles and voices. What the page
answers to events comes later.

A statement that is not understood has no outcome, nor has one that uses a name before it is
declared, declares one twice, sets something that is not there or gives it what it cannot take.
-/

namespace Patchbay

/-- The parameter of a family that has a name. -/
def Family.param? (f : Family) (name : String) : Option Param :=
  ((f.params (α := Float)).map (·.1)).find? (·.name == name)

/-- Gives a parameter a value from the beginning on. -/
def Rack.setBase {α : Type} [Scalar α] (rack : Rack α) (dial : Dial) (value : α) : Rack α :=
  rack.update dial.primitive (·.mapTimeline dial.param fun _ => .starting value)

namespace Script

/-! ## Values and stages -/

/-- What expressions stand for. -/
inductive Value (α : Type) where
  | number (x : α)
  | text (s : String)
  | bool (b : Bool)
  /-- A list that stays as it is. -/
  | items (values : List (Value α))
  /-- A list that grows, by its place among those of the stage. -/
  | list (place : Nat)
  | record (fields : List (String × Value α))
  | math
  | context
  | object (id : PrimitiveId)
  | param (dial : Dial)
  | buffer
  /-- The samples of a buffer, to be filled. -/
  | samples
  | curve (corners : List Float32)
  /-- The place of a profile. -/
  | profile (index : Nat)
  | function
  | nothing

/-- What can be patched into a value. -/
def Value.inlet? {α : Type} : Value α → Option Inlet
  | .object id => some (.input id)
  | .param dial => some (.dial dial)
  | _ => none

/-- What a program finds on a page. -/
structure Page (α : Type) where
  sampleRate : α
  /-- The nearest whole number. -/
  round : α → α

/-- How far a program has come: the names declared, the lists that began empty, and what was made
and played. -/
structure Stage (α : Type) where
  scope : String → Option (Value α)
  lists : List (List (Value α))
  rack : Rack α
  voicing : Voicing α

variable {α : Type} [Scalar α]

/-- The numbers among values, if they are all numbers. -/
def numbers? (values : List (Value α)) : Option (List α) :=
  values.mapM fun
    | .number x => some x
    | _ => none

/-- What the methods of the context that take no arguments make. -/
def makers : List (String × Setup α) :=
  [("createConstantSource", .constantSource 1.0),
    ("createOscillator", .oscillator .sine 440.0),
    ("createBufferSource", .bufferSource #[] false),
    ("createGain", .gain 1.0),
    ("createBiquadFilter", .biquadFilter .lowpass),
    ("createWaveShaper", .waveShaper []),
    ("createDynamicsCompressor", .dynamicsCompressor),
    ("createAnalyser", .analyser .time)]

/-- What a method of the context makes. -/
def made? (method : String) : List (Value α) → Option (Setup α)
  | [] => (makers.find? (·.1 == method)).map (·.2)
  | [.number longest] => if method = "createDelay" then some (.delay longest) else none
  | _ => none

/-- An object with one of its fixed settings changed. -/
def assigned? (field : String) : Setup α → Value α → Option (Setup α)
  | .oscillator _ frequency, .text name =>
    if field = "type" then (Waveform.ofName? name).map (.oscillator · frequency) else none
  | .biquadFilter _, .text name =>
    if field = "type" then (Response.ofName? name).map .biquadFilter else none
  | .bufferSource samples looping, .buffer =>
    if field = "buffer" then some (.bufferSource samples looping) else none
  | .bufferSource samples _, .bool looping =>
    if field = "loop" then some (.bufferSource samples looping) else none
  | .waveShaper _, .curve corners => if field = "curve" then some (.waveShaper corners) else none
  | _, _ => none

/-- A new object of a type of the language. -/
def constructed? (type : String) : List (Value α) → Option (Value α)
  | [] => if type = "AudioContext" then some .context else none
  | [.items values] =>
    if type = "Float32Array" then
      (numbers? values).map fun xs => .curve (xs.map fun x => (Scalar.toFloat x).toFloat32)
    else none
  | _ => none

/-- A profile written as a record with its fields in order. -/
def profileOf? (fields : List (String × Value α)) : Option (Profile α) :=
  if fields.map (·.1) = Profile.names then
    match numbers? (fields.map (·.2)) with
    | some [attack, attackLength, decay, decayLength, sustain, sustainLength, releaseLength] =>
      some ⟨attack, attackLength, decay, decayLength, sustain, sustainLength, releaseLength⟩
    | _ => none
  else none

namespace Stage

/-- A page before anything was run. -/
def start (page : Page α) : Stage α where
  scope x := if x = "Math" then some .math else none
  lists := []
  rack := .new page.sampleRate
  voicing := .empty

omit [Scalar α] in
/-- Declares a name that is not declared yet. -/
def declare (s : Stage α) (x : String) (v : Value α) : Option (Stage α) :=
  if (s.scope x).isSome then none
  else some { s with scope := Function.update s.scope x (some v) }

def declareAll (s : Stage α) (bindings : List (String × Value α)) : Option (Stage α) :=
  bindings.foldlM (fun s (x, v) => s.declare x v) s

/-- The value of a field. -/
def member? (page : Page α) (s : Stage α) : Value α → String → Option (Value α)
  | .context, field =>
    if field = "destination" then some (.object Rack.destination)
    else if field = "sampleRate" then some (.number page.sampleRate)
    else none
  | .object id, field => do
    let family ← s.rack.families[id]?
    let param ← family.param? field
    return .param ⟨id, param⟩
  | _, _ => none

/-- Sets a field. -/
def assign (s : Stage α) (target : Value α) (field : String) (v : Value α) : Option (Stage α) :=
  match target, v with
  | .param dial, .number x =>
    if field = "value" then some { s with rack := s.rack.setBase dial x } else none
  | .object id, v => do
    let p ← s.rack.primitive? id
    let setup ← assigned? field p.setup v
    return { s with rack := s.rack.update id fun p => { p with setup } }
  | _, _ => none

/-- Calls a method. -/
def send (page : Page α) (s : Stage α) (receiver : Value α) (method : String)
    (arguments : List (Value α)) : Option (Value α × Stage α) :=
  match receiver, arguments with
  | .context, [.number _, .number _, .number _] =>
    if method = "createBuffer" then some (.buffer, s) else none
  | .context, arguments => (made? method arguments).map fun setup =>
    (.object s.rack.primitives.size, { s with rack := s.rack.add setup })
  | .math, [.number x] => if method = "round" then some (.number (page.round x), s) else none
  | .buffer, [.number _] => if method = "getChannelData" then some (.samples, s) else none
  | .list place, [v] =>
    if method = "push" then some (.nothing, { s with lists := s.lists.modify place (· ++ [v]) })
    else none
  | .object id, [v] =>
    if method = "connect" then
      v.inlet?.map fun inlet => (.nothing, { s with rack := s.rack.connect id inlet })
    else none
  | .object id, [] =>
    if method = "start" then some (.nothing, { s with rack := s.rack.start id s.rack.clock })
    else none
  | _, _ => none

/-- Calls a function that the program has declared. -/
def call (s : Stage α) (function : String) (arguments : List (Value α)) :
    Option (Value α × Stage α) :=
  match s.scope function, arguments with
  | some .function, [.samples] =>
    if function ∈ Noise.Color.all.map Program.noiseFunction then some (.nothing, s) else none
  | some .function, [.record fields] =>
    if function = "addProfile" then
      (profileOf? fields).map fun profile =>
        (.profile s.voicing.profiles.length, { s with voicing := s.voicing.register profile })
    else none
  | some .function, [.text code, .param gain, .profile index] =>
    if function = "addVoice" then
      (Key.ofCode? code).map fun key =>
        (.nothing, { s with voicing := s.voicing.bind key ⟨gain, index⟩ })
    else none
  | _, _ => none

omit [Scalar α] in
/-- The items of a list. -/
def itemsOf? (s : Stage α) : Value α → Option (List (Value α))
  | .items values => some values
  | .list place => s.lists[place]?
  | _ => none

end Stage

omit [Scalar α] in
/-- What the names of a loop stand for at an item; several names take it apart. -/
def itemBindings? : List String → Value α → Option (List (String × Value α))
  | [x], v => some [(x, v)]
  | names, .items values =>
    if names.length = values.length then some (names.zip values) else none
  | _, _ => none

/-! ## Expressions and statements -/

mutual

/-- The value of an expression, and the stage after it. -/
def eval (page : Page α) : Expr α → Stage α → Option (Value α × Stage α)
  | .name x, s => (s.scope x).map (·, s)
  | .number x, s => some (.number x, s)
  | .text t, s => some (.text t, s)
  | .bool b, s => some (.bool b, s)
  | .member object field, s => do
    let (v, s) ← eval page object s
    (s.member? page v field).map (·, s)
  | .call (.name function) arguments, s => do
    let (values, s) ← evalAll page arguments s
    s.call function values
  | .call (.member object method) arguments, s => do
    let (v, s) ← eval page object s
    let (values, s) ← evalAll page arguments s
    s.send page v method values
  | .construct type arguments, s => do
    let (values, s) ← evalAll page arguments s
    (constructed? type values).map (·, s)
  | .list [], s => some (.list s.lists.length, { s with lists := s.lists ++ [[]] })
  | .list items, s => do
    let (values, s) ← evalAll page items s
    return (.items values, s)
  | .record fields, s => do
    let (values, s) ← evalFields page fields s
    return (.record values, s)
  | .binary operator left right, s => do
    let (a, s) ← eval page left s
    let (b, s) ← eval page right s
    match a, b with
    | .number x, .number y => if operator = "*" then some (.number (x * y), s) else none
    | _, _ => none
  | _, _ => none

def evalAll (page : Page α) : List (Expr α) → Stage α → Option (List (Value α) × Stage α)
  | [], s => some ([], s)
  | e :: rest, s => do
    let (v, s) ← eval page e s
    let (values, s) ← evalAll page rest s
    return (v :: values, s)

def evalFields (page : Page α) :
    List (String × Expr α) → Stage α → Option (List (String × Value α) × Stage α)
  | [], s => some ([], s)
  | (name, e) :: rest, s => do
    let (v, s) ← eval page e s
    let (values, s) ← evalFields page rest s
    return ((name, v) :: values, s)

end

mutual

/-- The stage after a statement. Names that a loop declares are gone when it ends. -/
def exec (page : Page α) : Stmt α → Stage α → Option (Stage α)
  | .comment _, s => some s
  | .const x e, s => do
    let (v, s) ← eval page e s
    s.declare x v
  | .variables bindings, s =>
    bindings.foldlM (fun s (x, e) => do
      let (v, s) ← eval page e s
      s.declare x v) s
  | .assign operator (.member object field) value, s =>
    if operator = "=" then do
      let (target, s) ← eval page object s
      let (v, s) ← eval page value s
      s.assign target field v
    else none
  | .run e, s => (eval page e s).map (·.2)
  | .function name _ _, s => s.declare name .function
  | .forItems names source _ body, s => do
    let (v, s) ← eval page source s
    (← s.itemsOf? v).foldlM (fun s item => do
      let inner ← s.declareAll (← itemBindings? names item)
      let inner ← execAll page body inner
      return { inner with scope := s.scope }) s
  | .listen .., s => some s
  | .offer names, s => if names.all (fun x => (s.scope x).isSome) then some s else none
  | _, _ => none

/-- The stage after statements. -/
def execAll (page : Page α) : List (Stmt α) → Stage α → Option (Stage α)
  | [], s => some s
  | statement :: rest, s => do
    let s ← exec page statement s
    execAll page rest s

end

/-- The stage after a program. -/
def run (page : Page α) (program : Paragraphs α) : Option (Stage α) :=
  execAll page program.flatten (.start page)

theorem execAll_nil (page : Page α) (s : Stage α) : execAll page [] s = some s := rfl

theorem execAll_cons {page : Page α} {statement : Stmt α} {s s' : Stage α}
    (h : exec page statement s = some s') (l : List (Stmt α)) :
    execAll page (statement :: l) s = execAll page l s' := by
  show (exec page statement s).bind (execAll page l) = _
  rw [h]
  rfl

theorem execAll_singleton {page : Page α} {statement : Stmt α} {s s' : Stage α}
    (h : exec page statement s = some s') : execAll page [statement] s = some s' :=
  (execAll_cons h []).trans (execAll_nil page s')

theorem execAll_append (page : Page α) (l l' : List (Stmt α)) (s : Stage α) :
    execAll page (l ++ l') s = (execAll page l s).bind (execAll page l') := by
  induction l generalizing s with
  | nil => rfl
  | cons statement l ih =>
    show (exec page statement s).bind (execAll page (l ++ l')) =
      ((exec page statement s).bind (execAll page l)).bind (execAll page l')
    cases exec page statement s with
    | none => rfl
    | some s => exact ih s

end Script

end Patchbay
