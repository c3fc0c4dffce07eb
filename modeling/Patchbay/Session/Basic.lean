import Patchbay.Keyboard.State
import Patchbay.Mixer
import Patchbay.Program.Basic
import Patchbay.Session.Scheduler
import Patchbay.Settings
/-!
# Sessions

A session is a graph that is edited while it sounds. Every edit that can be heard asks for a
rebuild; live changes move what sounds without one. This module holds the state of a session and
what is done to it from outside; `Session.Rebuild` holds the rebuilds.
-/

namespace Patchbay

namespace Session

/-- A graph that has been built and waits to be installed. -/
structure Staged (α : Type) where
  patch : Patch α
  voicing : Voicing α

/-- What a rebuild installed. -/
structure Summary where
  counts : List (Family × Nat)
  sources : Nat
  voices : Nat
deriving DecidableEq, Repr

namespace Summary

def of {α : Type} (staged : Staged α) : Summary :=
  ⟨staged.patch.counts, staged.patch.sources.length, staged.voicing.voiceCount⟩

def count (s : Summary) (family : Family) : Nat :=
  ((s.counts.find? (·.1 == family)).map (·.2)).getD 0

def total (s : Summary) : Nat := s.counts.foldl (fun n count => n + count.2) 0

def text (s : Summary) : String :=
  toString s.total ++ " primitives, " ++ toString s.sources ++ " sources, " ++
    toString s.voices ++ " voices"

end Summary

/-- How a rebuild ended. -/
structure Report where
  pass : Nat
  outcome : Except Patch.Fault Summary

/-- What a running rebuild does next. -/
inductive Stage (α : Type) where
  | discard (staged : Staged α)
  | install (staged : Staged α)
  | start (summary : Summary)
  | finish (summary : Summary)

/-- A running rebuild: what it does next, and when, in milliseconds. -/
structure Pass (α : Type) where
  number : Nat
  stage : Stage α
  due : Nat

end Session

structure Session (α : Type) where
  graph : Graph α
  mixer : Mixer α
  keyboard : Keyboard α
  live : Option (Patch α)
  scheduler : Scheduler
  settings : Settings
  /-- The reports of all rebuilds that have ended. -/
  reports : List Session.Report
  /-- The rebuild that has begun and not ended. -/
  pass : Option (Session.Pass α)
  /-- The time that has passed, in milliseconds. -/
  time : Nat

namespace Session

variable {α : Type} [Scalar α]

/-- A session with an empty graph. -/
def new (rack : Rack α) (settings : Settings) : Except Refusal (Session α) := do
  let mixer ← Mixer.new rack (Scalar.ofFloat settings.masterGain) settings.noise
  return ⟨.empty, mixer, .new, none, .new, settings, [], none, 0⟩

def mapRack (s : Session α) (f : Rack α → Rack α) : Session α :=
  { s with mixer := s.mixer.mapRack f }

/-- Asks for a rebuild of the graph. -/
def requestRebuild (s : Session α) : Session α :=
  { s with scheduler := s.scheduler.request.2 }

def lastReport? (s : Session α) : Option Report := s.reports.getLast?

/-! ## Edits that can be heard -/

/-- Replaces the graph by an edited one. -/
def withGraph (s : Session α) (g : Graph α) : Session α :=
  { s with graph := g }.requestRebuild

def addNode (s : Session α) (kind : Kind) : NodeId × Session α :=
  let (id, g) := s.graph.addNode kind
  (id, s.withGraph g)

def removeNode (s : Session α) (id : NodeId) : Except Graph.Fault (Node α × Session α) := do
  let (node, g) ← s.graph.removeNode id
  return (node, s.withGraph g)

def connect (s : Session α) (c : Connection) : Except Graph.Fault (Session α) := do
  return s.withGraph (← s.graph.connect c)

def disconnect (s : Session α) (c : Connection) : Except Graph.Fault (Session α) := do
  return s.withGraph (← s.graph.disconnect c)

def setControl (s : Session α) (id : NodeId) (key : String) (value : Control.Value α) :
    Except Graph.SetFault (Session α) := do
  return s.withGraph (← s.graph.setControl id key value)

/-- Replaces the graph by the graph of a document. -/
def importDocument (s : Session α) (d : Document) : Document.Report × Session α :=
  let (g, report) := d.toGraph (α := α)
  (report, s.withGraph g)

/-- Lets the sound run or halt. -/
def setPlaying (s : Session α) (on : Bool) : Session α :=
  (s.mapRack (·.setRunning on)).requestRebuild

def isPlaying (s : Session α) : Bool := s.mixer.rack.running

/-! ## Comments, which cannot be heard -/

def addComment (s : Session α) (text : String) (style : Comment.Style) (links : List NodeId) :
    CommentId × Session α :=
  let (id, g) := s.graph.addComment text style links
  (id, { s with graph := g })

def removeComment (s : Session α) (id : CommentId) :
    Except Graph.Fault (Comment × Session α) := do
  let (comment, g) ← s.graph.removeComment id
  return (comment, { s with graph := g })

def setCommentText (s : Session α) (id : CommentId) (text : String) :
    Except Graph.Fault (Session α) := do
  return { s with graph := ← s.graph.setCommentText id text }

/-! ## Live changes -/

/-- What became of a live change. -/
inductive LiveUpdate (α : Type) where
  /-- The parameter moves to the value. -/
  | applied (value : α)
  /-- The control has no effect while its socket is connected. -/
  | bypassed
  /-- The node is no part of what sounds. -/
  | notBuilt

/-- Why a live change is refused. -/
inductive LiveFault where
  | graph (fault : Graph.Fault)
  | rejected (rejection : Rejection)

def LiveFault.message : LiveFault → String
  | .graph f => f.message
  | .rejected r => "live update rejected: " ++ r.message

/-- The control of a node that a live change moves. -/
def liveControl (node : Node α) (key : String) (value : α) : Except LiveFault (Control α) :=
  let reject (cause : Control.Fault) : Except LiveFault (Control α) :=
    .error (.rejected ⟨node.kind, key, cause⟩)
  match node.kind.control? (α := α) key with
  | none => reject .unknownControl
  | some control =>
    if !control.live then reject .notLive
    else if !Scalar.isFinite value then reject .mustBeFinite
    else .ok control

/-- Whether a control is the inline value of a socket that is connected. -/
def isBypassed (s : Session α) (node : Node α) (key : String) : Bool :=
  match node.kind.socketOf? key with
  | some socket => s.graph.isConnected node.id socket.name
  | none => false

/-- The knob of a control in what sounds. -/
def knob? (s : Session α) (id : NodeId) (key : String) : Option (Knob α) := do
  (← (← s.live).part? id).knob? key

/-- Moves what sounds, within the bounds of the control and of the parameter; the graph keeps its
value. -/
def updateLive (s : Session α) (id : NodeId) (key : String) (value : α) :
    Except LiveFault (LiveUpdate α × Session α) :=
  match s.graph.node? id with
  | none => .error (.graph (.nodeNotFound id))
  | some node => do
    let control ← liveControl node key value
    if s.isBypassed node key then return (.bypassed, s)
    match s.knob? id key with
    | none => return (.notBuilt, s)
    | some knob =>
      let value := knob.range.clamp (control.domain.clamp value)
      let seconds := Scalar.ofMilliseconds s.settings.ramp
      return (.applied value, s.mapRack (·.rampTo knob.dial value seconds))

/-! ## Keys -/

def keyDown (s : Session α) (code : String) (shift : Bool) : Bool × Session α :=
  let (opened, keyboard, rack) := s.keyboard.down s.mixer.rack code shift
  (opened, { s with keyboard, mixer := { s.mixer with rack } })

def keyUp (s : Session α) (code : String) (shift : Bool) : Session α :=
  let (keyboard, rack) := s.keyboard.up s.mixer.rack code shift
  { s with keyboard, mixer := { s.mixer with rack } }

/-! ## Views -/

/-- The voices of a key with their profiles. -/
def voices (s : Session α) (key : Key) : List (Voice × Profile α) :=
  (s.keyboard.voicing.voicesOf key).map fun voice =>
    (voice, s.keyboard.voicing.profileAt voice.profile)

/-- The analysers of what sounds, with their nodes. -/
def scopes (s : Session α) : List (NodeId × Domain × PrimitiveId) :=
  match s.live with
  | some patch => patch.scopes
  | none => []

def document (s : Session α) : Document := s.graph.toDocument

/-- The settings of a program as far as the session's settings say them. -/
def programOptions (settings : Settings) : Program.Options α :=
  (Program.Options.standard.withMasterGain (Scalar.ofFloat settings.masterGain)).withNoiseSeconds
    (Scalar.ofFloat settings.noiseSeconds)

/-- The program of the graph. -/
def program (s : Session α) : Except Program.Fault (Script.Paragraphs α) :=
  Program.ofDocument s.document (programOptions s.settings)

end Session

end Patchbay
