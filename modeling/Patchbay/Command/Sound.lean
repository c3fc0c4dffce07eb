import Patchbay.Command.Documents
import Patchbay.Session.Rebuild
/-!
# The commands that build a document

Check whether a document builds, write its program, and play it: keys are pressed on a session,
and the gains of their voices are sampled.
-/

namespace Patchbay.Command

variable {m : Type → Type} [Monad m] [Store m]

def rackOf (settings : Settings) : Rack Float := Rack.new (Float.ofNat settings.sampleRate)

def familyLines (counts : List (Family × Nat)) : List String :=
  countLines (counts.map fun (family, n) => (family.name, n))

def droppedNode (failed : NodeId × NodeRecord.Fault) : String :=
  "  dropped node " ++ failed.1 ++ ": " ++ failed.2.message

/-! ## Checking -/

def droppedWire (skipped : Connection × Graph.Fault) : String :=
  "  dropped wire " ++ skipped.1.text ++ ": " ++ skipped.2.message

/-- What building a document came to. -/
def buildLines (built : Except Patch.Fault (Patch Float)) (voices : Nat) : List String :=
  match built with
  | .ok patch =>
    ["", "Build: " ++ toString patch.parts.length ++ " nodes reachable from a sink"] ++
      familyLines patch.counts ++
      (if voices = 0 then [] else ["  " ++ toString voices ++ " keyboard voices"])
  | .error fault => ["", "Build: " ++ fault.message]

def check (home : Library.Home) (document : String) (output settings : Option String) :
    Action m Unit := do
  let d ← loadDocument home document
  let settings ← loadSettings home settings
  let (graph, report) := d.toGraph (α := Float)
  Action.say ("Document: " ++ document)
  Action.say ("  " ++ toString report.nodes ++ " nodes, " ++ toString report.connections ++
    " connections, " ++ toString graph.comments.length ++ " comments")
  Action.sayAll (report.failed.map droppedNode ++ report.skipped.map droppedWire)
  match Mixer.new (rackOf settings) settings.masterGain settings.noise with
  | .error refusal => throw ⟨"recording backend refused the master chain", [refusal.message]⟩
  | .ok mixer =>
    let (built, _, voicing) := mixer.build graph .empty
    Action.sayAll (buildLines built voicing.voiceCount)
    if let some path := output then
      Action.orFail Failure.ofFault (Library.saveDocument (m := m) path graph.toDocument)
      Action.say ("\nWrote " ++ path)
    if let .error fault := built then
      Action.fail ("document does not build: " ++ fault.message)
    if !report.failed.isEmpty then
      Action.fail (toString report.failed.length ++ " node(s) could not be imported")

/-! ## Programs -/

def programFailure (name : String) (f : Program.Fault) : Failure :=
  ⟨"could not generate code for '" ++ name ++ "'", [f.message, f.cause]⟩

def program (home : Library.Home) (document : String) (output settings : Option String) :
    Action m Unit := do
  let d ← loadDocument home document
  let settings ← loadSettings home settings
  match Program.textOfDocument d (Session.programOptions (α := Float) settings) with
  | .error fault => throw (programFailure document fault)
  | .ok text =>
    match output with
    | none => Action.write text
    | some path =>
      Action.orFail (fun f => ⟨"could not write '" ++ path ++ "'", [f.message]⟩)
        (Store.write (m := m) path text)

/-! ## Playing -/

/-- The gain of a voice at so many times over a span from `start`, the ends of the span among
them. -/
def sampleLines (rack : Rack Float) (gain : Dial) (start span : Float) (samples : Nat) :
    List String :=
  (List.range samples).map fun step =>
    let offset := span * Float.ofNat step / Float.ofNat (samples - 1)
    "  t=" ++ right 6 (Number.fixedText 3 offset) ++ "s  gain=" ++
      Number.fixedText 4 (rack.valueAt gain (start + offset))

/-- Presses a key, holds it and lets it go; shows the gains of its voices until they have faded. -/
def press (session : Session Float) (key : Key) (hold : Float) (samples : Nat) :
    List String × Session Float :=
  let voices := session.voices key
  if voices.isEmpty then (["", key.code ++ ": no voices"], session)
  else
    let start := session.mixer.rack.clock
    let held := (session.keyDown key.code false).2.mapRack (·.advanceBy hold)
    let released := held.keyUp key.code false
    let lines := voices.zipIdx.flatMap fun ((voice, profile), index) =>
      let span := hold + profile.releaseLength
      (key.code ++ " voice " ++ toString (index + 1) ++ ": " ++ voice.gain.text ++ " over " ++
          Number.fixedText 2 span ++ "s") ::
        sampleLines released.mixer.rack voice.gain start span (max samples 2)
    ("" :: lines, released)

/-- Presses keys one after the other. -/
def pressAll (hold : Float) (samples : Nat) : List String → Session Float → Action m Unit
  | [], _ => return
  | code :: rest, session =>
    match Key.ofCode? code with
    | none => Action.fail ("unknown key code '" ++ code ++ "'")
    | some key => do
      let (lines, session) := press session key hold samples
      Action.sayAll lines
      pressAll hold samples rest session

def scopeLine (scope : NodeId × Domain × PrimitiveId) : String :=
  "  visualizer " ++ scope.1 ++ " (" ++ scope.2.1.name ++ ") on " ++ primitiveText scope.2.2

def simulate (home : Library.Home) (document : String) (keys : List String) (hold : Float)
    (samples : Nat) (settings : Option String) : Action m Unit := do
  if !(hold.isFinite && 0.0 < hold) then
    Action.fail "--hold must be a positive number of seconds"
  let d ← loadDocument home document
  let settings ← loadSettings home settings
  match Session.new (rackOf settings) settings with
  | .error refusal => throw ⟨refusal.message, []⟩
  | .ok session =>
    let (report, session) := session.importDocument d
    Action.say ("Imported " ++ toString report.nodes ++ " nodes, " ++
      toString report.connections ++ " connections")
    Action.sayAll (report.failed.map droppedNode)
    let session := session.settle
    match session.lastReport? with
    | none => Action.fail "no reconciliation pass ran"
    | some ⟨number, .error fault⟩ =>
      Action.fail ("pass " ++ toString number ++ " failed: " ++ fault.message)
    | some ⟨number, .ok summary⟩ =>
      Action.say ("Pass " ++ toString number ++ ": " ++ summary.text)
      Action.sayAll (familyLines session.mixer.rack.liveCounts ++ session.scopes.map scopeLine)
      pressAll hold samples keys session

end Patchbay.Command
