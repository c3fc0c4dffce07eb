import Patchbay.Graph.Basic
import Patchbay.Pitch
import Patchbay.Program.Prelude
/-!
# Blocks of generated programs

The statements that make one node, and the handles by which its sockets are wired. The variables
of the node at place `i` are named `n<i+1>_<role>`, so the variables of two nodes never clash.
-/

namespace Patchbay.Program

open Script

/-- What is done with a connection into a socket. -/
inductive Wire (α : Type) where
  /-- It is patched into an audio object. -/
  | object (target : Expr α)
  /-- It drives a parameter, as the socket combines it. -/
  | param (path : Expr α) (combine : Combine)
  /-- It drives the same parameter of every object in a list. -/
  | each (list : Expr α) (param : String)
  /-- Nothing: the node only shows what it is given. -/
  | dropped

/-- A node in the program. -/
structure Block (α : Type) where
  statements : List (Stmt α)
  outputs : List (String × Expr α)
  inputs : List (String × Wire α)

namespace Block

variable {α : Type}

def output? (b : Block α) (socket : String) : Option (Expr α) :=
  (b.outputs.find? (·.1 == socket)).map (·.2)

def wire? (b : Block α) (socket : String) : Option (Wire α) :=
  (b.inputs.find? (·.1 == socket)).map (·.2)

end Block

variable {α : Type} [Scalar α]

/-- The result of a method of the audio context. -/
def ctxMake (method : String) (arguments : List (Expr α)) : Expr α :=
  .send (.name "ctx") method arguments

def addSource (source : Expr α) : Stmt α := .run (.send (.name "sources") "push" [source])

def connect (source target : Expr α) : Stmt α := .run (.send source "connect" [target])

def profileRecord (p : Profile α) : Expr α :=
  .record ((Profile.names.zip p.toList).map fun (name, x) => (name, .number x))

/-- A wire into one parameter of an object. -/
def paramWire (object : Expr α) (param : Param) (combine : Combine) : Wire α :=
  .param (.member object param.name) combine

/-- The parameters of a compressor that controls of the same names set. -/
def compressorParams : List Param := [.threshold, .knee, .ratio, .attack, .release]

/-- The block of a node, its inline values left out. `name` is the first part of its variables. -/
def nodeBlock (name : String) (noiseSeconds : α) (panel : Panel α) : Block α :=
  let role (r : String) : String := name ++ "_" ++ r
  let var (r : String) : Expr α := .name (role r)
  let make (r method : String) (arguments : List (Expr α)) : Stmt α :=
    .const (role r) (ctxMake method arguments)
  let number (key : String) : Expr α := .number (panel.number key)
  let choice (key : String) : Expr α := .text (panel.choice key)
  let ratio : Expr α := .number (Pitch.ratio (panel.number "octave") (panel.number "halfstep"))
  let profile : Expr α := .apply "addProfile" [profileRecord (panel.profile "adsrProfile")]
  let constantSource (offset : Expr α) : Block α :=
    ⟨[make "src" "createConstantSource" [], .setValue (.member (var "src") "offset") offset,
        addSource (var "src")],
      [("value", var "src")], []⟩
  match panel.kind with
  | .constant => constantSource (number "value")
  | .noteFrequency =>
    constantSource (.number (Pitch.noteFrequency (panel.number "note") (panel.number "octave")))
  | .oscillator =>
    ⟨[make "osc" "createOscillator" [], .set (.member (var "osc") "type") (choice "waveform"),
        addSource (var "osc")],
      [("signal", var "osc")],
      [("baseFrequency", paramWire (var "osc") .frequency .override),
        ("frequency", paramWire (var "osc") .frequency .modulate)]⟩
  | .noise =>
    let color := (Noise.Color.ofName? (panel.choice "noiseType")).getD .white
    let rate : Expr α := .member (.name "ctx") "sampleRate"
    ⟨[make "buffer" "createBuffer"
          [.number 1.0, .send (.name "Math") "round" [.times (.number noiseSeconds) rate], rate],
        .run (.apply (noiseFunction color)
          [.send (var "buffer") "getChannelData" [.number 0.0]]),
        make "src" "createBufferSource" [],
        .set (.member (var "src") "buffer") (var "buffer"),
        .set (.member (var "src") "loop") (.bool true),
        addSource (var "src")],
      [("signal", var "src")], []⟩
  | .gain =>
    ⟨[make "gain" "createGain" []],
      [("signal", var "gain")],
      [("signal", .object (var "gain")), ("gain", paramWire (var "gain") .gain .additive)]⟩
  | .biquadFilter =>
    ⟨[make "filter" "createBiquadFilter" [],
        .set (.member (var "filter") "type") (choice "filterType")],
      [("signal", var "filter")],
      [("signal", .object (var "filter")),
        ("frequency", paramWire (var "filter") .frequency .additive),
        ("q", paramWire (var "filter") .q .additive),
        ("gain", paramWire (var "filter") .gain .additive)]⟩
  | .delay =>
    ⟨[make "delay" "createDelay" [.number (Scalar.greatest (panel.number "maxDelay") 1.0)]],
      [("signal", var "delay")],
      [("signal", .object (var "delay")),
        ("delayTime", paramWire (var "delay") .delayTime .override)]⟩
  | .clip =>
    let amp : α := panel.number "amp"
    ⟨[make "pre" "createGain" [],
        .setValue (.member (var "pre") "gain") (.number ((1.0 : α) / amp)),
        make "shaper" "createWaveShaper" [],
        .set (.member (var "shaper") "curve")
          (.construct "Float32Array" [.list [.number (-amp), .number amp]]),
        connect (var "pre") (var "shaper")],
      [("signal", var "shaper")], [("signal", .object (var "pre"))]⟩
  | .dynamicsCompressor =>
    ⟨make "comp" "createDynamicsCompressor" [] :: compressorParams.map fun p =>
        .setValue (.member (var "comp") p.name) (number p.name),
      [("signal", var "comp")], [("signal", .object (var "comp"))]⟩
  | .transpose =>
    ⟨[make "gain" "createGain" [], .setValue (.member (var "gain") "gain") ratio],
      [("signal", var "gain")], [("signal", .object (var "gain"))]⟩
  | .keyboardNote =>
    let osc : Expr α := .name "osc"
    let gate : Expr α := .name "gate"
    ⟨[make "out" "createGain" [],
        .const (role "osc") (.list []),
        .const (role "profile") profile,
        .forItems ["key", "freq"] (.name "NOTE_MAP") true
          [.const "osc" (ctxMake "createOscillator" []),
            .set (.member osc "type") (choice "waveform"),
            .setValue (.member osc "frequency") (.times (.name "freq") ratio),
            .const "gate" (ctxMake "createGain" []),
            .setValue (.member gate "gain") (.number 0.0),
            connect osc gate,
            connect gate (var "out"),
            addSource osc,
            .run (.send (var "osc") "push" [osc]),
            .run (.apply "addVoice" [.name "key", .member gate "gain", var "profile"])]],
      [("signal", var "out")], [("additionalFrequency", .each (var "osc") "frequency")]⟩
  | .keyboardAdsr =>
    ⟨[make "gate" "createGain" [],
        .setValue (.member (var "gate") "gain") (.number 0.0),
        .run (.apply "addVoice" [choice "keyCode", .member (var "gate") "gain", profile])],
      [("signal", var "gate")], [("signal", .object (var "gate"))]⟩
  | .audioOutput => ⟨[], [], [("signal", .object (.name "master"))]⟩
  | .universalOutput =>
    ⟨[make "out" "createGain" [],
        .setValue (.member (var "out") "gain") (number "gain"),
        connect (var "out") (.name "master"),
        make "scope" "createAnalyser" [],
        make "spectrum" "createAnalyser" [],
        connect (var "out") (var "scope"),
        connect (var "out") (var "spectrum")],
      [], [("signal", .object (var "out"))]⟩
  | .timeVisualizer | .frequencyVisualizer | .consoleDebugger =>
    ⟨[.comment "display only"], [], [("signal", .dropped)]⟩

/-- Sets the parameters of unconnected sockets to their inline values. -/
def inlineValues (g : Graph α) (node : Node α) (block : Block α) : List (Stmt α) :=
  node.kind.inputs.filterMap fun socket =>
    match socket.inline, block.wire? socket.name with
    | some control, some (.param path _) =>
      if g.isConnected node.id socket.name then none
      else some (.setValue path (.number (node.panel.number control)))
    | _, _ => none

def heading (node : Node α) : Stmt α :=
  .comment (node.kind.tag ++ " " ++ Json.quoted node.id)

/-- The block of the node at a place of a graph. -/
def blockOf (g : Graph α) (noiseSeconds : α) (node : Node α) (place : Nat) : Block α :=
  let block := nodeBlock ("n" ++ toString (place + 1)) noiseSeconds node.panel
  { block with
    statements := heading node :: block.statements ++ inlineValues g node block }

end Patchbay.Program
