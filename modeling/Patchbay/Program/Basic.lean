import Patchbay.Document.Import
import Patchbay.Program.Block
/-!
# Generated programs

A graph as a program that stands alone: it makes the audio objects that building the graph would
make, with every value written in as a literal, wires them, and starts the sources.

A document becomes a program only if all of it can be imported.
-/

namespace Patchbay.Program

open Script

/-- What a program depends on besides the graph. -/
structure Options (α : Type) where
  masterGain : α
  noiseSeconds : α

namespace Options

variable {α : Type} [Scalar α]

def standard : Options α := ⟨1.0, 10.0⟩

/-- With another master gain, brought into `[0, 1]`. -/
def withMasterGain (o : Options α) (gain : α) : Options α :=
  { o with masterGain := Scalar.clamp 0.0 1.0 gain }

def withNoiseSeconds (o : Options α) (seconds : α) : Options α :=
  { o with noiseSeconds := seconds }

end Options

variable {α : Type} [Scalar α]

/-- The audio context, the master chain and the list of sources. -/
def preamble (g : Graph α) (options : Options α) : List (Stmt α) :=
  [.comment ("Generated by resonode: " ++ toString g.nodes.length ++ " nodes, " ++
      toString g.connections.length ++ " connections."),
    .const "ctx" (.construct "AudioContext" []),
    .const "master" (ctxMake "createGain" []),
    .const "masterCompressor" (ctxMake "createDynamicsCompressor" []),
    connect (.name "master") (.name "masterCompressor"),
    connect (.name "masterCompressor") (.member (.name "ctx") "destination"),
    .const "sources" (.list []),
    .setValue (.member (.name "master") "gain") (.number options.masterGain)]

/-- The colours whose functions the program holds, in the order of all colours. -/
def noiseColors (g : Graph α) : List Noise.Color :=
  let used := (g.nodes.filter (·.kind = .noise)).map fun n =>
    (Noise.Color.ofName? (n.panel.choice "noiseType")).getD .white
  let needed := used.flatMap fun color => color :: noiseNeeds color
  Noise.Color.all.filter (· ∈ needed)

def hasKind (g : Graph α) (kind : Kind) : Bool := g.nodes.any (·.kind = kind)

/-- The helpers that a graph needs. -/
def helpers (g : Graph α) : Paragraphs α :=
  ((noiseColors g).map fun color => [noiseHelper color]) ++
    (if hasKind g .keyboardNote || hasKind g .keyboardAdsr then keyboardHelper else []) ++
    (if hasKind g .keyboardNote then [[noteMap]] else [])

/-- The blocks of all nodes, in the order of the graph. -/
def blocks (g : Graph α) (options : Options α) : List (NodeId × Block α) :=
  g.nodes.zipIdx.map fun (node, place) =>
    (node.id, blockOf g options.noiseSeconds node place)

/-- Whether one of the connections drives the same parameter through a socket that replaces its
value. The parameters of one node have different names, and sockets of one name the same. -/
def alreadyReplaced (done : List Connection) (c : Connection) : Bool :=
  done.any fun d => d.target == c.target && d.input == c.input

/-- The statements of one connection, when the connections `done` are wired. A parameter whose
value is replaced starts from zero, which is said once. -/
def wiring (blocks : List (NodeId × Block α)) (done : List Connection) (c : Connection) :
    List (Stmt α) :=
  let block? (id : NodeId) : Option (Block α) := (blocks.find? (·.1 == id)).map (·.2)
  match (block? c.source).bind (·.output? c.output), (block? c.target).bind (·.wire? c.input) with
  | some source, some (.object target) => [connect source target]
  | some source, some (.param path combine) =>
    (if combine.replaces && !alreadyReplaced done c then [.setValue path (.number 0.0)] else []) ++
      [connect source path]
  | some source, some (.each list param) =>
    [.forItems ["p"] list false [connect source (.member (.name "p") param)]]
  | _, _ => []

/-- The statements of connections, in order. -/
def wirings (blocks : List (NodeId × Block α)) (done : List Connection) :
    List Connection → List (Stmt α)
  | [] => []
  | c :: rest => wiring blocks done c ++ wirings blocks (done ++ [c]) rest

/-- Starts the sources, and offers what a page may want to use. -/
def epilogue : Paragraphs α :=
  [[.forItems ["source"] (.name "sources") false [.run (.send (.name "source") "start" [])]],
    [.offer ["ctx", "master", "sources"]]]

/-- The program of a graph. -/
def ofGraph (g : Graph α) (options : Options α) : Paragraphs α :=
  let blocks := blocks g options
  [preamble g options] ++ helpers g ++ blocks.map (·.2.statements) ++
    [.comment "wiring" :: wirings blocks [] g.connections] ++ epilogue

/-- Why a document does not become a program. -/
inductive Fault where
  | node (fault : NodeRecord.Fault)
  | connection (fault : Graph.Fault)

/-- What is wrong with the node or connection. -/
def Fault.cause : Fault → String
  | .node f => f.message
  | .connection f => f.message

def Fault.message (f : Fault) : String := "codegen aborted: " ++ f.cause

/-- The first thing that an import leaves out, nodes before connections. -/
def fault? (report : Document.Report) : Option Fault :=
  match report.failed, report.skipped with
  | (_, f) :: _, _ => some (.node f)
  | [], (_, f) :: _ => some (.connection f)
  | [], [] => none

/-- The program of a document. -/
def ofDocument (d : Document) (options : Options α) : Except Fault (Paragraphs α) :=
  let (g, report) := d.toGraph (α := α)
  match fault? report with
  | some fault => .error fault
  | none => .ok (ofGraph g options)

/-- The text of the program of a document. -/
def textOfDocument (d : Document) (options : Options α) : Except Fault String :=
  (ofDocument d options).map Script.toText

end Patchbay.Program
