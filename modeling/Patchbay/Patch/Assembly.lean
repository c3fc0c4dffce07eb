import Patchbay.Patch.Blueprint
/-!
# Patches

Building a graph on a rack. Every sink is built, and before any node the nodes that feed it; what
reaches no sink is not built. A node is built once however many connections leave it, and a node
that feeds itself through others is a fault. When building fails, everything that was created for
it is released.
-/

namespace Patchbay

/-- A graph as it was built. -/
structure Patch (α : Type) where
  /-- The nodes that were built, in the order of the graph. -/
  parts : List (NodeId × Part α)
  /-- The primitives created for them, in the order of creation. -/
  primitives : List (PrimitiveId × Family)

namespace Patch

variable {α : Type}

def part? (p : Patch α) (id : NodeId) : Option (Part α) :=
  (p.parts.find? (·.1 == id)).map (·.2)

def ids (p : Patch α) : List PrimitiveId := p.primitives.map (·.1)

/-- The primitives that sound once they are started. -/
def sources (p : Patch α) : List PrimitiveId :=
  (p.primitives.filter (·.2.isSource)).map (·.1)

def counts (p : Patch α) : List (Family × Nat) := Rack.countFamilies (p.primitives.map (·.2))

/-- The analysers with the nodes they belong to, in the order of the graph. -/
def scopes (p : Patch α) : List (NodeId × Domain × PrimitiveId) :=
  p.parts.flatMap fun (id, part) => part.scopes.map fun scope => (id, scope)

/-- What is missing at the source of a connection. -/
inductive Gap where
  | node
  | output
deriving DecidableEq, Repr

def Gap.reason : Gap → String
  | .node => "source node missing"
  | .output => "source output not built"

/-- Why a graph cannot be built. -/
inductive Fault where
  | cycle (id : NodeId)
  | dangling (c : Connection) (gap : Gap)
  | rejected (rejection : Rejection)
  | refused (refusal : Refusal)
  /-- More nodes feed each other in a row than building may follow. -/
  | tooDeep (id : NodeId)

def Fault.message : Fault → String
  | .cycle id => "build failed: cycle detected through node " ++ id
  | .dangling c gap => "build failed: dangling connection " ++ c.text ++ ": " ++ gap.reason
  | .rejected r => "build failed: " ++ r.message
  | .refused r => "build failed: " ++ r.message
  | .tooDeep id => "build failed: nested too deeply at node " ++ id

end Patch

/-- A graph being built: the rack, the voices bound so far, the primitives created so far and the
nodes finished so far. -/
structure Assembly (α : Type) where
  rack : Rack α
  voicing : Voicing α
  made : List (PrimitiveId × Family)
  parts : List (NodeId × Part α)

namespace Assembly

variable {α : Type}

/-- A fault, and how far the assembly had come. -/
structure Stopped (α : Type) where
  fault : Patch.Fault
  reached : Assembly α

def part? (a : Assembly α) (id : NodeId) : Option (Part α) :=
  (a.parts.find? (·.1 == id)).map (·.2)

section

variable [Scalar α]

/-- Carries out one step. -/
def runStep (a : Assembly α) : Step α → Except (Stopped α) (Assembly α)
  | .create setup =>
    match a.rack.create setup with
    | .ok (id, rack) => .ok { a with rack, made := a.made ++ [(id, setup.family)] }
    | .error refusal => .error ⟨.refused refusal, a⟩
  | .connect source inlet => .ok { a with rack := a.rack.connect source inlet }
  | .setValue dial value => .ok { a with rack := a.rack.setValue dial value }
  | .register profile => .ok { a with voicing := a.voicing.register profile }
  | .bind key voice => .ok { a with voicing := a.voicing.bind key voice }

/-- The place where the next node is built. -/
def site (a : Assembly α) (master : PrimitiveId) (noise : Noise.Source α)
    (inputs : String → List PrimitiveId) : Site α where
  next := a.rack.primitives.size
  master := master
  sampleRate := a.rack.sampleRate
  noise := noise
  profiles := a.voicing.profiles.length
  inputs := inputs

/-- The primitive behind the source of a connection, once the source is built. -/
def handle? (a : Assembly α) (c : Connection) : Option PrimitiveId :=
  (a.part? c.source).bind (·.output? c.output)

/-- The primitives that feed a socket of a node. -/
def feeds (a : Assembly α) (g : Graph α) (id : NodeId) (socket : String) : List PrimitiveId :=
  (g.feeding id socket).filterMap a.handle?

/-- Builds a node whose inputs are built. -/
def buildNode (g : Graph α) (master : PrimitiveId) (noise : Noise.Source α) (node : Node α)
    (a : Assembly α) : Except (Stopped α) (Assembly α) :=
  match Kind.blueprint node.panel (a.site master noise (a.feeds g node.id)) with
  | .error rejection => .error ⟨.rejected rejection, a⟩
  | .ok plan => do
    let a ← plan.steps.foldlM runStep a
    return { a with parts := a.parts ++ [(node.id, plan.part)] }

/-- The connections into a node, socket by socket. -/
def supplies (g : Graph α) (node : Node α) : List Connection :=
  node.kind.inputs.flatMap fun s => g.feeding node.id s.name

/-- Builds the node that a connection comes from, in the way given for nodes. -/
def follow (g : Graph α) (build : Node α → Assembly α → Except (Stopped α) (Assembly α))
    (a : Assembly α) (c : Connection) : Except (Stopped α) (Assembly α) :=
  match g.node? c.source with
  | none => .error ⟨.dangling c .node, a⟩
  | some source => do
    let a ← build source a
    if (a.handle? c).isSome then .ok a else .error ⟨.dangling c .output, a⟩

/-- Builds a node and before it all that feeds it. `path` holds the nodes whose inputs are being
built, each feeding the one before it, and `depth` bounds how many may still be added to them. -/
def resolve (g : Graph α) (master : PrimitiveId) (noise : Noise.Source α) :
    (depth : Nat) → (path : List NodeId) → Node α → Assembly α →
    Except (Stopped α) (Assembly α)
  | 0, _, node, a => .error ⟨.tooDeep node.id, a⟩
  | depth + 1, path, node, a =>
    if (a.part? node.id).isSome then .ok a
    else if node.id ∈ path then .error ⟨.cycle node.id, a⟩
    else do
      let a ← (supplies g node).foldlM
        (follow g (resolve g master noise depth (node.id :: path))) a
      buildNode g master noise node a

/-- Builds every sink of a graph, in the order of the graph. -/
def resolveSinks (g : Graph α) (master : PrimitiveId) (noise : Noise.Source α) (depth : Nat)
    (a : Assembly α) : Except (Stopped α) (Assembly α) :=
  g.sinks.foldlM (fun a sink => resolve g master noise depth [] sink a) a

/-- The finished patch, its nodes in the order of the graph. -/
def finish (g : Graph α) (a : Assembly α) : Patch α where
  parts := g.nodes.filterMap fun n => (a.part? n.id).map fun part => (n.id, part)
  primitives := a.made

end

end Assembly

/-- The outcome of building a graph: the patch or the fault, and in either case the rack and the
voices that were bound. -/
structure BuildResult (α : Type) where
  outcome : Except Patch.Fault (Patch α)
  rack : Rack α
  voicing : Voicing α

/-- Builds a graph on a rack, adding voices to a voicing, and following at most `depth` nodes that
feed each other in a row. -/
def Graph.buildWithin {α : Type} [Scalar α] (g : Graph α) (depth : Nat) (master : PrimitiveId)
    (noise : Noise.Source α) (rack : Rack α) (voicing : Voicing α) : BuildResult α :=
  match Assembly.resolveSinks g master noise depth ⟨rack, voicing, [], []⟩ with
  | .ok a => ⟨.ok (a.finish g), a.rack, a.voicing⟩
  | .error stopped =>
    let a := stopped.reached
    ⟨.error stopped.fault, a.rack.releaseAll (a.made.map (·.1)), a.voicing⟩

/-- Builds a graph on a rack, adding voices to a voicing. A row of nodes in which none comes twice
is no longer than the graph, and the next node is where a circle shows. -/
def Graph.build {α : Type} [Scalar α] (g : Graph α) (master : PrimitiveId)
    (noise : Noise.Source α) (rack : Rack α) (voicing : Voicing α) : BuildResult α :=
  g.buildWithin (g.nodes.length + 1) master noise rack voicing

end Patchbay
