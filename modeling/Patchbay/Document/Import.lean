import Patchbay.Document.Basic
/-!
# Documents and graphs

Importing a document keeps what fits and reports the rest: a record whose kind, data or name does
not fit is left out, and so is a connection that the nodes do not allow. Exporting writes every
node, connection and comment of a graph.
-/

namespace Patchbay

/-- Why the record of a node is left out. -/
inductive NodeRecord.Fault where
  | unsupported (name : String)
  | rejected (rejection : Rejection)
  | graph (fault : Graph.Fault)

def NodeRecord.Fault.message : NodeRecord.Fault → String
  | .unsupported name => "unsupported node kind '" ++ name ++ "'"
  | .rejected r => r.message
  | .graph f => f.message

namespace Document

/-- What an import kept and what it left out. -/
structure Report where
  nodes : Nat := 0
  connections : Nat := 0
  failed : List (NodeId × NodeRecord.Fault) := []
  skipped : List (Connection × Graph.Fault) := []

def Report.isClean (r : Report) : Bool := r.failed.isEmpty && r.skipped.isEmpty

variable {α : Type} [Scalar α]

/-- The node that a record describes. -/
def nodeOf (record : NodeRecord) : Except NodeRecord.Fault (Node α) :=
  match Kind.ofTag? record.name with
  | none => .error (.unsupported record.name)
  | some kind =>
    match Panel.ofData kind record.data with
    | .error rejection => .error (.rejected rejection)
    | .ok panel => .ok ⟨record.id, panel⟩

def importNode (state : Graph α × Report) (record : NodeRecord) : Graph α × Report :=
  let (g, report) := state
  match (do (g.insert (← nodeOf record)).mapError NodeRecord.Fault.graph) with
  | .ok g => (g, { report with nodes := report.nodes + 1 })
  | .error fault => (g, { report with failed := report.failed ++ [(record.id, fault)] })

def importConnection (state : Graph α × Report) (c : Connection) : Graph α × Report :=
  let (g, report) := state
  match g.connect c with
  | .ok g => (g, { report with connections := report.connections + 1 })
  | .error fault => (g, { report with skipped := report.skipped ++ [(c, fault)] })

/-- Imports a document into an empty graph: the nodes first, then the connections among them, then
the comments. -/
def toGraph (d : Document) : Graph α × Report :=
  let nodes := d.nodes.foldl importNode (Graph.empty, {})
  let (g, report) := d.connections.foldl importConnection nodes
  (d.comments.foldl Graph.insertComment g, report)

end Document

/-- The document that holds exactly a graph. -/
def Graph.toDocument {α : Type} [Scalar α] (g : Graph α) : Document where
  nodes := g.nodes.map fun n => ⟨n.id, n.kind.tag, n.panel.toData⟩
  connections := g.connections
  comments := g.comments

end Patchbay
