import Patchbay.Graph.Panel
/-!
# Graphs

What is edited: nodes with their panels, connections between their sockets, and comments. Every
edit either succeeds as a whole or is refused with a fault. The names given to new nodes and
comments count upwards and skip names that are taken, so that none is given twice.
-/

namespace Patchbay

abbrev NodeId := String

abbrev CommentId := String

structure Node (α : Type) where
  id : NodeId
  panel : Panel α

def Node.kind {α : Type} (n : Node α) : Kind := n.panel.kind

/-- A connection from an output socket to an input socket. -/
structure Connection where
  source : NodeId
  output : String
  target : NodeId
  input : String
deriving DecidableEq, Repr

def Connection.text (c : Connection) : String :=
  c.source ++ "." ++ c.output ++ " → " ++ c.target ++ "." ++ c.input

def Connection.touches (c : Connection) (id : NodeId) : Bool := c.source == id || c.target == id

inductive Comment.Style where
  | inline
  | frame
deriving DecidableEq, Repr

structure Comment where
  id : CommentId
  text : String
  style : Comment.Style
  /-- The nodes that the comment is about. -/
  links : List NodeId
deriving DecidableEq, Repr

structure Graph (α : Type) where
  nodes : List (Node α)
  /-- The place of each node among the nodes, by its name. -/
  places : List (NodeId × Nat)
  connections : List Connection
  comments : List Comment
  /-- The number in the last name given to a node. -/
  lastNode : Nat
  /-- The number in the last name given to a comment. -/
  lastComment : Nat

namespace Graph

/-- Why an edit is refused. -/
inductive Fault where
  | nodeNotFound (id : NodeId)
  | socketNotFound (node : NodeId) (socket : String) (direction : Direction)
  | socketFull (node : NodeId) (socket : String)
  | duplicateConnection (c : Connection)
  | connectionNotFound (c : Connection)
  | duplicateNode (id : NodeId)
  | commentNotFound (id : CommentId)
deriving DecidableEq, Repr

def Fault.message : Fault → String
  | .nodeNotFound id => "node " ++ id ++ " not found"
  | .socketNotFound node socket direction =>
    "node " ++ node ++ " has no " ++ direction.name ++ " socket '" ++ socket ++ "'"
  | .socketFull node socket =>
    "input '" ++ socket ++ "' on node " ++ node ++ " accepts a single connection"
  | .duplicateConnection c => "connection " ++ c.text ++ " already exists"
  | .connectionNotFound c => "connection " ++ c.text ++ " not found"
  | .duplicateNode id => "node id " ++ id ++ " is already in use"
  | .commentNotFound id => "comment " ++ id ++ " not found"

/-- Why a control is not set: there is no such node, or the value is rejected. -/
inductive SetFault where
  | graph (fault : Fault)
  | rejected (rejection : Rejection)

variable {α : Type}

def empty : Graph α := ⟨[], [], [], [], 0, 0⟩

/-! ## Nodes -/

/-- The place of a node among the nodes. -/
def position? (g : Graph α) (id : NodeId) : Option Nat := g.places.lookup id

def hasNode (g : Graph α) (id : NodeId) : Bool := (g.position? id).isSome

/-- A node with its place. -/
def located? (g : Graph α) (id : NodeId) : Option (Nat × Node α) := do
  let place ← g.position? id
  let node ← g.nodes[place]?
  return (place, node)

def node? (g : Graph α) (id : NodeId) : Option (Node α) := (g.located? id).map (·.2)

def sinks (g : Graph α) : List (Node α) := g.nodes.filter (·.kind.isSink)

/-- The first number above `last` whose name is free, looking at no more than `tries` names. -/
def nextFree (taken : Nat → Bool) : Nat → Nat → Nat
  | 0, last => last + 1
  | tries + 1, last => if taken (last + 1) then nextFree taken tries (last + 1) else last + 1

def nodeName (n : Nat) : NodeId := "n" ++ toString n

/-- Puts a node at the end. -/
def push (g : Graph α) (node : Node α) : Graph α :=
  { g with nodes := g.nodes ++ [node], places := (node.id, g.nodes.length) :: g.places }

/-- The places of nodes in their order. -/
def placesOf (nodes : List (Node α)) : List (NodeId × Nat) :=
  nodes.zipIdx.map fun (node, place) => (node.id, place)

/-- Appends a node whose name is free. -/
def insert (g : Graph α) (node : Node α) : Except Fault (Graph α) :=
  if g.hasNode node.id then .error (.duplicateNode node.id) else .ok (g.push node)

/-- Adds a node of a kind under a new name. As many names as there are nodes can be taken. -/
def addNode [Scalar α] (g : Graph α) (kind : Kind) : NodeId × Graph α :=
  let n := nextFree (g.hasNode ∘ nodeName) g.nodes.length g.lastNode
  (nodeName n, { g with lastNode := n }.push ⟨nodeName n, .standard kind⟩)

def addNodeNamed [Scalar α] (g : Graph α) (id : NodeId) (kind : Kind) : Except Fault (Graph α) :=
  g.insert ⟨id, .standard kind⟩

/-- Removes a node, the connections that touch it and the links of comments to it. The nodes after
it move up by one place. -/
def removeNode (g : Graph α) (id : NodeId) : Except Fault (Node α × Graph α) :=
  match g.located? id with
  | none => .error (.nodeNotFound id)
  | some (place, node) => .ok (node, { g with
      nodes := g.nodes.eraseIdx place
      places := placesOf (g.nodes.eraseIdx place)
      connections := g.connections.filter (!·.touches id)
      comments := g.comments.map fun c => { c with links := c.links.filter (· != id) } })

/-- Gives a control of a node a value that it accepts. -/
def setControl [Scalar α] (g : Graph α) (id : NodeId) (key : String) (value : Control.Value α) :
    Except SetFault (Graph α) :=
  match g.located? id with
  | none => .error (.graph (.nodeNotFound id))
  | some (place, node) =>
    match node.panel.set key value with
    | .error rejection => .error (.rejected rejection)
    | .ok panel => .ok { g with nodes := g.nodes.set place { node with panel } }

/-! ## Connections -/

/-- The connections into a node, in the order in which they were made. -/
def connectionsInto (g : Graph α) (id : NodeId) : List Connection :=
  g.connections.filter (·.target == id)

/-- The connections into a socket of a node. -/
def feeding (g : Graph α) (id : NodeId) (socket : String) : List Connection :=
  (g.connectionsInto id).filter (·.input == socket)

def isConnected (g : Graph α) (id : NodeId) (socket : String) : Bool :=
  (g.connectionsInto id).any (·.input == socket)

/-- Why a connection cannot be added, the ends being looked at before what is there already. -/
def connectionFault? (g : Graph α) (c : Connection) : Option Fault :=
  match g.node? c.source with
  | none => some (.nodeNotFound c.source)
  | some source =>
    match source.kind.output? c.output with
    | none => some (.socketNotFound c.source c.output .output)
    | some _ =>
      match g.node? c.target with
      | none => some (.nodeNotFound c.target)
      | some target =>
        match target.kind.input? c.input with
        | none => some (.socketNotFound c.target c.input .input)
        | some socket =>
          if c ∈ g.connections then some (.duplicateConnection c)
          else if socket.multiplicity = .single ∧ g.isConnected c.target c.input then
            some (.socketFull c.target c.input)
          else none

def connect (g : Graph α) (c : Connection) : Except Fault (Graph α) :=
  match g.connectionFault? c with
  | some fault => .error fault
  | none => .ok { g with connections := g.connections ++ [c] }

def disconnect (g : Graph α) (c : Connection) : Except Fault (Graph α) :=
  if c ∈ g.connections then .ok { g with connections := g.connections.erase c }
  else .error (.connectionNotFound c)

/-! ## Comments -/

def comment? (g : Graph α) (id : CommentId) : Option Comment := g.comments.find? (·.id == id)

def commentName (n : Nat) : CommentId := "c" ++ toString n

/-- Puts a comment at the end in place of any of the same name, with its links to nodes that are
there. -/
def insertComment (g : Graph α) (c : Comment) : Graph α :=
  { g with comments :=
      g.comments.filter (·.id != c.id) ++ [{ c with links := c.links.filter g.hasNode }] }

/-- Adds a comment under a new name. -/
def addComment (g : Graph α) (text : String) (style : Comment.Style) (links : List NodeId) :
    CommentId × Graph α :=
  let taken (n : Nat) : Bool := (g.comment? (commentName n)).isSome
  let n := nextFree taken g.comments.length g.lastComment
  (commentName n, { g with lastComment := n }.insertComment ⟨commentName n, text, style, links⟩)

def removeComment (g : Graph α) (id : CommentId) : Except Fault (Comment × Graph α) :=
  match g.comment? id with
  | none => .error (.commentNotFound id)
  | some c => .ok (c, { g with comments := g.comments.filter (·.id != id) })

def setCommentText (g : Graph α) (id : CommentId) (text : String) : Except Fault (Graph α) :=
  if (g.comment? id).isSome then
    .ok { g with comments := g.comments.map fun c => if c.id == id then { c with text } else c }
  else .error (.commentNotFound id)

def clearComments (g : Graph α) : Graph α := { g with comments := [] }

end Graph

end Patchbay
