import Patchbay.Graph.Basic
/-!
# Documents

The persistent form of a graph: records of its nodes, its connections and its comments. A document
can hold anything of the right shape; whether it fits the catalogue shows when it is imported.

A document is read from text or from a JSON value, and is written with the fields of each record
in a fixed order.
-/

namespace Patchbay

/-- A node as a document holds it. -/
structure NodeRecord where
  id : NodeId
  /-- The tag of the node's kind. -/
  name : String
  data : Json

structure Document where
  nodes : List NodeRecord
  connections : List Connection
  comments : List Comment

namespace Document

def empty : Document := ⟨[], [], []⟩

def node? (d : Document) (id : NodeId) : Option NodeRecord := d.nodes.find? (·.id == id)

/-! ## Reading -/

/-- A text member of a record being read. -/
def textMember {σ : Type} (name : String) (required : Bool) (get : σ → Option String)
    (put : σ → String → σ) : Json.Member σ where
  name := name
  required := required
  present p := (get p).isSome
  read _ outline p := return put p (← Json.asText outline)

/-- A list member of a record being read. -/
def listMember {σ β : Type} (origin : Json.Origin) (name : String)
    (item : Nat → Json.Outline → Except Json.Fault β) (get : σ → Option (List β))
    (put : σ → List β → σ) : Json.Member σ where
  name := name
  required := false
  present p := (get p).isSome
  read depth outline p := return put p (← Json.asList origin item depth outline)

structure NodeDraft where
  id : Option String := none
  name : Option String := none
  data : Option Json := none

def readNode (origin : Json.Origin) (depth : Nat) (outline : Json.Outline) :
    Except Json.Fault NodeRecord := do
  let members : List (Json.Member NodeDraft) :=
    [textMember "id" true (·.id) fun p v => { p with id := some v },
      textMember "name" true (·.name) fun p v => { p with name := some v },
      { name := "data"
        required := false
        present := fun p => p.data.isSome
        read := fun depth outline p =>
          return { p with data := some (← Json.keep origin depth outline) } }]
  let p ← Json.asRecord origin "struct NodeRecord" members {} depth outline
  return ⟨p.id.getD "", p.name.getD "", p.data.getD .null⟩

structure ConnectionDraft where
  source : Option String := none
  output : Option String := none
  target : Option String := none
  input : Option String := none

def readConnection (origin : Json.Origin) (depth : Nat) (outline : Json.Outline) :
    Except Json.Fault Connection := do
  let members : List (Json.Member ConnectionDraft) :=
    [textMember "source" true (·.source) fun p v => { p with source := some v },
      textMember "sourceOutput" true (·.output) fun p v => { p with output := some v },
      textMember "target" true (·.target) fun p v => { p with target := some v },
      textMember "targetInput" true (·.input) fun p v => { p with input := some v }]
  let p ← Json.asRecord origin "struct ConnectionRecord" members {} depth outline
  return ⟨p.source.getD "", p.output.getD "", p.target.getD "", p.input.getD ""⟩

structure CommentDraft where
  id : Option String := none
  links : Option (List String) := none
  text : Option String := none
  style : Option Comment.Style := none

def readComment (origin : Json.Origin) (depth : Nat) (outline : Json.Outline) :
    Except Json.Fault Comment := do
  let members : List (Json.Member CommentDraft) :=
    [textMember "id" true (·.id) fun p v => { p with id := some v },
      listMember origin "links" (fun _ => Json.asText) (·.links) fun p v =>
        { p with links := some v },
      textMember "text" false (·.text) fun p v => { p with text := some v },
      { name := "type"
        required := false
        present := fun p => p.style.isSome
        read := fun depth outline p => return { p with
          style := some (← Json.asVariant origin ("inline", .inline) ("frame", .frame) depth
            outline) } }]
  let p ← Json.asRecord origin "struct CommentRecord" members {} depth outline
  return ⟨p.id.getD "", p.text.getD "", p.style.getD .inline, p.links.getD []⟩

structure Draft where
  nodes : Option (List NodeRecord) := none
  connections : Option (List Connection) := none
  comments : Option (List Comment) := none

def ofOutline (origin : Json.Origin) (outline : Json.Outline) : Except Json.Fault Document := do
  let members : List (Json.Member Draft) :=
    [listMember origin "nodes" (readNode origin) (·.nodes) fun p v => { p with nodes := some v },
      listMember origin "connections" (readConnection origin) (·.connections) fun p v =>
        { p with connections := some v },
      listMember origin "comments" (readComment origin) (·.comments) fun p v =>
        { p with comments := some v }]
  let p ← Json.asRecord origin "struct Document" members {} 0 outline
  return ⟨p.nodes.getD [], p.connections.getD [], p.comments.getD []⟩

/-- Reads a document from a value. -/
def ofJson (value : Json) : Except Json.Fault Document := ofOutline .value (.ofJson value)

/-- Reads a document from a text, which must hold nothing else. -/
def ofText (text : String) : Except Json.Fault Document := do
  let (outline, ended) := Json.outline text
  let document ← ofOutline .text outline
  if ended then .ok document else .error .malformed

/-- The message about a document that cannot be read. -/
def faultMessage : Json.Fault → String
  | .misfit m => "failed to parse document: " ++ m.message
  | .malformed => "failed to parse document"

/-! ## Writing -/

def styleName : Comment.Style → String
  | .inline => "inline"
  | .frame => "frame"

def nodeToJson (n : NodeRecord) : Json :=
  .record [("id", .text n.id), ("name", .text n.name), ("data", n.data)]

def connectionToJson (c : Connection) : Json :=
  .record [("source", .text c.source), ("sourceOutput", .text c.output),
    ("target", .text c.target), ("targetInput", .text c.input)]

def commentToJson (c : Comment) : Json :=
  .record [("id", .text c.id), ("links", .list (c.links.map .text)), ("text", .text c.text),
    ("type", .text (styleName c.style))]

def toJson (d : Document) : Json :=
  .record [("nodes", .list (d.nodes.map nodeToJson)),
    ("connections", .list (d.connections.map connectionToJson)),
    ("comments", .list (d.comments.map commentToJson))]

/-- The text of a document file. -/
def toText (d : Document) : String := d.toJson.pretty

end Document

end Patchbay
