import NodeScript.Graph.Edit

/-!
Editing sessions: a graph is kept in one place and changed there, one edit after the other. An edit
that fails tells why, and the session goes on with the graph as the edit has left it.
-/
namespace NodeScript

/-- A program that changes the graph of a session. What it has changed when it fails stays so. -/
abbrev Session := EStateM GraphError Graph

namespace Session

def checkPin (side : Side) (uuid : Uuid) (pin : UInt16) : Session PinKind := do
  match (← get).checkPin side uuid pin with
  | .ok kind => pure kind
  | .error cause => throw cause

/-- Places a node, unless that would be a second Start node, and gives its identifier. -/
def add (kind : NodeKind) (position : Position) (hint : Uuid) : Session Uuid := do
  let g ← get
  if kind.type = .start then pure g.start.uuid
  else
    let uuid := g.freshUuid hint
    modify fun g => ⟨g.nodes ++ [⟨uuid, kind, position⟩], g.links⟩
    pure uuid

def setKind (uuid : Uuid) (kind : NodeKind) : Session Unit := do
  match (← get).node? uuid with
  | none => throw (.nodeNotFound uuid)
  | some node =>
    if node.type = kind.type then
      modify fun g => g.modify uuid fun node => ⟨node.uuid, kind, node.position⟩
    else throw (.typeChange uuid node.type kind.type)

def setPosition (uuid : Uuid) (position : Position) : Session Unit := do
  match (← get).node? uuid with
  | none => throw (.nodeNotFound uuid)
  | some _ => modify fun g => g.modify uuid fun node => ⟨node.uuid, node.kind, position⟩

/-- Drops the links that touch a node, then the node, and gives the node. -/
def remove (uuid : Uuid) : Session Node := do
  match (← get).node? uuid with
  | none => throw (.nodeNotFound uuid)
  | some node =>
    if node.type = .start then throw .cannotRemoveStart
    else
      modify fun g =>
        ⟨g.nodes, g.links.filter fun link => link.fromNode != uuid && link.toNode != uuid⟩
      modify fun g => ⟨g.nodes.eraseP fun other => other.uuid == uuid, g.links⟩
      pure node

/-- Drops the links that have to give way, then adds the new one. -/
def link (new : Link) : Session Unit := do
  let source ← checkPin .output new.fromNode new.fromPin
  let target ← checkPin .input new.toNode new.toPin
  if source = target then
    modify fun g => ⟨g.nodes, g.links.filter fun old => !Graph.replaces source new old⟩
    modify fun g => ⟨g.nodes, g.links ++ [new]⟩
  else throw (.kindMismatch source target)

/-- Drops all copies of a link; there was one if fewer links are left. -/
def unlink (old : Link) : Session Bool := do
  let before := (← get).links.length
  modify fun g => ⟨g.nodes, g.links.filter fun other => other != old⟩
  pure ((← get).links.length != before)

end Session

/-- An edit with its arguments. -/
inductive Edit
  /-- Places a node with the properties that its type has by default. -/
  | addDefault (type : NodeType) (position : Position) (hint : Uuid)
  | add (kind : NodeKind) (position : Position) (hint : Uuid)
  | setKind (uuid : Uuid) (kind : NodeKind)
  | setPosition (uuid : Uuid) (position : Position)
  | remove (uuid : Uuid)
  | link (new : Link)
  | unlink (old : Link)
  deriving DecidableEq, Repr

/-- What an edit gives back. -/
inductive Answer
  | done
  | placed (uuid : Uuid)
  | removed (node : Node)
  | unlinked (found : Bool)
  deriving DecidableEq, Repr

/-- Makes an edit. -/
def Edit.perform : Edit → Session Answer
  | addDefault type position hint => .placed <$> Session.add (.ofType type) position hint
  | add kind position hint => .placed <$> Session.add kind position hint
  | setKind uuid kind => (fun _ => .done) <$> Session.setKind uuid kind
  | setPosition uuid position => (fun _ => .done) <$> Session.setPosition uuid position
  | remove uuid => .removed <$> Session.remove uuid
  | link new => (fun _ => .done) <$> Session.link new
  | unlink old => .unlinked <$> Session.unlink old

end NodeScript
