import NodeScript.Graph.Basic

/-!
Edits of a graph. Each either gives the edited graph or the reason why it cannot be made. Links
made here join pins of one kind, a Logic output drives one node and a Value input reads one
source, so linking such a pin again replaces its link.
-/
namespace NodeScript.Graph

/-- The first identifier from `hint` upwards that is not zero and not in use. Among one more
candidates than excluded identifiers one is free. -/
def freshUuid (g : Graph) (hint : Uuid) : Uuid :=
  (((List.range (g.nodes.length + 2)).map fun offset => hint + offset.toUInt64).find?
    fun uuid => uuid != 0 && (g.node? uuid).isNone).getD hint

/-- Places a node, and gives its identifier. A second Start node is not placed; the identifier is
then that of the present one. -/
def add (g : Graph) (kind : NodeKind) (position : Position) (hint : Uuid) : Graph × Uuid :=
  if kind.type = .start then (g, g.start.uuid)
  else
    let uuid := g.freshUuid hint
    (⟨g.nodes ++ [⟨uuid, kind, position⟩], g.links⟩, uuid)

/-- Changes a node in place. -/
def modify (g : Graph) (uuid : Uuid) (change : Node → Node) : Graph :=
  ⟨g.nodes.map fun node => if node.uuid == uuid then change node else node, g.links⟩

/-- Replaces the properties of a node. Its type is fixed. -/
def setKind (g : Graph) (uuid : Uuid) (kind : NodeKind) : Except GraphError Graph :=
  match g.node? uuid with
  | none => .error (.nodeNotFound uuid)
  | some node =>
    if node.type = kind.type then .ok (g.modify uuid fun node => ⟨node.uuid, kind, node.position⟩)
    else .error (.typeChange uuid node.type kind.type)

def setPosition (g : Graph) (uuid : Uuid) (position : Position) : Except GraphError Graph :=
  match g.node? uuid with
  | none => .error (.nodeNotFound uuid)
  | some _ => .ok (g.modify uuid fun node => ⟨node.uuid, node.kind, position⟩)

/-- Removes a node with all links that touch it, and gives the node. -/
def remove (g : Graph) (uuid : Uuid) : Except GraphError (Graph × Node) :=
  match g.node? uuid with
  | none => .error (.nodeNotFound uuid)
  | some node =>
    if node.type = .start then .error .cannotRemoveStart
    else
      .ok (⟨g.nodes.eraseP fun other => other.uuid == uuid,
        g.links.filter fun link => link.fromNode != uuid && link.toNode != uuid⟩, node)

/-- Whether an older link has to give way to a new one of the given kind. -/
def replaces (kind : PinKind) (new old : Link) : Bool :=
  match kind with
  | .logic => old.fromNode == new.fromNode && old.fromPin == new.fromPin
  | .value => old.toNode == new.toNode && old.toPin == new.toPin

def link (g : Graph) (new : Link) : Except GraphError Graph := do
  let source ← g.checkPin .output new.fromNode new.fromPin
  let target ← g.checkPin .input new.toNode new.toPin
  if source = target then
    pure ⟨g.nodes, (g.links.filter fun old => !replaces source new old) ++ [new]⟩
  else throw (.kindMismatch source target)

/-- Removes all copies of a link; the flag tells whether there was one. -/
def unlink (g : Graph) (link : Link) : Graph × Bool :=
  (⟨g.nodes, g.links.filter fun other => other != link⟩, g.links.contains link)

end NodeScript.Graph
