import NodeScript.Graph.Error
import NodeScript.Graph.Kind

/-!
Graphs of nodes and directed links between their pins, and the questions asked about them.
`Graph.ofParts` admits exactly the graphs with distinct identifiers, one Start node and links
between pins that exist; it does not compare the kinds of linked pins.
-/
namespace NodeScript

abbrev Uuid := UInt64

structure Position where
  x : Binary32
  y : Binary32
  deriving DecidableEq, Repr

def Position.origin : Position := ⟨.zero, .zero⟩

/-- Equality as a pair of numbers. -/
def Position.same (a b : Position) : Bool := a.x.same b.x && a.y.same b.y

/-- A node placed in a graph. -/
structure Node where
  uuid : Uuid
  kind : NodeKind
  position : Position
  deriving DecidableEq, Repr

def Node.type (node : Node) : NodeType := node.kind.type

def Node.same (a b : Node) : Bool :=
  a.uuid == b.uuid && a.kind.same b.kind && a.position.same b.position

/-- A connection from an output pin to an input pin. -/
structure Link where
  fromNode : Uuid
  fromPin : UInt16
  toNode : Uuid
  toPin : UInt16
  deriving DecidableEq, Repr

structure Graph where
  nodes : List Node
  links : List Link
  deriving DecidableEq, Repr

namespace Graph

/-- A graph of a Start node alone. -/
def single (start : Uuid) : Graph := ⟨[⟨start, .start, .origin⟩], []⟩

def node? (g : Graph) (uuid : Uuid) : Option Node := g.nodes.find? fun node => node.uuid == uuid

/-- The Start node. A graph without one has a detached Start node that nothing is linked to. -/
def start (g : Graph) : Node :=
  (g.nodes.find? fun node => node.type == .start).getD ⟨0, .start, .origin⟩

def pinKind? (g : Graph) (side : Side) (uuid : Uuid) (pin : UInt16) : Option PinKind :=
  (g.node? uuid).bind fun node => (node.type.pin? side pin).map (·.kind)

/-- The kind of a pin that a link names. -/
def checkPin (g : Graph) (side : Side) (uuid : Uuid) (pin : UInt16) : Except GraphError PinKind :=
  match g.node? uuid with
  | none => .error (.nodeNotFound uuid)
  | some node =>
    match node.type.pin? side pin with
    | none => .error (.pinOutOfRange uuid side pin)
    | some found => .ok found.kind

/-- All links that leave an output pin, in link order. -/
def linksFrom (g : Graph) (uuid : Uuid) (pin : UInt16) : List Link :=
  g.links.filter fun link => link.fromNode == uuid && link.fromPin == pin

/-- The first link that arrives at an input pin. -/
def linkInto? (g : Graph) (uuid : Uuid) (pin : UInt16) : Option Link :=
  g.links.find? fun link => link.toNode == uuid && link.toPin == pin

/-- The node that an output pin leads to: of several links the first counts. -/
def successor? (g : Graph) (uuid : Uuid) (pin : UInt16) : Option Uuid :=
  (g.linksFrom uuid pin).head?.map (·.toNode)

/-- The number of links that arrive at Logic inputs of a node. -/
def logicInDegree (g : Graph) (uuid : Uuid) : Nat :=
  (g.links.filter fun link =>
    link.toNode == uuid && g.pinKind? .input link.toNode link.toPin == some .logic).length

/-- Equality with coordinates and times compared as numbers. -/
def same (a b : Graph) : Bool :=
  a.nodes.length == b.nodes.length && (a.nodes.zip b.nodes).all (fun (x, y) => x.same y)
    && a.links == b.links

/-- The first identifier that repeats an earlier one. -/
def firstRepeated? (seen : List Uuid) : List Uuid → Option Uuid
  | [] => none
  | uuid :: rest => if uuid ∈ seen then some uuid else firstRepeated? (uuid :: seen) rest

/-- Checks both ends of every link, in link order. -/
def checkLinks (g : Graph) : List Link → Except GraphError Unit
  | [] => .ok ()
  | link :: rest => do
    let _ ← g.checkPin .output link.fromNode link.fromPin
    let _ ← g.checkPin .input link.toNode link.toPin
    checkLinks g rest

/-- Assembles a graph. Repeated identifiers are reported before the number of Start nodes, and
that before the first link with a missing end. -/
def ofParts (nodes : List Node) (links : List Link) : Except GraphError Graph := do
  match firstRepeated? [] (nodes.map (·.uuid)) with
  | some uuid => throw (.duplicateUuid uuid)
  | none => pure ()
  let starts := (nodes.filter fun node => node.type == .start).length
  if starts ≠ 1 then throw (.startCount starts)
  let g : Graph := ⟨nodes, links⟩
  g.checkLinks links
  pure g

end Graph

end NodeScript
