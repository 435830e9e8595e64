import NodeScript.Graph.Basic
import NodeScript.Json.Printer

/-!
Graph documents: JSON texts that hold `nodes`, each with its type number, identifier, position and
the properties of its type, and `links`. Missing properties have the values of a fresh node.
-/
namespace NodeScript

namespace NodeKind

/-- A property that may be missing. -/
def property {α : Type} (members : List (String × Json)) (key : String) (default : α)
    (read : Json → Option α) : Except PropsFault α :=
  match Json.lastMember? key members with
  | none => .ok default
  | some member =>
    match read member with
    | some found => .ok found
    | none => .error .malformed

def wordProperty (bound : Nat) (members : List (String × Json)) (key : String) :
    Except PropsFault Nat :=
  property members key 0 (Json.natBelow? bound)

/-- Reads the properties of a node type; other members are ignored. -/
def ofMembers (type : NodeType) (members : List (String × Json)) : Except PropsFault NodeKind :=
  match type with
  | .start => .ok .start
  | .wait => do
    let time ← property members "time" Binary.zero Json.single?
    pure (.wait time)
  | .deleteObject => do
    let object ← wordProperty UInt16.size members "objectId"
    pure (.deleteObject object.toUInt16)
  | .sendEvent => do
    let object ← wordProperty UInt16.size members "objectId"
    let eventType ← wordProperty UInt16.size members "eventType"
    let eventValue ← wordProperty UInt32.size members "eventValue"
    pure (.sendEvent object.toUInt16 eventType.toUInt16 eventValue.toUInt32)
  | .compare => do
    let code ← wordProperty UInt8.size members "compType"
    match CompareOp.ofCode? code with
    | some op => pure (.compare op)
    | none => throw (.compareType code)
  | .value => do
    let number ← wordProperty UInt16.size members "value"
    pure (.value number.toUInt16)
  | .loop => do
    let count ← wordProperty UInt32.size members "count"
    pure (.loop count.toUInt32)
  | .function => do
    let name ← property members "funcName" "" Json.string?
    let argument ← wordProperty UInt32.size members "arg0"
    pure (.function name argument.toUInt32)

/-- The properties of a node in alphabetical order. A time is written in double precision. -/
def toMembers : NodeKind → List (String × Json)
  | .start => []
  | .wait time => [("time", .double (time.convert .double))]
  | .deleteObject object => [("objectId", .int object.toNat)]
  | .sendEvent object eventType eventValue =>
    [("eventType", .int eventType.toNat), ("eventValue", .int eventValue.toNat),
      ("objectId", .int object.toNat)]
  | .compare op => [("compType", .int op.code)]
  | .value number => [("value", .int number.toNat)]
  | .loop count => [("count", .int count.toNat)]
  | .function name argument => [("arg0", .int argument.toNat), ("funcName", .string name)]

/-- The properties as a text of their own. -/
def propsText (kind : NodeKind) : String := (Json.object kind.toMembers).compact

/-- Reads properties from a text of their own. -/
def ofPropsText (type : NodeType) (text : String) : Except PropsFault NodeKind :=
  match (Json.Tree.parse? text).bind (Json.Tree.value? 0) with
  | some (Json.object members) => ofMembers type members
  | _ => .error .malformed

end NodeKind

namespace Graph

/-- A node as written in a document, before its type and properties are looked at. -/
structure NodeRecord where
  type : Nat
  uuid : Uuid
  position : Position
  members : List (String × Json)

open Json (Tree)

def positionOfTree? : Option Tree → Option Position
  | none => some .origin
  | some (.array [x, y]) => do
    let x ← x.single?
    let y ← y.single?
    pure ⟨x, y⟩
  | some _ => none

/-- A node lies inside the document and its list of nodes. -/
def NodeRecord.ofTree? (tree : Tree) : Option NodeRecord := do
  let (fields, members) ← tree.openRecord? 3 ["type", "uuid", "position"]
  match fields with
  | [some type, some uuid, position] =>
    let type ← type.natBelow? UInt32.size
    let uuid ← uuid.natBelow? UInt64.size
    let position ← positionOfTree? position
    pure ⟨type, uuid.toUInt64, position, members⟩
  | _ => none

def linkOfTree? (tree : Tree) : Option Link := do
  match ← tree.record? ["fromNode", "fromPin", "toNode", "toPin"] with
  | [some fromNode, some fromPin, some toNode, some toPin] =>
    let fromNode ← fromNode.natBelow? UInt64.size
    let fromPin ← fromPin.natBelow? UInt16.size
    let toNode ← toNode.natBelow? UInt64.size
    let toPin ← toPin.natBelow? UInt16.size
    pure ⟨fromNode.toUInt64, fromPin.toUInt16, toNode.toUInt64, toPin.toUInt16⟩
  | _ => none

/-- The entries and links of a document; the list of links may be missing. -/
def partsOfTree? (tree : Tree) : Option (List NodeRecord × List Link) := do
  match ← tree.record? ["nodes", "links"] with
  | [some nodes, links] =>
    let entries ← (← nodes.array?).mapM NodeRecord.ofTree?
    let links ← match links with
      | none => some []
      | some links => (links.array?).bind fun items => items.mapM linkOfTree?
    pure (entries, links)
  | _ => none

def NodeRecord.toNode (entry : NodeRecord) : Except GraphError Node :=
  match NodeType.ofId? entry.type with
  | none => .error (.unknownType entry.uuid entry.type)
  | some type =>
    match NodeKind.ofMembers type entry.members with
    | .error fault => .error (.malformedNode entry.uuid fault)
    | .ok kind => .ok ⟨entry.uuid, kind, entry.position⟩

/-- Reads a document. The whole text has to be well formed before its nodes are looked at, and
these are checked before the graph is assembled. -/
def ofJson (text : String) : Except GraphError Graph :=
  match (Tree.parse? text).bind partsOfTree? with
  | none => .error .malformed
  | some (entries, links) => do
    let nodes ← entries.mapM NodeRecord.toNode
    ofParts nodes links

def nodeJson (node : Node) : Json :=
  .object ([("type", .int node.type.id), ("uuid", .int node.uuid.toNat),
    ("position", .array [.single node.position.x, .single node.position.y])]
    ++ node.kind.toMembers)

def linkJson (link : Link) : Json :=
  .object [("fromNode", .int link.fromNode.toNat), ("fromPin", .int link.fromPin.toNat),
    ("toNode", .int link.toNode.toNat), ("toPin", .int link.toPin.toNat)]

/-- Writes a document. -/
def toJson (g : Graph) : String :=
  (Json.object [("nodes", .array (g.nodes.map nodeJson)),
    ("links", .array (g.links.map linkJson))]).pretty

end Graph

end NodeScript
