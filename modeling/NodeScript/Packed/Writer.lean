import NodeScript.Checksum
import NodeScript.Diagnostic
import NodeScript.Graph.Basic
import NodeScript.Packed.Payload
import NodeScript.Script

/-!
Packing of a graph: a header, then one record for each node that is reached from Start over the
first links of Logic outputs, in depth-first order. A record names its successors by the distance
in bytes from its own start to theirs. All numbers are written most significant byte first.

The header holds the asset identifier, the stack size and the number of records. A record holds
its type, the number of its successors, their distances, its payload and a zero byte where the
length would be odd.
-/
namespace NodeScript.Packed

def headerLength : Nat := 12

/-- The distance that stands for an output without a successor. -/
def unlinked : Int := -32768

/-- The nodes that the Logic outputs of a node lead to, in the order of the outputs. -/
def successors (g : Graph) (node : Node) : List (Option Uuid) :=
  node.type.logicOutputs.map fun pin => g.successor? node.uuid pin

/-- The nodes reached from the pending ones, each with the node it is reached from, depth first and
each node once. A node has at most three successors, which bounds the number of `visits`. -/
def walk (g : Graph) (asset : String) :
    (visits : Nat) → (pending : List (Uuid × Uuid)) → (seen : List Uuid) →
      Except CompileError (List Node)
  | 0, _, _ => .ok []
  | _, [], _ => .ok []
  | visits + 1, (uuid, source) :: pending, seen =>
    if uuid ∈ seen then walk g asset visits pending seen
    else
      match g.node? uuid with
      | none => .error (.nodeNotFound asset uuid source)
      | some node => do
        let next := ((successors g node).filterMap id).map fun target => (target, uuid)
        let rest ← walk g asset visits (next ++ pending) (uuid :: seen)
        pure (node :: rest)

/-- The nodes of a packed graph in the order of their records. -/
def order (g : Graph) (asset : String) : Except CompileError (List Node) :=
  walk g asset (3 * g.nodes.length + 2) [(g.start.uuid, g.start.uuid)] []

/-- The constant that a Value input reads. Only Value nodes can be packed; all else is zero. -/
def constantInput (g : Graph) (node : Uuid) (pin : UInt16) : Int32 :=
  match (g.linkInto? node pin).bind fun link => g.node? link.fromNode with
  | some source =>
    match source.kind with
    | .value number => Int32.ofNat number.toNat
    | _ => 0
  | none => 0

/-- The payload of a node, where `counters` loops come before it. -/
def payload (g : Graph) (asset : String) (counters : Nat) (node : Node) :
    Except CompileError Payload :=
  match node.kind with
  | .start => .ok .start
  | .wait time => .ok (.wait (min (waitMillis time).toNat 65535).toUInt16)
  | .deleteObject object => .ok (.deleteObject object)
  | .sendEvent object eventType value => .ok (.sendEvent object eventType value)
  | .compare op => .ok (.compare op (constantInput g node.uuid 1) (constantInput g node.uuid 2))
  | .value number => .ok (.value number)
  | .loop count =>
    if counters < 256 then .ok (.loop counters.toUInt8 (min count.toNat 255).toUInt8)
    else .error (.packedOverflow asset node.uuid .counterSlot)
  | .function name argument => .ok (.function (crc32 name) argument)

/-- A record whose successors have no positions yet. -/
structure Outline where
  node : Uuid
  type : NodeType
  successors : List (Option Uuid)
  payload : Payload

/-- The length of a record, made even. -/
def Outline.length (record : Outline) : Nat :=
  let plain := 2 + 2 * record.successors.length + record.payload.size
  plain + plain % 2

/-- The records of nodes in order; loops are numbered as they come. -/
def outlines (g : Graph) (asset : String) :
    (counters : Nat) → List Node → Except CompileError (List Outline)
  | _, [] => .ok []
  | counters, node :: rest => do
    let data ← payload g asset counters node
    let others ← outlines g asset (if node.type = .loop then counters + 1 else counters) rest
    pure (⟨node.uuid, node.type, successors g node, data⟩ :: others)

/-- Each record's node with the position of the record. -/
def positions : (position : Nat) → List Outline → List (Uuid × Nat)
  | _, [] => []
  | position, record :: rest => (record.node, position) :: positions (position + record.length) rest

/-- The distance to a successor, which has to be above the value for none. -/
def distance (asset : String) (places : List (Uuid × Nat)) (node : Uuid) (position : Nat) :
    Option Uuid → Except CompileError Int
  | none => .ok unlinked
  | some target =>
    match places.find? fun place => place.1 == target with
    | none => .ok unlinked
    | some place =>
      let steps : Int := place.2 - position
      if unlinked < steps ∧ steps < 32768 then .ok steps
      else .error (.packedOverflow asset node .successorOffset)

/-- A distance as two bytes, in two's complement. -/
def distanceBytes (steps : Int) : List UInt8 := bigEndian 2 (steps % 65536).toNat

def recordBytes (asset : String) (places : List (Uuid × Nat)) (position : Nat) (record : Outline) :
    Except CompileError (List UInt8) := do
  let steps ← record.successors.mapM (distance asset places record.node position)
  let body :=
    [record.type.id.toUInt8, record.successors.length.toUInt8] ++ steps.flatMap distanceBytes
      ++ record.payload.toBytes
  pure (body ++ List.replicate (body.length % 2) 0)

/-- The records one after the other, the first at `position`. -/
def recordsBytes (asset : String) (places : List (Uuid × Nat)) :
    (position : Nat) → List Outline → Except CompileError (List UInt8)
  | _, [] => .ok []
  | position, record :: rest => do
    let bytes ← recordBytes asset places position record
    let others ← recordsBytes asset places (position + record.length) rest
    pure (bytes ++ others)

/-- The packed form of a graph, with the number of its records. Header fields are those of the
script compiled from the graph. -/
def pack (g : Graph) (script : Script) : Except CompileError (List UInt8 × Nat) := do
  let nodes ← order g script.name
  let records ← outlines g script.name 0 nodes
  if 65535 < records.length then
    throw (.packedOverflow script.name g.start.uuid .recordCount)
  let body ←
    recordsBytes script.name (positions headerLength records) headerLength records
  pure (bigEndian 8 script.uuid.toNat ++ bigEndian 2 script.stackSize.toNat
    ++ bigEndian 2 records.length ++ body, records.length)

/-- Packs a graph and reports the size of the result. -/
def packLogged (g : Graph) (script : Script) : Logged (Except CompileError (List UInt8)) :=
  match pack g script with
  | .error error => ⟨.error error, []⟩
  | .ok (bytes, records) => ⟨.ok bytes, [.packed script.name records bytes.length]⟩

end NodeScript.Packed
