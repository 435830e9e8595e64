import NodeScript.Graph.Basic

/-!
What the parts of a graph say, apart from any program: the number that a Value input reads and the
length of a pause. Both the interpretation of a graph and the code of a graph are stated with it.
-/
namespace NodeScript

/-- What a Value input reads. -/
inductive Input
  | constant (value : Int64)
  /-- The last result of a Function node. -/
  | result (node : Uuid)
  deriving DecidableEq, Repr

/-- The first link into a Value input counts. It reads the number of a Value node or, from the
second output of a Function node, the last result; anything else reads as zero. -/
def Graph.input (g : Graph) (node : Uuid) (pin : UInt16) : Input :=
  match g.linkInto? node pin with
  | none => .constant 0
  | some link =>
    match (g.node? link.fromNode).map Node.kind with
    | some (.value number) => .constant (Int64.ofNat number.toNat)
    | some (.function _ _) => if link.fromPin = 1 then .result link.fromNode else .constant 0
    | _ => .constant 0

/-- The milliseconds that a Wait node pauses for, capped where a signed word ends. -/
def pauseLength (time : Binary32) : Int64 :=
  Int64.ofNat (min (waitMillis time).toNat 0x7FFFFFFFFFFFFFFF)

end NodeScript
