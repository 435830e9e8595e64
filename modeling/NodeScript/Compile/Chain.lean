import NodeScript.Compile.Error
import NodeScript.Graph.Basic
import NodeScript.Program

/-!
The order in which a graph is laid out, as a tree. A chain follows the first link of each Logic
output; a node with two ways out continues in two arms; a node that has been laid out before, in
this chain or in an earlier one, is jumped to. So every node that is reached is placed once.
-/
namespace NodeScript

/-- What follows on a Logic output. -/
inductive Chain
  /-- The output is not linked. -/
  | stop
  /-- The node has been placed already. -/
  | jump (node : Uuid)
  | step (node : Node) (rest : Chain)
  | branch (node : Node) (first : Chain) (second : Chain)
  deriving DecidableEq, Repr

/-- Whether two outputs of the node lead on. -/
def NodeType.branches : NodeType → Bool
  | .compare | .loop => true
  | _ => false

namespace Chain

/-- A chain that could be laid out, and all nodes placed by then. -/
abbrev Laid := Except CompileError (Chain × List Uuid)

/-- The sources that a node reads have to exist. -/
def checkSources (g : Graph) (asset : String) (node : Node) : Except CompileError Unit :=
  (node.type.valueInputs.filterMap fun pin => g.linkInto? node.uuid pin).forM fun link =>
    if (g.node? link.fromNode).isSome then .ok ()
    else .error (.nodeNotFound asset link.fromNode node.uuid)

/-- Lays out what an output of `source` leads to, given the nodes `placed` so far. Every node on a
path is placed once, so `depth` need not exceed the number of nodes by more than one. -/
def lay (g : Graph) (asset : String) :
    (depth : Nat) → (placed : List Uuid) → (source : Uuid) → (pin : UInt16) → Laid
  | 0, placed, source, _ => .ok (.jump source, placed)
  | depth + 1, placed, source, pin =>
    match g.successor? source pin with
    | none => .ok (.stop, placed)
    | some uuid =>
      if uuid ∈ placed then .ok (.jump uuid, placed)
      else
        match g.node? uuid with
        | none => .error (.nodeNotFound asset uuid source)
        | some node => do
          checkSources g asset node
          let (first, placed) ← lay g asset depth (uuid :: placed) uuid 0
          if node.type.branches then
            let (second, placed) ← lay g asset depth placed uuid 1
            pure (.branch node first second, placed)
          else pure (.step node first, placed)

/-- The chains of the Start outputs that are linked, in the order of the outputs. -/
def layEntries (g : Graph) (asset : String) :
    List Trigger → (placed : List Uuid) → Except CompileError (List (Trigger × Chain))
  | [], _ => .ok []
  | trigger :: rest, placed =>
    if (g.successor? g.start.uuid trigger.pin).isNone then layEntries g asset rest placed
    else do
      let (chain, placed) ← lay g asset (g.nodes.length + 1) placed g.start.uuid trigger.pin
      let others ← layEntries g asset rest placed
      pure ((trigger, chain) :: others)

/-- The layout of a whole graph. -/
def ofGraph (g : Graph) (asset : String) : Except CompileError (List (Trigger × Chain)) :=
  layEntries g asset Trigger.all []

end Chain

end NodeScript
