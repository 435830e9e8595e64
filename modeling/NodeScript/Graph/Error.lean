import NodeScript.Catalog
import NodeScript.Text.Hex

/-!
What can be wrong with a graph, its document or an edit of it, and the wording of each cause.
-/
namespace NodeScript

/-- Why the properties of a node cannot be read. -/
inductive PropsFault
  | malformed
  | compareType (code : Nat)
  deriving DecidableEq, Repr

def PropsFault.message : PropsFault → String
  | .malformed => ""
  | .compareType code => "invalid compare type " ++ toString code

inductive GraphError
  /-- The document is no JSON text of the right shape. -/
  | malformed
  | malformedNode (node : UInt64) (fault : PropsFault)
  | unknownType (node : UInt64) (type : Nat)
  | nodeNotFound (node : UInt64)
  | pinOutOfRange (node : UInt64) (side : Side) (pin : UInt16)
  | kindMismatch (source target : PinKind)
  | duplicateUuid (node : UInt64)
  | startCount (count : Nat)
  | cannotRemoveStart
  | typeChange (node : UInt64) (current requested : NodeType)
  deriving DecidableEq, Repr

def GraphError.message : GraphError → String
  | .malformed => "Failed to parse graph JSON: "
  | .malformedNode node fault =>
    "Failed to parse graph JSON: node " ++ hex64 node ++ ": " ++ fault.message
  | .unknownType node type => "Node " ++ hex64 node ++ " has an unknown type id " ++ toString type
  | .nodeNotFound node => "Node " ++ hex64 node ++ " does not exist in the graph"
  | .pinOutOfRange node side pin =>
    "Node " ++ hex64 node ++ " has no " ++ side.name ++ " pin " ++ toString pin.toNat
  | .kindMismatch source target =>
    "Cannot link a " ++ source.name ++ " pin to a " ++ target.name ++ " pin"
  | .duplicateUuid node => "Node UUID " ++ hex64 node ++ " is used more than once"
  | .startCount count => "Graph must contain exactly one Start node, found " ++ toString count
  | .cannotRemoveStart => "The Start node cannot be removed"
  | .typeChange node current requested =>
    "Node " ++ hex64 node ++ " is a " ++ current.tag ++ " node and cannot become a "
      ++ requested.tag ++ " node"

end NodeScript
