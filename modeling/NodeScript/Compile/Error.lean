import NodeScript.Graph.Error

/-!
Causes that stop the build of one graph asset, with their wording.
-/
namespace NodeScript

/-- Storage with a limited number of slots. -/
inductive SlotKind
  | global
  | frame
  deriving DecidableEq, Repr

def SlotKind.name : SlotKind → String
  | .global => "global"
  | .frame => "local"

/-- A quantity that a packed record stores in few bits. -/
inductive PackedField
  | recordCount
  | counterSlot
  | successorOffset
  deriving DecidableEq, Repr

def PackedField.name : PackedField → String
  | .recordCount => "record count"
  | .counterSlot => "counter slot"
  | .successorOffset => "successor offset"

inductive CompileError
  | graph (asset : String) (source : GraphError)
  | nodeNotFound (asset : String) (missing : UInt64) (source : UInt64)
  | tooManySlots (asset : String) (node : UInt64) (what : SlotKind) (limit : Nat)
  | packedOverflow (asset : String) (node : UInt64) (what : PackedField)
  deriving DecidableEq, Repr

/-- Every message names the asset first. -/
def CompileError.message : CompileError → String
  | .graph asset source => "Asset '" ++ asset ++ "': " ++ source.message
  | .nodeNotFound asset missing source =>
    "Asset '" ++ asset ++ "': node " ++ hex64 missing ++ " not found, required by a link from node "
      ++ hex64 source
  | .tooManySlots asset node what limit =>
    "Asset '" ++ asset ++ "': node " ++ hex64 node ++ " needs more than " ++ toString limit ++ " "
      ++ what.name ++ " slots"
  | .packedOverflow asset node what =>
    "Asset '" ++ asset ++ "': " ++ what.name ++ " of node " ++ hex64 node
      ++ " does not fit a packed record"

end NodeScript
