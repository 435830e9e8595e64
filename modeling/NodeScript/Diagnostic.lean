import NodeScript.Compile.Error
import NodeScript.Execution.Basic
import NodeScript.Program

/-!
Diagnostics: everything that is reported while graphs are built and scripts run. An event says
what happened; its level and wording follow from it.
-/
namespace NodeScript

inductive Level
  | trace
  | debug
  | info
  | warn
  | error
  deriving DecidableEq, Repr

def Level.name : Level → String
  | .trace => "TRACE"
  | .debug => "DEBUG"
  | .info => "INFO"
  | .warn => "WARN"
  | .error => "ERROR"

/-- Whether a level is reported even when nobody asks for details. -/
def Level.isProblem : Level → Bool
  | .warn | .error => true
  | _ => false

inductive Event
  | compiling (asset : String) (nodes : Nat) (links : Nat)
  | lowering (trigger : Trigger) (asset : String)
  | severalLinks (asset : String) (pin : UInt16) (node : UInt64)
  | unreadableInput (asset : String) (pin : UInt16) (node : UInt64) (source : NodeType)
  | unregisteredName (function : String) (hash : UInt32) (node : UInt64)
  | compiled (unit : String) (instructions : Nat) (globals : Nat) (stack : UInt16)
  | buildFailed (asset : String) (error : CompileError)
  | buildFinished (units : Nat) (failed : Nat)
  | packed (asset : String) (records : Nat) (bytes : Nat)
  | componentAssetMissing (asset : UInt64)
  | noUnitAtIndex (object : ObjectId) (index : Nat) (units : Nat)
  | noUnitForAsset (object : ObjectId) (asset : UInt64)
  | unregisteredFunction (object : ObjectId) (hash : UInt32) (unit : String)
  | factorClamped (object : ObjectId) (requested : UInt16) (used : UInt16)
  | loaded (object : ObjectId) (unit : String) (slots : Nat)
  | triggerBeforeLoad (object : ObjectId) (trigger : Trigger)
  | triggerWithoutEntry (object : ObjectId) (trigger : Trigger) (unit : String)
  | queueFull (object : ObjectId) (trigger : Trigger)
  | addressOutside (address : Addr)
  | localOutside (slot : Slot)
  | undefinedCall (slot : Slot)
  | budgetSpent (object : ObjectId) (steps : Nat)
  | activationIgnored (object : ObjectId) (phase : Phase)
  | deletedByScript (object : ObjectId)
  deriving DecidableEq, Repr

namespace Event

def level : Event → Level
  | compiling .. | compiled .. | buildFinished .. => .info
  | lowering .. | packed .. | loaded .. | triggerBeforeLoad .. | triggerWithoutEntry ..
  | activationIgnored .. => .debug
  | severalLinks .. | unreadableInput .. | unregisteredName .. | unregisteredFunction ..
  | factorClamped .. | queueFull .. | undefinedCall .. | budgetSpent .. => .warn
  | buildFailed .. | componentAssetMissing .. | noUnitAtIndex .. | noUnitForAsset ..
  | addressOutside .. | localOutside .. => .error
  | deletedByScript .. => .trace

/-- The opening of a message about an object. -/
def about (object : ObjectId) : String := "Object " ++ toString object.toNat ++ ": "

def message : Event → String
  | compiling asset nodes links =>
    "Compiling '" ++ asset ++ "' (" ++ toString nodes ++ " nodes, " ++ toString links ++ " links)"
  | lowering trigger asset => "Lowering " ++ trigger.name ++ " entry of '" ++ asset ++ "'"
  | severalLinks asset pin node =>
    "Asset '" ++ asset ++ "': output " ++ toString pin.toNat ++ " of node " ++ hex64 node
      ++ " has several links, following the first"
  | unreadableInput asset pin node source =>
    "Asset '" ++ asset ++ "': input " ++ toString pin.toNat ++ " of node " ++ hex64 node
      ++ " reads from a " ++ source.displayName ++ " node, using 0"
  | unregisteredName function hash node =>
    "Function '" ++ function ++ "' (#" ++ hex32 hash ++ ") used by node " ++ hex64 node
      ++ " is not registered"
  | compiled unit instructions globals stack =>
    "Compiled '" ++ unit ++ "': " ++ toString instructions ++ " instructions, "
      ++ toString globals ++ " globals, stack " ++ toString stack.toNat
  | buildFailed asset error => "Build of '" ++ asset ++ "' failed: " ++ error.message
  | buildFinished units failed =>
    "Project build finished: " ++ toString units ++ " units, " ++ toString failed ++ " failed"
  | packed asset records bytes =>
    "Packed '" ++ asset ++ "' into " ++ toString records ++ " records, " ++ toString bytes
      ++ " bytes"
  | componentAssetMissing asset =>
    "Script component: asset UUID " ++ hex64 asset ++ " not found"
  | noUnitAtIndex object index units =>
    about object ++ "no compiled unit at index " ++ toString index ++ " (table has "
      ++ toString units ++ ")"
  | noUnitForAsset object asset => about object ++ "no compiled unit for asset " ++ hex64 asset
  | unregisteredFunction object hash unit =>
    about object ++ "function #" ++ hex32 hash ++ " used by '" ++ unit ++ "' is not registered"
  | factorClamped object requested used =>
    about object ++ "stack safety factor " ++ toString requested.toNat ++ " clamped to "
      ++ toString used.toNat
  | loaded object unit slots =>
    about object ++ "loaded '" ++ unit ++ "' with " ++ toString slots ++ " stack slots"
  | triggerBeforeLoad object trigger => about object ++ trigger.name ++ " ignored, nothing loaded"
  | triggerWithoutEntry object trigger unit =>
    about object ++ trigger.name ++ " ignored, '" ++ unit ++ "' has no such entry"
  | queueFull object trigger => about object ++ "trigger queue full, dropping " ++ trigger.name
  | addressOutside address =>
    "Instruction " ++ toString address.toNat ++ " is outside the program, ending execution"
  | localOutside slot => "Local slot " ++ toString slot.toNat ++ " exceeds the allocated stack"
  | undefinedCall slot =>
    "Called an undefined function (global slot " ++ toString slot.toNat ++ ")"
  | budgetSpent object steps =>
    about object ++ "execution ran " ++ toString steps ++ " instructions without waiting, yielding"
  | activationIgnored object phase =>
    about object ++ "activation ignored in state " ++ phase.name
  | deletedByScript object => "Object " ++ toString object.toNat ++ " deleted by script"

end Event

/-- A result together with what was reported on the way to it. -/
structure Logged (α : Type) where
  value : α
  events : List Event

end NodeScript
