import NodeScript.Binary.Basic
import NodeScript.Catalog

/-!
Node kinds: a node type together with the properties of that type, and the comparison operators
that Compare nodes choose from.
-/
namespace NodeScript

/-- A comparison between two numbers. -/
inductive CompareOp
  | equal
  | notEqual
  | less
  | lessEqual
  | greater
  | greaterEqual
  deriving DecidableEq, Repr

namespace CompareOp

/-- All operators in the order of their stored codes. -/
def all : List CompareOp := [equal, notEqual, less, lessEqual, greater, greaterEqual]

def code : CompareOp → Nat
  | equal => 0
  | notEqual => 1
  | less => 2
  | lessEqual => 3
  | greater => 4
  | greaterEqual => 5

def ofCode? (n : Nat) : Option CompareOp := all[n]?

def symbol : CompareOp → String
  | equal => "=="
  | notEqual => "!="
  | less => "<"
  | lessEqual => "<="
  | greater => ">"
  | greaterEqual => ">="

/-- The short name used in dumps of packed records. -/
def tag : CompareOp → String
  | equal => "Equal"
  | notEqual => "NotEqual"
  | less => "Less"
  | lessEqual => "LessEqual"
  | greater => "Greater"
  | greaterEqual => "GreaterEqual"

def holds (op : CompareOp) (a b : Int64) : Bool :=
  match op with
  | equal => a == b
  | notEqual => a != b
  | less => decide (a < b)
  | lessEqual => decide (a ≤ b)
  | greater => decide (b < a)
  | greaterEqual => decide (b ≤ a)

theorem ofCode?_code (op : CompareOp) : ofCode? op.code = some op := by cases op <;> rfl

end CompareOp

/-- A node type with its properties. Object zero stands for the object that owns the script. -/
inductive NodeKind
  | start
  /-- Pauses for a number of seconds. -/
  | wait (time : Binary32)
  | deleteObject (object : UInt16)
  | sendEvent (object : UInt16) (eventType : UInt16) (value : UInt32)
  | compare (op : CompareOp)
  | value (number : UInt16)
  | loop (count : UInt32)
  | function (name : String) (argument : UInt32)
  deriving DecidableEq, Repr

namespace NodeKind

def type : NodeKind → NodeType
  | start => .start
  | wait _ => .wait
  | deleteObject _ => .deleteObject
  | sendEvent .. => .sendEvent
  | compare _ => .compare
  | value _ => .value
  | loop _ => .loop
  | function .. => .function

/-- The kind of a freshly placed node. -/
def ofType : NodeType → NodeKind
  | .start => .start
  | .wait => .wait .zero
  | .deleteObject => .deleteObject 0
  | .sendEvent => .sendEvent 0 0 0
  | .compare => .compare .equal
  | .value => .value 0
  | .loop => .loop 0
  | .function => .function "" 0

/-- The title in the editor, which shows properties where they tell nodes apart. -/
def title : NodeKind → String
  | compare op => op.symbol ++ " Compare"
  | function name argument =>
    if name.isEmpty then NodeType.function.displayName
    else name ++ "(" ++ toString argument.toNat ++ ")"
  | kind => kind.type.displayName

/-- Equality with times compared as numbers. -/
def same : NodeKind → NodeKind → Bool
  | wait a, wait b => a.same b
  | a, b => a == b

def isDefault (kind : NodeKind) : Bool := kind.same (ofType kind.type)

@[simp] theorem type_ofType (t : NodeType) : (ofType t).type = t := by cases t <;> rfl

end NodeKind

/-- A waiting time in whole milliseconds. The product is taken in single precision; times that are
not positive or not finite wait for nothing, and what does not fit the word is capped. -/
def waitMillis (time : Binary32) : UInt64 :=
  if time.isFinite ∧ ¬ time.negative then
    let product := Format.single.mul time.magnitude (Format.single.ofNat 1000)
    if product < Format.single.infinity ∧ Format.single.floor product < UInt64.size then
      (Format.single.floor product).toUInt64
    else 0xFFFFFFFFFFFFFFFF
  else 0

end NodeScript
