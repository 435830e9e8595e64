/-!
The node catalog: every node type that can be placed in a graph, with its pins. The set is closed,
and a type's number is what graph documents and packed records store.
-/
namespace NodeScript

/-- What a pin carries: control flow or a number. -/
inductive PinKind
  | logic
  | value
  deriving DecidableEq, Repr

def PinKind.name : PinKind → String
  | .logic => "Logic"
  | .value => "Value"

/-- On which side of a node a pin lies. -/
inductive Side
  | input
  | output
  deriving DecidableEq, Repr

def Side.name : Side → String
  | .input => "input"
  | .output => "output"

structure Pin where
  name : String
  kind : PinKind
  deriving DecidableEq, Repr

/-- A header colour: red, green, blue and opacity. -/
structure Color where
  red : UInt8
  green : UInt8
  blue : UInt8
  alpha : UInt8
  deriving DecidableEq, Repr

inductive NodeType
  | start
  | wait
  | deleteObject
  | sendEvent
  | compare
  | value
  | loop
  | function
  deriving DecidableEq, Repr

namespace NodeType

/-- All types in the order of their numbers. -/
def all : List NodeType :=
  [start, wait, deleteObject, sendEvent, compare, value, loop, function]

def id : NodeType → Nat
  | start => 0
  | wait => 1
  | deleteObject => 2
  | sendEvent => 3
  | compare => 4
  | value => 5
  | loop => 6
  | function => 7

def ofId? (n : Nat) : Option NodeType := all[n]?

/-- The short name used in diagnostics. -/
def tag : NodeType → String
  | start => "Start"
  | wait => "Wait"
  | deleteObject => "ObjDel"
  | sendEvent => "ObjEvent"
  | compare => "Compare"
  | value => "Value"
  | loop => "Repeat"
  | function => "Func"

/-- The name shown to artists. -/
def displayName : NodeType → String
  | start => "Start"
  | wait => "Wait"
  | deleteObject => "Delete Object"
  | sendEvent => "Send Event"
  | compare => "Compare"
  | value => "Value"
  | loop => "Repeat"
  | function => "Function"

def color : NodeType → Color
  | start => ⟨238, 238, 238, 255⟩
  | wait | sendEvent | loop | function => ⟨90, 191, 93, 255⟩
  | deleteObject => ⟨191, 90, 93, 255⟩
  | compare | value => ⟨255, 153, 85, 255⟩

def inputs : NodeType → List Pin
  | start | value => []
  | wait | deleteObject | sendEvent | loop | function => [⟨"", .logic⟩]
  | compare => [⟨"", .logic⟩, ⟨"A", .value⟩, ⟨"B", .value⟩]

def outputs : NodeType → List Pin
  | start => [⟨"Init", .logic⟩, ⟨"Event", .logic⟩, ⟨"Collision", .logic⟩]
  | wait | deleteObject | sendEvent => [⟨"", .logic⟩]
  | compare => [⟨"True", .logic⟩, ⟨"False", .logic⟩]
  | value => [⟨"", .value⟩]
  | loop => [⟨"Loop", .logic⟩, ⟨"Exit", .logic⟩]
  | function => [⟨"", .logic⟩, ⟨"", .value⟩]

def pins (t : NodeType) : Side → List Pin
  | .input => t.inputs
  | .output => t.outputs

def pin? (t : NodeType) (side : Side) (index : UInt16) : Option Pin := (t.pins side)[index.toNat]?

/-- The positions of the pins of one kind, ascending. -/
def pinIndices (t : NodeType) (side : Side) (kind : PinKind) : List UInt16 :=
  (t.pins side).zipIdx.filterMap fun (pin, index) =>
    if pin.kind = kind then some index.toUInt16 else none

def logicOutputs (t : NodeType) : List UInt16 := t.pinIndices .output .logic

def valueInputs (t : NodeType) : List UInt16 := t.pinIndices .input .value

/-- The types in the alphabetical order of their display names. -/
def menu : List NodeType :=
  all.mergeSort fun a b => decide (a.displayName ≤ b.displayName)

theorem ofId?_id (t : NodeType) : ofId? t.id = some t := by cases t <;> rfl

end NodeType

end NodeScript
