import NodeScript.Compile.Assembly
import NodeScript.Compile.Chain
import NodeScript.Diagnostic
import NodeScript.Execution.Registry

/-!
Lowering of laid-out chains into an assembly. Each node becomes a block with the constants it
needs and its instruction; the two ways out of a branching node become the arms of an `if`, the
first following the test and the second at the address the test jumps to.
-/
namespace NodeScript

/-- What is compiled: a graph under the name of its asset, and the user functions to check names
against, if there are any to check. -/
structure Job where
  graph : Graph
  asset : String
  functions : Option Registry

/-- An assembly under way. Slots that overflow are noted once, with the number of events reported
by then; what is assembled after that is not used. -/
structure Draft where
  assembly : Assembly
  events : Array Event
  failure : Option (CompileError × Nat)

namespace Draft

def empty : Draft := ⟨.empty, #[], none⟩

def report (d : Draft) (event : Event) : Draft := { d with events := d.events.push event }

/-- Changes the assembly alone. -/
def edit (d : Draft) (change : Assembly → Assembly) : Draft :=
  { d with assembly := change d.assembly }

/-- The largest number of globals, and of constants of one node. -/
def slotLimit : Nat := 65535

/-- Notes where a node is the first to need more slots than there are. -/
def checkSlots (d : Draft) (job : Job) (node : Uuid) : Draft :=
  let fail (what : SlotKind) : Draft :=
    { d with
      failure := d.failure <|> some (.tooManySlots job.asset node what slotLimit, d.events.size) }
  if slotLimit < d.assembly.globals.size then fail .global
  else if slotLimit < d.assembly.locals.size then fail .frame
  else d

/-- Following an output with several links is worth a warning. -/
def noteLinks (d : Draft) (job : Job) (node : Uuid) (pin : UInt16) : Draft :=
  if 1 < (job.graph.linksFrom node pin).length then
    d.report (.severalLinks job.asset pin node)
  else d

/-- The global that holds the last result of a Function node. -/
def declareResult (d : Draft) (node : Uuid) : Draft × Slot :=
  let (assembly, slot) :=
    d.assembly.declareGlobal "int" (Assembly.nodeVariable "res" node) .number 0 none
  ({ d with assembly }, slot)

/-- What a Value input reads: the constant of a Value node, or the last result of a Function node
through its second output. An unlinked input reads zero, and so does any other source. -/
def resolveInput (d : Draft) (job : Job) (node : Uuid) (pin : UInt16) : Draft × Operand :=
  match job.graph.linkInto? node pin with
  | none => (d, .constant 0)
  | some link =>
    match job.graph.node? link.fromNode with
    | none => (d, .constant 0)
    | some source =>
      match source.kind with
      | .value number => (d, .constant (Int64.ofNat number.toNat))
      | kind =>
        if kind.type = .function ∧ link.fromPin = 1 then
          let (d, slot) := d.declareResult link.fromNode
          (d, .global slot)
        else (d.report (.unreadableInput job.asset pin node kind.type), .constant 0)

/-- The operands of the Value inputs, in pin order. -/
def resolveInputs (d : Draft) (job : Job) (node : Uuid) :
    (pins : List UInt16) → Draft × List Operand
  | [] => (d, [])
  | pin :: rest =>
    let (d, operand) := d.resolveInput job node pin
    let (d, operands) := d.resolveInputs job node rest
    (d, operand :: operands)

/-- A constant of the current node. -/
def bindConstant (d : Draft) (type name : String) (value : Int64) : Draft × Operand :=
  let (assembly, operand) := d.assembly.declareLocal type name value
  ({ d with assembly }, operand)

/-- Constants are copied into the frame; globals are read in place. -/
def materialize (d : Draft) (operand : Operand) (name : String) : Draft × Operand :=
  match operand with
  | .constant value => d.bindConstant "int32_t" name value
  | other => (d, other)

/-- Opens the block of a node. -/
def openNode (d : Draft) (job : Job) (node : Node) : Draft :=
  let visible := decide (1 < job.graph.logicInDegree node.uuid)
  d.edit fun a =>
    ((a.bindLabel node.uuid visible).beginBlock).write (.comment node.kind.title)

def lowerWait (d : Draft) (time : Binary32) : Draft :=
  let millis := min (waitMillis time).toNat 0x7FFFFFFFFFFFFFFF
  let (d, duration) := d.bindConstant "uint64_t" "t_time" (Int64.ofNat millis)
  d.edit fun a => (a.write (.sleep (a.operandText duration))).emit (.sleep duration)

def lowerDelete (d : Draft) (object : UInt16) : Draft :=
  let (d, target) := d.bindConstant "uint16_t" "t_objId" (Int64.ofNat object.toNat)
  d.edit fun a =>
    (a.write (.removeObject (a.operandText target))).emit (.deleteObject target)

def lowerSend (d : Draft) (object eventType : UInt16) (value : UInt32) : Draft :=
  let (d, target) := d.bindConstant "uint16_t" "t_objId" (Int64.ofNat object.toNat)
  let (d, type) := d.bindConstant "uint16_t" "t_eventType" (Int64.ofNat eventType.toNat)
  let (d, payload) := d.bindConstant "uint32_t" "t_eventVal" (Int64.ofNat value.toNat)
  d.edit fun a =>
    (a.write (.sendEvent (a.operandText target) (a.operandText type)
      (a.operandText payload))).emit (.sendEvent target type payload)

/-- Calling a function that nobody has registered is worth a warning, where names are checked. -/
def noteName (d : Draft) (job : Job) (node : Uuid) (name : String) : Draft :=
  match job.functions with
  | some registry =>
    if registry.contains (crc32 name) then d
    else d.report (.unregisteredName name (crc32 name) node)
  | none => d

/-- Calls go through a global that is bound to the function when the unit is loaded. -/
def lowerCall (d : Draft) (job : Job) (node : Uuid) (name : String) (argument : UInt32) : Draft :=
  let hash := crc32 name
  let d := d.noteName job node name
  let (assembly, function) :=
    d.assembly.declareGlobal "UserFunc" ("fn_" ++ hex32 hash) (.function hash) 0
      (some ("get_function(0x" ++ hex32 hash ++ ")"))
  let (d, result) := { d with assembly }.declareResult node
  let (d, operand) := d.bindConstant "uint32_t" "t_arg" (Int64.ofNat argument.toNat)
  d.edit fun a =>
    (a.write (.call (a.globalText result) (a.globalText function)
      (a.operandText operand))).emit (.call function operand result)

/-- The statements of a node with one way out. -/
def lowerStep (d : Draft) (job : Job) (node : Node) : Draft :=
  match node.kind with
  | .wait time => d.lowerWait time
  | .deleteObject object => d.lowerDelete object
  | .sendEvent object eventType value => d.lowerSend object eventType value
  | .function name argument => d.lowerCall job node.uuid name argument
  | _ => d

/-- The test of a Compare node; it goes on into the first arm. -/
def lowerCompare (d : Draft) (op : CompareOp) (inputs : List Operand) : Draft :=
  let (d, lhs) := d.materialize (inputs[0]?.getD (.constant 0)) "t_a"
  let (d, rhs) := d.materialize (inputs[1]?.getD (.constant 0)) "t_b"
  d.edit fun a =>
    (a.emit (.jumpUnless op lhs rhs 0)).openGroup
      (.ifCompare (a.operandText lhs) op (a.operandText rhs))

/-- The counter of a Repeat node. -/
def counterName (node : Uuid) : String := Assembly.nodeVariable "cnt" node

/-- The head of a Repeat node, with the statement that opens its second arm. -/
def lowerLoop (d : Draft) (node : Uuid) (count : UInt32) : Draft × Statement :=
  let (assembly, counter) :=
    d.assembly.declareGlobal "uint32_t" (counterName node) .counter 0 none
  let text := assembly.globalText counter
  let assembly :=
    ((assembly.emit (.loop counter count 0)).openGroup (.ifBelow text count)).write
      (.increment text)
  ({ d with assembly }, .reset text)

/-- The head of a branching node: the assembly within its first arm, and the statement that opens
the second. The jump between them is the last instruction of the head. -/
def lowerHead (d : Draft) (node : Node) (inputs : List Operand) : Draft × Option Statement :=
  match node.kind with
  | .compare op => (d.lowerCompare op inputs, none)
  | .loop count =>
    let (d, prelude) := d.lowerLoop node.uuid count
    (d, some prelude)
  | _ => (d, none)

/-- Lowers a chain. -/
def lowerChain (job : Job) : Chain → Draft → Draft
  | .stop, d => d.edit Assembly.leave
  | .jump uuid, d => d.edit fun a => a.goto uuid
  | .step node rest, d =>
    let (d, _) := d.resolveInputs job node.uuid node.type.valueInputs
    let d := ((d.openNode job node).lowerStep job node).checkSlots job node.uuid
    let d := (d.edit Assembly.endBlock).noteLinks job node.uuid 0
    lowerChain job rest d
  | .branch node first second, d =>
    let (d, inputs) := d.resolveInputs job node.uuid node.type.valueInputs
    let (d, prelude) := (d.openNode job node).lowerHead node inputs
    let head := d.assembly.here - 1
    let d := d.checkSlots job node.uuid
    let d := lowerChain job first (d.noteLinks job node.uuid 0)
    let d := d.edit fun a => a.turnArms head prelude
    let d := lowerChain job second (d.noteLinks job node.uuid 1)
    d.edit fun a => (a.closeGroup .closeBlock).endBlock

/-- Lowers one entry and records its address. -/
def lowerEntry (job : Job) (trigger : Trigger) (chain : Chain) (d : Draft) (entries : Entries) :
    Draft × Entries :=
  let d := d.noteLinks job job.graph.start.uuid trigger.pin
  let d := (d.report (.lowering trigger job.asset)).edit fun a => a.writeLabel trigger.label
  (lowerChain job chain d, entries.set trigger d.assembly.here)

/-- Lowers all entries in turn. -/
def lowerEntries (job : Job) : List (Trigger × Chain) → Draft → Entries → Draft × Entries
  | [], d, entries => (d, entries)
  | (trigger, chain) :: rest, d, entries =>
    let (d, entries) := lowerEntry job trigger chain d entries
    lowerEntries job rest d entries

end Draft

end NodeScript
