import NodeScript.Graph.Kind

/-!
Programs of the script machine: a flat list of instructions, an optional entry address for each
trigger and the variables that live as long as the script is loaded. A pause is an instruction of
its own, so an execution is described by one address and its storage.
-/
namespace NodeScript

/-- An index into the globals of a unit or into the frame of the current node. -/
abbrev Slot := UInt16

/-- A code address. -/
abbrev Addr := UInt32

/-- What starts an execution. Each trigger is an output of the Start node. -/
inductive Trigger
  /-- The script is loaded. -/
  | init
  /-- The owning object receives an event. -/
  | event
  /-- The owning object collides. -/
  | collision
  deriving DecidableEq, Repr

namespace Trigger

def all : List Trigger := [init, event, collision]

/-- The Start output that leads to the entry. -/
def pin : Trigger → UInt16
  | init => 0
  | event => 1
  | collision => 2

def name : Trigger → String
  | init => "Init"
  | event => "Event"
  | collision => "Collision"

/-- The name of the trigger's constant in generated source. -/
def constant : Trigger → String
  | init => "TRIGGER_INIT"
  | event => "TRIGGER_EVENT"
  | collision => "TRIGGER_COLLISION"

/-- The label of the entry in generated source. -/
def label : Trigger → String
  | init => "entry_init"
  | event => "entry_event"
  | collision => "entry_collision"

end Trigger

/-- Where an instruction reads a number. -/
inductive Operand
  | constant (value : Int64)
  | global (slot : Slot)
  /-- A constant bound by the current node. -/
  | frame (slot : Slot)
  deriving DecidableEq, Repr

inductive Instruction
  /-- Binds a constant of the current node. -/
  | setLocal (slot : Slot) (value : Int64)
  /-- Pauses until the given milliseconds have passed. -/
  | sleep (duration : Operand)
  /-- Removes an object; zero addresses the owner. -/
  | deleteObject (object : Operand)
  /-- Sends an event to an object; zero addresses the owner. -/
  | sendEvent (object : Operand) (eventType : Operand) (value : Operand)
  /-- Calls a user function and keeps its result in a global. -/
  | call (function : Slot) (argument : Operand) (result : Slot)
  /-- Goes on while the comparison holds, and jumps otherwise. -/
  | jumpUnless (op : CompareOp) (lhs : Operand) (rhs : Operand) (target : Addr)
  /-- Counts and goes on while the counter is below the bound; otherwise resets it and jumps. -/
  | loop (counter : Slot) (bound : UInt32) (exit : Addr)
  | jump (target : Addr)
  /-- Ends the execution. -/
  | finish
  deriving DecidableEq, Repr

/-- What a global holds. -/
inductive GlobalKind
  /-- The last result of a call. -/
  | number
  /-- How often a loop has been entered. -/
  | counter
  /-- A reference to the user function with this name hash. -/
  | function (hash : UInt32)
  deriving DecidableEq, Repr

/-- Whether every instance has a variable of its own. -/
def GlobalKind.isInstanceScoped : GlobalKind → Bool
  | number | counter => true
  | function _ => false

structure Global where
  name : String
  kind : GlobalKind
  initial : Int64
  deriving DecidableEq, Repr

/-- The entry address for each trigger that has one. -/
@[ext] structure Entries where
  init : Option Addr
  event : Option Addr
  collision : Option Addr
  deriving DecidableEq, Repr

namespace Entries

def empty : Entries := ⟨none, none, none⟩

def get (entries : Entries) : Trigger → Option Addr
  | .init => entries.init
  | .event => entries.event
  | .collision => entries.collision

def set (entries : Entries) (trigger : Trigger) (address : Addr) : Entries :=
  match trigger with
  | .init => ⟨some address, entries.event, entries.collision⟩
  | .event => ⟨entries.init, some address, entries.collision⟩
  | .collision => ⟨entries.init, entries.event, some address⟩

end Entries

structure Program where
  code : Array Instruction
  entries : Entries
  globals : Array Global
  /-- The largest number of constants that one node binds. -/
  maxLocals : UInt16
  deriving DecidableEq, Repr

/-- The program without instructions. -/
def Program.empty : Program := ⟨#[], .empty, #[], 0⟩

end NodeScript
