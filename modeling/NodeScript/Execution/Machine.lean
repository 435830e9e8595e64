import NodeScript.Execution.Elapsed
import NodeScript.Execution.Journal

/-!
The script machine. It runs one execution at a time, instruction by instruction, until the
execution pauses, ends or has used up the steps of its turn. Nothing that a program does can make
it fail: what is outside its storage reads as zero and is not written, and an address or a frame
slot that does not exist ends the execution with a diagnostic.
-/
namespace NodeScript

/-- What is kept of an instance between its turns. -/
structure Machine (τ : Type) where
  owner : ObjectId
  /-- The next instruction, if an execution is under way. -/
  pc : Option Addr
  /-- The time spent in the pause at `pc`, once that has been entered. -/
  slept : Option τ
  globals : Array Int64
  /-- The functions that the globals refer to. -/
  bound : Array (Option UserFunction)
  locals : Array Int64
  /-- Commands issued and not yet taken. -/
  commands : Array Command

/-- How a turn ends. -/
inductive Pace
  | suspended
  | finished
  deriving DecidableEq, Repr

/-- What one instruction leads to. -/
inductive Step (τ : Type)
  | next (pc : Addr) (machine : Machine τ) (journal : Journal)
  | stop (pace : Pace) (machine : Machine τ) (journal : Journal)

namespace Machine

variable {τ : Type}

/-- A machine that has nothing to run. -/
def idle (owner : ObjectId) : Machine τ := ⟨owner, none, none, #[], #[], #[], #[]⟩

def read (m : Machine τ) : Operand → Int64
  | .constant value => value
  | .global slot => m.globals[slot.toNat]?.getD 0
  | .frame slot => m.locals[slot.toNat]?.getD 0

/-- Writes a global, if there is one at the slot. -/
def setGlobal (m : Machine τ) (slot : Slot) (value : Int64) : Machine τ :=
  { m with globals := m.globals.setIfInBounds slot.toNat value }

/-- The object that an operand addresses by its low sixteen bits; zero is the owner. -/
def object (m : Machine τ) (operand : Operand) : ObjectId :=
  let id := (m.read operand).toUInt64.toUInt16
  if id = 0 then m.owner else id

def issue (m : Machine τ) (command : Command) : Machine τ :=
  { m with commands := m.commands.push command }

/-- Ends the execution. -/
def finish (m : Machine τ) : Machine τ := { m with pc := none, slept := none }

/-- Runs the instruction at `pc`, in a frame that takes `frame` of time. -/
def step [Elapsed τ] (program : Program) (frame : τ) (pc : Addr) (m : Machine τ) (j : Journal) :
    Step τ :=
  match program.code[pc.toNat]? with
  | none => .stop .finished m.finish (j.report (.addressOutside pc))
  | some instruction =>
    match instruction with
    | .setLocal slot value =>
      if slot.toNat < m.locals.size then
        .next (pc + 1) { m with locals := m.locals.setIfInBounds slot.toNat value } j
      else .stop .finished m.finish (j.report (.localOutside slot))
    | .sleep duration =>
      match m.slept with
      | none => .stop .suspended { m with pc := some pc, slept := some frame } j
      | some before =>
        let elapsed := Elapsed.add before frame
        if Elapsed.reaches elapsed (m.read duration) then .next (pc + 1) { m with slept := none } j
        else .stop .suspended { m with pc := some pc, slept := some elapsed } j
    | .deleteObject object =>
      let command := Command.deleteObject (m.object object)
      .next (pc + 1) (m.issue command) (j.add (.command command))
    | .sendEvent object eventType value =>
      let command := Command.sendEvent (m.object object) m.owner
        (m.read eventType).toUInt64.toUInt16 (m.read value).toUInt64.toUInt32
      .next (pc + 1) (m.issue command) (j.add (.command command))
    | .call function argument result =>
      match m.bound[function.toNat]?.join with
      | some f =>
        let (j, value) := j.call f (m.read argument).toUInt64.toUInt32
        .next (pc + 1) (m.setGlobal result value.toInt64) j
      | none => .next (pc + 1) (m.setGlobal result 0) (j.report (.undefinedCall function))
    | .jumpUnless op lhs rhs target =>
      if op.holds (m.read lhs) (m.read rhs) then .next (pc + 1) m j else .next target m j
    | .loop counter bound exit =>
      let count := m.read (.global counter)
      if count < Int64.ofNat bound.toNat then .next (pc + 1) (m.setGlobal counter (count + 1)) j
      else .next exit (m.setGlobal counter 0) j
    | .jump target => .next target m j
    | .finish => .stop .finished m.finish j

/-- Runs at most `steps` instructions of what is left of a turn of `budget`. -/
def run [Elapsed τ] (program : Program) (frame : τ) (budget : Nat) :
    (steps : Nat) → (pc : Addr) → Machine τ → Journal → Pace × Machine τ × Journal
  | 0, pc, m, j =>
    (.suspended, { m with pc := some pc }, j.report (.budgetSpent m.owner budget))
  | steps + 1, pc, m, j =>
    match step program frame pc m j with
    | .next pc m j => run program frame budget steps pc m j
    | .stop pace m j => (pace, m, j)

/-- Gives the execution under way, if there is one, a turn. -/
def resume [Elapsed τ] (program : Program) (frame : τ) (budget : Nat) (m : Machine τ)
    (j : Journal) : Pace × Machine τ × Journal :=
  match m.pc with
  | none => (.finished, m, j)
  | some pc => run program frame budget budget pc m j

end Machine

end NodeScript
