import NodeScript.Graph.Basic
import NodeScript.Source.Statement

/-!
The assembly of one unit while it grows: global declarations, the constants of the current node,
source lines and the instructions that say the same. Names are made from identifiers and hashes
and never from the order of visits, so an unchanged graph always gives the same text.
-/
namespace NodeScript

/-- The expression that reads or writes a global in source. -/
def Global.text (g : Global) : String :=
  if g.kind.isInstanceScoped then "state->" ++ g.name else g.name

/-- A global with its declaration in source. -/
structure Declaration where
  global : Global
  type : String
  initialText : String
  deriving DecidableEq, Repr

namespace Declaration

def text (d : Declaration) : String := d.global.text

/-- The field of the state structure that holds an instance-scoped global. -/
def fieldLine (d : Declaration) : String := d.type ++ " " ++ d.global.name ++ ";"

/-- The declaration of a global at file scope. -/
def fileLine (d : Declaration) : String :=
  d.type ++ " " ++ d.global.name ++ " = " ++ d.initialText ++ ";"

end Declaration

/-- The instruction with another target, if it has one. -/
def Instruction.aim (target : Addr) : Instruction → Instruction
  | .jumpUnless op lhs rhs _ => .jumpUnless op lhs rhs target
  | .loop counter bound _ => .loop counter bound target
  | .jump _ => .jump target
  | other => other

structure Assembly where
  globals : Array Declaration
  code : Array Instruction
  lines : Array Line
  indent : Nat
  /-- The names of the constants that the current node has bound, by slot. -/
  locals : Array String
  maxLocals : Nat
  /-- Addresses of nodes, the latest first. -/
  labels : List (Uuid × Addr)
  deriving DecidableEq, Repr

namespace Assembly

def empty : Assembly := ⟨#[], #[], #[], 1, #[], 0, []⟩

/-- What stands for a slot that holds nothing. -/
def invalid : String := "<invalid>"

def labelName (uuid : Uuid) : String := "n_" ++ hex64 uuid

/-- The name of a variable that belongs to a node. -/
def nodeVariable (stem : String) (uuid : Uuid) : String := stem ++ "_" ++ hex64 uuid

/-- The address of the next instruction. -/
def here (a : Assembly) : Addr := a.code.size.toUInt32

/-- Declares a global. A name that is declared already keeps its first declaration and slot. -/
def declareGlobal (a : Assembly) (type name : String) (kind : GlobalKind) (initial : Int64)
    (initialText : Option String) : Assembly × Slot :=
  match a.globals.findIdx? fun d => d.global.name == name with
  | some slot => (a, slot.toUInt16)
  | none =>
    let declaration : Declaration :=
      ⟨⟨name, kind, initial⟩, type, initialText.getD (toString initial.toInt)⟩
    ({ a with globals := a.globals.push declaration }, a.globals.size.toUInt16)

def globalName (a : Assembly) (slot : Slot) : String :=
  (a.globals[slot.toNat]?.map (·.global.name)).getD invalid

def globalText (a : Assembly) (slot : Slot) : String :=
  (a.globals[slot.toNat]?.map Declaration.text).getD invalid

/-- The expression that reads an operand within the current node. -/
def operandText (a : Assembly) : Operand → String
  | .constant value => toString value.toInt
  | .global slot => a.globalText slot
  | .frame slot => a.locals[slot.toNat]?.getD invalid

/-- Appends a source statement at the current indentation. -/
def write (a : Assembly) (statement : Statement) : Assembly :=
  { a with lines := a.lines.push (.statement a.indent statement) }

/-- Appends a label line. -/
def writeLabel (a : Assembly) (name : String) : Assembly :=
  { a with lines := a.lines.push (.label name) }

/-- Appends an instruction. -/
def emit (a : Assembly) (instruction : Instruction) : Assembly :=
  { a with code := a.code.push instruction }

/-- Binds a constant of the current node, and gives the operand that reads it. -/
def declareLocal (a : Assembly) (type name : String) (value : Int64) : Assembly × Operand :=
  let slot := a.locals.size.toUInt16
  let bound :=
    { a with
      locals := a.locals.push name
      maxLocals := max a.maxLocals (a.locals.size + 1) }
  ((bound.write (.constant type name value)).emit (.setLocal slot value), .frame slot)

/-- Points a jump that has been emitted at `target`. Anything else stays as it is. -/
def patch (a : Assembly) (address target : Addr) : Assembly :=
  { a with code := a.code.modify address.toNat (Instruction.aim target) }

/-- Opens the block of a node, which has no constants yet. -/
def beginBlock (a : Assembly) : Assembly :=
  let opened := a.write .openBlock
  { opened with indent := opened.indent + 1, locals := #[] }

def endBlock (a : Assembly) : Assembly :=
  { { a with indent := a.indent - 1 }.write .closeBlock with locals := #[] }

/-- Opens a group of statements that sees the constants of the node around it. -/
def openGroup (a : Assembly) (header : Statement) : Assembly :=
  let opened := a.write header
  { opened with indent := opened.indent + 1 }

def closeGroup (a : Assembly) (footer : Statement) : Assembly :=
  { a with indent := a.indent - 1 }.write footer

/-- Closes a group and opens the next one at the same depth. -/
def turnGroup (a : Assembly) (turn : Statement) : Assembly :=
  let closed := a.closeGroup turn
  { closed with indent := closed.indent + 1 }

/-- Opens the second arm of a branching node, whose head jumps here. -/
def turnArms (a : Assembly) (head : Addr) (prelude : Option Statement) : Assembly :=
  let turned := (a.turnGroup .orElse).patch head a.here
  match prelude with
  | some statement => turned.write statement
  | none => turned

def addressOf? (a : Assembly) (uuid : Uuid) : Option Addr :=
  (a.labels.find? fun entry => entry.1 == uuid).map (·.2)

/-- Records the address of a node. Nodes that several paths lead to get a label in source. -/
def bindLabel (a : Assembly) (uuid : Uuid) (visible : Bool) : Assembly :=
  let bound := { a with labels := (uuid, a.here) :: a.labels }
  if visible then bound.writeLabel (labelName uuid) else bound

/-- Goes on at a node that has an address already. -/
def goto (a : Assembly) (uuid : Uuid) : Assembly :=
  match a.addressOf? uuid with
  | none => a
  | some address => (a.write (.goto (labelName uuid))).emit (.jump address)

/-- Ends the execution here. -/
def leave (a : Assembly) : Assembly := (a.write .leave).emit .finish

/-- The fields of the state structure. -/
def stateLines (a : Assembly) : List String :=
  (a.globals.toList.filter fun d => d.global.kind.isInstanceScoped).map Declaration.fieldLine

/-- The declarations at file scope. -/
def fileLines (a : Assembly) : List String :=
  (a.globals.toList.filter fun d => !d.global.kind.isInstanceScoped).map Declaration.fileLine

def bodyLines (a : Assembly) : List String := a.lines.toList.flatMap Line.render

end Assembly

end NodeScript
