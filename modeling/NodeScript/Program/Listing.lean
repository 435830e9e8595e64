import NodeScript.Program
import NodeScript.Text.Hex

/-!
Listings of programs for people: globals, entries and numbered instructions, in columns. A text that
is already wider than its column is kept whole.
-/
namespace NodeScript

/-- Blanks after the text, up to `width` characters. -/
def padRight (width : Nat) (text : String) : String :=
  text ++ String.ofList (List.replicate (width - text.length) ' ')

/-- Blanks before the text, up to `width` characters. -/
def padLeft (width : Nat) (text : String) : String :=
  String.ofList (List.replicate (width - text.length) ' ') ++ text

/-- A number in decimal with at least `width` digits. -/
def zeroPadded (width n : Nat) : String :=
  String.ofList (List.replicate (width - (Nat.repr n).length) '0') ++ Nat.repr n

def Operand.listing : Operand → String
  | .constant value => "#" ++ toString value.toInt
  | .global slot => "g" ++ toString slot.toNat
  | .frame slot => "l" ++ toString slot.toNat

/-- An address with at least four digits. -/
def Addr.listing (address : Addr) : String := zeroPadded 4 address.toNat

/-- The mnemonic of an instruction in a column of its own, then its operands. -/
def Instruction.listing : Instruction → String
  | .setLocal slot value =>
    padRight 14 "SetLocal" ++ " l" ++ toString slot.toNat ++ " = " ++ toString value.toInt
  | .sleep duration => padRight 14 "Sleep" ++ " " ++ duration.listing ++ " ms"
  | .deleteObject object => padRight 14 "DeleteObject" ++ " " ++ object.listing
  | .sendEvent object eventType value =>
    padRight 14 "SendEvent" ++ " obj " ++ object.listing ++ " type " ++ eventType.listing
      ++ " value " ++ value.listing
  | .call function argument result =>
    padRight 14 "Call" ++ " g" ++ toString function.toNat ++ "(" ++ argument.listing ++ ") -> g"
      ++ toString result.toNat
  | .jumpUnless op lhs rhs target =>
    padRight 14 "JumpUnless" ++ " " ++ lhs.listing ++ " " ++ op.symbol ++ " " ++ rhs.listing
      ++ " else -> " ++ Addr.listing target
  | .loop counter bound exit =>
    padRight 14 "Repeat" ++ " g" ++ toString counter.toNat ++ " < " ++ toString bound.toNat
      ++ " else -> " ++ Addr.listing exit
  | .jump target => padRight 14 "Jump" ++ " -> " ++ Addr.listing target
  | .finish => "End"

def GlobalKind.listing : GlobalKind → String
  | .number => "int"
  | .counter => "counter"
  | .function hash => "func #" ++ hex32 hash

def Global.listing (slot : Nat) (global : Global) : String :=
  "g" ++ padRight 3 (toString slot) ++ " " ++ padRight 14 global.kind.listing ++ " " ++ global.name
    ++ " = " ++ toString global.initial.toInt

def Trigger.listing (trigger : Trigger) (entry : Option Addr) : String :=
  padRight 10 trigger.name ++ " -> " ++
    match entry with
    | some address => Addr.listing address
    | none => "(none)"

/-- The lines of a listing; a heading is preceded by an empty line. -/
def Program.listingLines (program : Program) (name : String) : List String :=
  ["======== PROGRAM for Graph: " ++ name ++ " ========", "", "--- GLOBALS ---"]
    ++ (program.globals.toList.zipIdx.map fun (global, slot) => global.listing slot)
    ++ ["", "--- ENTRIES ---"]
    ++ (Trigger.all.map fun trigger => trigger.listing (program.entries.get trigger))
    ++ ["", "--- CODE (max locals: " ++ toString program.maxLocals.toNat ++ ") ---"]
    ++ (program.code.toList.zipIdx.map fun (instruction, address) =>
      zeroPadded 4 address ++ ": " ++ instruction.listing)
    ++ ["", "================ END OF PROGRAM ================"]

/-- The listing of a program under the name of its graph. -/
def Program.listing (program : Program) (name : String) : String :=
  String.join ((program.listingLines name).map (· ++ "\n"))

end NodeScript
