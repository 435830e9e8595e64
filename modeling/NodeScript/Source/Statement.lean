import NodeScript.Program

/-!
Statements of generated source. They are kept as data until a unit is written out, so that what a
line says can be asked of it; `Line.render` is their only spelling.
-/
namespace NodeScript

/-- A statement, named by what it does. Operands are source expressions. -/
inductive Statement
  /-- Text that is written as it stands. -/
  | text (content : String)
  | comment (content : String)
  | openBlock
  | closeBlock
  /-- A constant of the current block. -/
  | constant (type : String) (name : String) (value : Int64)
  | sleep (duration : String)
  /-- Removes the object, or the owner where it is zero. -/
  | removeObject (object : String)
  /-- Sends an event to the object, or to the owner where it is zero. -/
  | sendEvent (object : String) (eventType : String) (value : String)
  | call (result : String) (function : String) (argument : String)
  /-- Opens the arm that runs while the comparison holds. -/
  | ifCompare (lhs : String) (op : CompareOp) (rhs : String)
  /-- Opens the arm that runs while the counter is below the bound. -/
  | ifBelow (counter : String) (bound : UInt32)
  | increment (counter : String)
  /-- Ends the first arm and opens the second. -/
  | orElse
  | reset (counter : String)
  | goto (label : String)
  | leave
  deriving DecidableEq, Repr

/-- The text of a statement, one string for each line. -/
def Statement.lines : Statement → List String
  | text content => [content]
  | comment content => ["// " ++ content]
  | openBlock => ["\x7b"]
  | closeBlock => ["\x7d"]
  | constant type name value =>
    ["const " ++ type ++ " " ++ name ++ " = " ++ toString value.toInt ++ ";"]
  | sleep duration => ["sleep_ms(" ++ duration ++ ");"]
  | removeObject object =>
    ["object_remove(" ++ object ++ " == 0 ? inst->object_id : " ++ object ++ ");"]
  | sendEvent object eventType value =>
    ["send_event(", "  " ++ object ++ " == 0 ? inst->object_id : " ++ object ++ ",",
      "  inst->object_id,", "  " ++ eventType ++ ",", "  " ++ value, ");"]
  | call result function argument => [result ++ " = " ++ function ++ "(" ++ argument ++ ");"]
  | ifCompare lhs op rhs => ["if (" ++ lhs ++ " " ++ op.symbol ++ " " ++ rhs ++ ") \x7b"]
  | ifBelow counter bound => ["if (" ++ counter ++ " < " ++ toString bound.toNat ++ ") \x7b"]
  | increment var => ["++" ++ var ++ ";"]
  | orElse => ["\x7d else \x7b"]
  | reset var => [var ++ " = 0;"]
  | goto label => ["goto " ++ label ++ ";"]
  | leave => ["return;"]

/-- A label, which stands at the margin, or an indented statement. -/
inductive Line
  | label (name : String)
  | statement (indent : Nat) (content : Statement)
  deriving DecidableEq, Repr

/-- Blanks for a number of indentation steps. -/
def indentation (steps : Nat) : String := String.ofList (List.replicate (2 * steps) ' ')

def Line.render : Line → List String
  | label name => [name ++ ":"]
  | statement indent content => content.lines.map (indentation indent ++ ·)

end NodeScript
