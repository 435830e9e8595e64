import NodeScript.Json.Tree

/-!
JSON values and the interpretation of syntax trees.

A record is read from an object or from an array of its fields in declaration order. In an object
every known field occurs at most once and other keys are skipped unseen, apart from the key itself.
Interpreted containers are nested at most `nestingLimit` deep.
-/
namespace NodeScript

/-- A JSON value. Numbers keep the width in which they are written. -/
inductive Json
  | null
  | bool (value : Bool)
  | int (value : Int)
  | single (value : Binary32)
  | double (value : Binary64)
  | string (value : String)
  | array (items : List Json)
  | object (members : List (String × Json))
  deriving Inhabited

namespace Json

/-- Containers that are interpreted may enclose each other this many times. -/
def nestingLimit : Nat := 127

/-- The first member of a key, counted from the end. -/
def lastMember? (key : String) (members : List (String × Json)) : Option Json :=
  (members.reverse.find? fun member => member.1 == key).map (·.2)

/-- An integer within `0 ≤ n < bound`. -/
def natBelow? (bound : Nat) : Json → Option Nat
  | .int value => if 0 ≤ value ∧ value < bound then some value.toNat else none
  | _ => none

/-- A number, rounded to single precision. -/
def single? : Json → Option Binary32
  | .int value => some (.ofInt value)
  | .double value => some (value.convert .single)
  | .single value => some value
  | _ => none

def string? : Json → Option String
  | .string value => some value
  | _ => none

namespace Tree

mutual

/-- The value of a tree inside `depth` containers. -/
def value? (depth : Nat) : Tree → Option Json
  | .null => some .null
  | .bool b => some (.bool b)
  | .number literal =>
    literal.number?.map fun number =>
      match number with
      | .int value => .int value
      | .float value => .double value
  | .string pieces => (decodePieces? pieces).map .string
  | .array items =>
    if depth < nestingLimit then (items? (depth + 1) items).map .array else none
  | .object members =>
    if depth < nestingLimit then (members? (depth + 1) members).map .object else none

def items? (depth : Nat) : List Tree → Option (List Json)
  | [] => some []
  | item :: rest => do
    let value ← value? depth item
    let values ← items? depth rest
    pure (value :: values)

def members? (depth : Nat) : List (List Piece × Tree) → Option (List (String × Json))
  | [] => some []
  | (key, item) :: rest => do
    let name ← decodePieces? key
    let value ← value? depth item
    let values ← members? depth rest
    pure ((name, value) :: values)

end

def array? : Tree → Option (List Tree)
  | .array items => some items
  | _ => none

def bool? : Tree → Option Bool
  | .bool value => some value
  | _ => none

def string? : Tree → Option String
  | .string pieces => decodePieces? pieces
  | _ => none

/-- An integer literal. -/
def int? : Tree → Option Int
  | .number literal =>
    match literal.number? with
    | some (.int value) => some value
    | _ => none
  | _ => none

/-- An integer literal within `0 ≤ n < bound`. -/
def natBelow? (bound : Nat) (tree : Tree) : Option Nat :=
  tree.int?.bind fun value => if 0 ≤ value ∧ value < bound then some value.toNat else none

/-- A number literal, rounded to single precision. -/
def single? : Tree → Option Binary32
  | .number literal => literal.number?.map (·.toBinary .single)
  | _ => none

/-- The members of an object with their keys decoded. -/
def members : List (List Piece × Tree) → Option (List (String × Tree)) :=
  fun raw => raw.mapM fun (key, item) => (decodePieces? key).map fun name => (name, item)

/-- The value of a field that occurs at most once; none where it is repeated. -/
def field? (members : List (String × Tree)) (name : String) : Option (Option Tree) :=
  match members.filter fun member => member.1 == name with
  | [] => some none
  | [member] => some (some member.2)
  | _ => none

/-- The named fields of a record, in the order of the names; none for a field that is missing. -/
def record? (names : List String) : Tree → Option (List (Option Tree))
  | .array items =>
    if items.length ≤ names.length then
      some (items.map some ++ List.replicate (names.length - items.length) none)
    else none
  | .object raw => (members raw).bind fun known => names.mapM (field? known)
  | _ => none

/-- The named fields of an object that lies inside `depth - 1` containers, and its other members
with their values. -/
def openRecord? (depth : Nat) (names : List String) :
    Tree → Option (List (Option Tree) × List (String × Json))
  | .object raw => do
    let known ← members raw
    let fields ← names.mapM (field? known)
    let rest ← (known.filter fun member => !names.contains member.1).mapM fun (name, item) =>
      (value? depth item).map fun value => (name, value)
    pure (fields, rest)
  | _ => none

end Tree

end Json

end NodeScript
