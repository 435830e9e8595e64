import NodeScript.Graph.Kind

/-!
The data that a packed record holds for its node type. Packed records store less than graphs do:
waiting times in sixteen bits, loop counts in eight, and constants in place of Value inputs.
-/
namespace NodeScript

/-- The `width` lowest bytes of `n`, most significant first. -/
def bigEndian : (width : Nat) → (n : Nat) → List UInt8
  | 0, _ => []
  | width + 1, n => bigEndian width (n / 256) ++ [n.toUInt8]

/-- The number that bytes spell, most significant first. -/
def ofBigEndian (bytes : List UInt8) : Nat :=
  bytes.foldl (fun value byte => value * 256 + byte.toNat) 0

namespace Packed

inductive Payload
  | start
  | wait (millis : UInt16)
  | deleteObject (object : UInt16)
  | sendEvent (object : UInt16) (eventType : UInt16) (value : UInt32)
  | compare (op : CompareOp) (a : Int32) (b : Int32)
  | value (number : UInt16)
  | loop (counterSlot : UInt8) (count : UInt8)
  | function (hash : UInt32) (argument : UInt32)
  deriving DecidableEq, Repr

namespace Payload

/-- The number of bytes of a payload, by which records are placed before any is written. -/
def size : Payload → Nat
  | start => 0
  | wait _ | deleteObject _ | value _ => 2
  | loop _ _ => 2
  | sendEvent _ _ _ | function _ _ => 8
  | compare _ _ _ => 10

/-- All numbers are written most significant byte first. A comparison is padded to even length. -/
def toBytes : Payload → List UInt8
  | start => []
  | wait millis => bigEndian 2 millis.toNat
  | deleteObject object => bigEndian 2 object.toNat
  | sendEvent object eventType content =>
    bigEndian 2 object.toNat ++ bigEndian 2 eventType.toNat ++ bigEndian 4 content.toNat
  | compare op a b =>
    [op.code.toUInt8, 0] ++ bigEndian 4 a.toUInt32.toNat ++ bigEndian 4 b.toUInt32.toNat
  | value number => bigEndian 2 number.toNat
  | loop counterSlot count => [counterSlot, count]
  | function hash argument => bigEndian 4 hash.toNat ++ bigEndian 4 argument.toNat

/-- A dump of the payload with its field names. -/
def describe : Payload → String
  | start => "Start"
  | wait millis => "Wait \x7b millis: " ++ toString millis.toNat ++ " \x7d"
  | deleteObject object => "ObjDel \x7b object: " ++ toString object.toNat ++ " \x7d"
  | sendEvent object eventType content =>
    "ObjEvent \x7b object: " ++ toString object.toNat ++ ", event_type: "
      ++ toString eventType.toNat ++ ", value: " ++ toString content.toNat ++ " \x7d"
  | compare op a b =>
    "Compare \x7b op: " ++ op.tag ++ ", a: " ++ toString a.toInt ++ ", b: " ++ toString b.toInt
      ++ " \x7d"
  | value number => "Value(" ++ toString number.toNat ++ ")"
  | loop counterSlot count =>
    "Repeat \x7b counter_slot: " ++ toString counterSlot.toNat ++ ", count: "
      ++ toString count.toNat ++ " \x7d"
  | function hash argument =>
    "Func \x7b hash: " ++ toString hash.toNat ++ ", arg: " ++ toString argument.toNat ++ " \x7d"

end Payload

end Packed

end NodeScript
