import NodeScript.Graph.Basic
import NodeScript.Packed.Payload

/-!
Reading of packed graphs. The records are read one after the other; then every distance has to
lead to the start of a record. Bytes after the last record are not looked at.
-/
namespace NodeScript

/-- Why packed data cannot be read. Offsets count bytes from the beginning. -/
inductive DecodeError
  | truncated (offset : Nat) (what : String)
  | unknownType (offset : Nat) (tag : Nat)
  | badOffset (offset : Nat) (target : Int)
  | badField (offset : Nat) (what : String)
  deriving DecidableEq, Repr

def DecodeError.message : DecodeError → String
  | .truncated offset what =>
    "Blob ended at byte " ++ toString offset ++ " while reading " ++ what
  | .unknownType offset tag =>
    "Record at byte " ++ toString offset ++ " has unknown type tag " ++ toString tag
  | .badOffset offset target =>
    "Record at byte " ++ toString offset ++ " points to byte " ++ toString target
      ++ ", which is not a record start"
  | .badField offset what => "Record at byte " ++ toString offset ++ " has an invalid " ++ what

namespace Packed

/-- The bytes that are left, and how many came before them. -/
structure Cursor where
  rest : List UInt8
  offset : Nat
  deriving DecidableEq, Repr

/-- A reader moves the cursor over what it reads, or fails. -/
abbrev Reader := StateT Cursor (Except DecodeError)

namespace Reader

/-- A number of `width` bytes. Where they are missing, the error tells where the field begins. -/
def number (width : Nat) (what : String) : Reader Nat := fun cursor =>
  let taken := cursor.rest.take width
  if taken.length = width then
    .ok (ofBigEndian taken, ⟨cursor.rest.drop width, cursor.offset + width⟩)
  else .error (.truncated cursor.offset what)

def word8 (what : String) : Reader UInt8 := do
  let n ← number 1 what
  pure n.toUInt8

def word16 (what : String) : Reader UInt16 := do
  let n ← number 2 what
  pure n.toUInt16

def word32 (what : String) : Reader UInt32 := do
  let n ← number 4 what
  pure n.toUInt32

/-- A signed distance in two's complement. -/
def distance : Reader Int := do
  let n ← number 2 "output offset"
  pure (if n < 32768 then n else n - 65536)

def distances : (count : Nat) → Reader (List Int)
  | 0 => pure []
  | count + 1 => do
    let first ← distance
    let rest ← distances count
    pure (first :: rest)

/-- The payload of a record that began at `start`. -/
def payload (start : Nat) : NodeType → Reader Payload
  | .start => pure .start
  | .wait => do
    let millis ← word16 "wait duration"
    pure (.wait millis)
  | .deleteObject => do
    let object ← word16 "object id"
    pure (.deleteObject object)
  | .sendEvent => do
    let object ← word16 "object id"
    let eventType ← word16 "event type"
    let value ← word32 "event value"
    pure (.sendEvent object eventType value)
  | .compare => do
    let code ← number 1 "compare type"
    match CompareOp.ofCode? code with
    | none => throw (.badField start "compare type")
    | some op =>
      let _ ← word8 "padding"
      let a ← word32 "compare operand"
      let b ← word32 "compare operand"
      pure (.compare op a.toInt32 b.toInt32)
  | .value => do
    let number ← word16 "value"
    pure (.value number)
  | .loop => do
    let counterSlot ← word8 "counter slot"
    let count ← word8 "repeat count"
    pure (.loop counterSlot count)
  | .function => do
    let hash ← word32 "function hash"
    let argument ← word32 "function argument"
    pure (.function hash argument)

end Reader

/-- A record as read, its successors still given by distances. -/
structure Record where
  offset : Nat
  type : NodeType
  distances : List Int
  payload : Payload
  deriving DecidableEq, Repr

namespace Reader

def record : Reader Record := do
  let start := (← get).offset
  let tag ← number 1 "record type"
  match NodeType.ofId? tag with
  | none => throw (.unknownType start tag)
  | some type =>
    let count ← number 1 "output count"
    let distances ← distances count
    let data ← payload start type
    if ((← get).offset - start) % 2 = 1 then
      let _ ← word8 "padding"
    pure ⟨start, type, distances, data⟩

def records : (count : Nat) → Reader (List Record)
  | 0 => pure []
  | count + 1 => do
    let first ← record
    let rest ← records count
    pure (first :: rest)

/-- The header's identifier and stack size, and all records. -/
def contents : Reader (UInt64 × UInt16 × List Record) := do
  let uuid ← number 8 "header uuid"
  let stackSize ← word16 "header stack size"
  let count ← number 2 "header record count"
  let read ← records count
  pure (uuid.toUInt64, stackSize, read)

end Reader

/-- A record whose successors are indices of records. -/
structure Unpacked where
  offset : Nat
  type : NodeType
  successors : List (Option Nat)
  payload : Payload
  deriving DecidableEq, Repr

/-- A packed graph that has been read. The first record is that of the Start node. -/
structure Blob where
  uuid : UInt64
  stackSize : UInt16
  nodes : List Unpacked
  deriving DecidableEq, Repr

/-- The index of the record that starts at a distance from `offset`. -/
def resolve (starts : List Nat) (offset : Nat) (steps : Int) : Except DecodeError (Option Nat) :=
  if steps = -32768 then .ok none
  else
    let target : Int := offset + steps
    match starts.findIdx? fun start => Int.ofNat start == target with
    | some index => .ok (some index)
    | none => .error (.badOffset offset target)

def Record.unpack (starts : List Nat) (r : Record) : Except DecodeError Unpacked := do
  let successors ← r.distances.mapM (resolve starts r.offset)
  pure ⟨r.offset, r.type, successors, r.payload⟩

/-- Reads a packed graph. -/
def unpack (bytes : List UInt8) : Except DecodeError Blob := do
  let ((uuid, stackSize, records), _) ← Reader.contents.run ⟨bytes, 0⟩
  let nodes ← records.mapM (Record.unpack (records.map (·.offset)))
  pure ⟨uuid, stackSize, nodes⟩

/-- The record that an output of a record leads to. -/
def Blob.successor? (blob : Blob) (index pin : Nat) : Option Unpacked := do
  let node ← blob.nodes[index]?
  let next ← (← node.successors[pin]?)
  blob.nodes[next]?

end Packed

end NodeScript
