import NodeScript.Table.Basic

/-!
Table files. Unsigned words, counts, lengths and tags are written with a variable length: a value
below 251 is one byte, larger ones follow a marker byte in two, four or eight bytes, least
significant first. Signed words are folded to unsigned ones, comparison operators and the presence
of optional values are single raw bytes, and texts are UTF-8 after their length in bytes.

Readers accept longer forms than necessary, up to the width of the field. Bytes after the table
are not looked at.
-/
namespace NodeScript

/-- The `width` lowest bytes of `n`, least significant first. -/
def littleEndian : (width : Nat) → (n : Nat) → List UInt8
  | 0, _ => []
  | width + 1, n => n.toUInt8 :: littleEndian width (n / 256)

/-- The number that bytes spell, least significant first. -/
def ofLittleEndian (bytes : List UInt8) : Nat :=
  bytes.foldr (fun byte rest => byte.toNat + 256 * rest) 0

namespace Encoding

def nat (n : Nat) : List UInt8 :=
  if n < 251 then [n.toUInt8]
  else if n < UInt16.size then 251 :: littleEndian 2 n
  else if n < UInt32.size then 252 :: littleEndian 4 n
  else 253 :: littleEndian 8 n

/-- Folds the sign into the lowest bit, so that numbers near zero stay short. -/
def foldSign (value : Int64) : Nat :=
  if value.toInt < 0 then 2 * value.toInt.natAbs - 1 else 2 * value.toInt.natAbs

def int64 (value : Int64) : List UInt8 := nat (foldSign value)

def text (s : String) : List UInt8 := nat s.utf8ByteSize ++ s.toUTF8.toList

def list {α : Type} (item : α → List UInt8) (items : List α) : List UInt8 :=
  nat items.length ++ items.flatMap item

def option {α : Type} (item : α → List UInt8) : Option α → List UInt8
  | none => [0]
  | some value => 1 :: item value

def operand : Operand → List UInt8
  | .constant value => nat 0 ++ int64 value
  | .global slot => nat 1 ++ nat slot.toNat
  | .frame slot => nat 2 ++ nat slot.toNat

def instruction : Instruction → List UInt8
  | .setLocal slot value => nat 0 ++ nat slot.toNat ++ int64 value
  | .sleep duration => nat 1 ++ operand duration
  | .deleteObject object => nat 2 ++ operand object
  | .sendEvent object eventType value =>
    nat 3 ++ operand object ++ operand eventType ++ operand value
  | .call function argument result =>
    nat 4 ++ nat function.toNat ++ operand argument ++ nat result.toNat
  | .jumpUnless op lhs rhs target =>
    nat 5 ++ [op.code.toUInt8] ++ operand lhs ++ operand rhs ++ nat target.toNat
  | .loop counter bound exit =>
    nat 6 ++ nat counter.toNat ++ nat bound.toNat ++ nat exit.toNat
  | .jump target => nat 7 ++ nat target.toNat
  | .finish => nat 8

def globalKind : GlobalKind → List UInt8
  | .number => nat 0
  | .counter => nat 1
  | .function hash => nat 2 ++ nat hash.toNat

def global (g : Global) : List UInt8 := text g.name ++ globalKind g.kind ++ int64 g.initial

def address (entry : Addr) : List UInt8 := nat entry.toNat

def program (p : Program) : List UInt8 :=
  list instruction p.code.toList
    ++ option address p.entries.init ++ option address p.entries.event
    ++ option address p.entries.collision
    ++ list global p.globals.toList ++ nat p.maxLocals.toNat

def script (s : Script) : List UInt8 :=
  nat s.uuid.toNat ++ text s.name ++ text s.function ++ program s.program
    ++ nat s.stackSize.toNat ++ text s.source

end Encoding

/-- A reader takes bytes from the front, or fails. -/
abbrev Decoder := StateT (List UInt8) Option

namespace Decoder

def byte : Decoder UInt8 := fun bytes =>
  match bytes with
  | [] => none
  | first :: rest => some (first, rest)

def bytes (count : Nat) : Decoder (List UInt8) := fun input =>
  let taken := input.take count
  if taken.length = count then some (taken, input.drop count) else none

def fixed (width : Nat) : Decoder Nat := do
  let taken ← bytes width
  pure (ofLittleEndian taken)

/-- A number for a field of `width` bytes. -/
def nat (width : Nat) : Decoder Nat := do
  let first ← byte
  if first < 251 then pure first.toNat
  else if first = 251 ∧ 2 ≤ width then fixed 2
  else if first = 252 ∧ 4 ≤ width then fixed 4
  else if first = 253 ∧ 8 ≤ width then fixed 8
  else failure

def word16 : Decoder UInt16 := do
  let n ← nat 2
  pure n.toUInt16

def word32 : Decoder UInt32 := do
  let n ← nat 4
  pure n.toUInt32

def word64 : Decoder UInt64 := do
  let n ← nat 8
  pure n.toUInt64

def unfoldSign (n : Nat) : Int64 :=
  if n % 2 = 0 then Int64.ofInt (n / 2 : Nat) else Int64.ofInt (-((n / 2 : Nat) + 1))

def int64 : Decoder Int64 := do
  let n ← nat 8
  pure (unfoldSign n)

def text : Decoder String := do
  let size ← nat 8
  let content ← bytes size
  match String.fromUTF8? content.toByteArray with
  | some s => pure s
  | none => failure

def many {α : Type} (item : Decoder α) : (count : Nat) → Decoder (List α)
  | 0 => pure []
  | count + 1 => do
    let first ← item
    let rest ← many item count
    pure (first :: rest)

def list {α : Type} (item : Decoder α) : Decoder (List α) := do
  let count ← nat 8
  many item count

def option {α : Type} (item : Decoder α) : Decoder (Option α) := do
  let mark ← byte
  if mark = 0 then pure none
  else if mark = 1 then some <$> item
  else failure

def operand : Decoder Operand := do
  let tag ← nat 4
  match tag with
  | 0 => .constant <$> int64
  | 1 => .global <$> word16
  | 2 => .frame <$> word16
  | _ => failure

def compareOp : Decoder CompareOp := do
  let code ← byte
  match CompareOp.ofCode? code.toNat with
  | some op => pure op
  | none => failure

def instruction : Decoder Instruction := do
  let tag ← nat 4
  match tag with
  | 0 => do
    let slot ← word16
    let value ← int64
    pure (.setLocal slot value)
  | 1 => .sleep <$> operand
  | 2 => .deleteObject <$> operand
  | 3 => do
    let object ← operand
    let eventType ← operand
    let value ← operand
    pure (.sendEvent object eventType value)
  | 4 => do
    let function ← word16
    let argument ← operand
    let result ← word16
    pure (.call function argument result)
  | 5 => do
    let op ← compareOp
    let lhs ← operand
    let rhs ← operand
    let target ← word32
    pure (.jumpUnless op lhs rhs target)
  | 6 => do
    let counter ← word16
    let bound ← word32
    let exit ← word32
    pure (.loop counter bound exit)
  | 7 => .jump <$> word32
  | 8 => pure .finish
  | _ => failure

def globalKind : Decoder GlobalKind := do
  let tag ← nat 4
  match tag with
  | 0 => pure .number
  | 1 => pure .counter
  | 2 => .function <$> word32
  | _ => failure

def global : Decoder Global := do
  let name ← text
  let kind ← globalKind
  let initial ← int64
  pure ⟨name, kind, initial⟩

def program : Decoder Program := do
  let code ← list instruction
  let init ← option word32
  let event ← option word32
  let collision ← option word32
  let globals ← list global
  let maxLocals ← word16
  pure ⟨code.toArray, ⟨init, event, collision⟩, globals.toArray, maxLocals⟩

def script : Decoder Script := do
  let uuid ← word64
  let name ← text
  let function ← text
  let program ← program
  let stackSize ← word16
  let source ← text
  pure ⟨uuid, name, function, program, stackSize, source⟩

end Decoder

namespace Table

def toBytes (t : Table) : List UInt8 := Encoding.list Encoding.script t.scripts

/-- Reads a table from the front of a byte sequence. The order of its scripts is taken as it is. -/
def ofBytes? (bytes : List UInt8) : Option Table :=
  (Decoder.list Decoder.script bytes).map fun (scripts, _) => ⟨scripts⟩

end Table

end NodeScript
