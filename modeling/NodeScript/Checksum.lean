/-!
The 32-bit cyclic redundancy check that keys user functions by name: reflected polynomial
`0xEDB88320`, all ones as initial value and a final complement, one table look-up per byte.
-/
namespace NodeScript.Checksum

/-- One bit of reflected polynomial division. -/
def shiftBit (register : UInt32) : UInt32 :=
  if register &&& 1 = 0 then register >>> 1 else (register >>> 1) ^^^ 0xEDB88320

/-- `count` bits of division. -/
def shiftBits : (count : Nat) → UInt32 → UInt32
  | 0, register => register
  | count + 1, register => shiftBits count (shiftBit register)

/-- What a whole byte contributes, for every value of that byte. -/
def table : Vector UInt32 256 := Vector.ofFn fun byte => shiftBits 8 byte.val.toUInt32

/-- Folds one byte into the register through the table. -/
def absorb (register : UInt32) (byte : UInt8) : UInt32 :=
  table.get (register ^^^ byte.toUInt32).toUInt8.toFin ^^^ (register >>> 8)

/-- The checksum of a byte sequence. -/
def ofBytes (bytes : List UInt8) : UInt32 := ~~~(bytes.foldl absorb 0xFFFFFFFF)

end NodeScript.Checksum

namespace NodeScript

/-- The checksum of a text's UTF-8 bytes. -/
def crc32 (text : String) : UInt32 := Checksum.ofBytes text.toUTF8.toList

end NodeScript
