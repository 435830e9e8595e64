import NodeScript.Binary.Basic

/-!
Number literals of JSON and their values.

A literal without fraction and exponent that fits a signed or unsigned 64-bit word is an integer.
Every other literal is a binary64 number, and so is `-0`. Reading it keeps the leading digits that
fit a 64-bit significand and applies the power of ten in one multiplication or division, each
rounded once; a result past the largest finite number is no value.
-/
namespace NodeScript.Json

/-- A number as spelled: its digits, most significant first. -/
structure Literal where
  negative : Bool
  whole : List Nat
  /-- Empty when the literal has no fraction. -/
  fraction : List Nat
  /-- Whether the exponent is negative, and its digits. -/
  exponent : Option (Bool × List Nat)
  deriving DecidableEq, Repr

/-- What a literal denotes. -/
inductive Number
  | int (value : Int)
  | float (value : Binary64)
  deriving DecidableEq, Repr

/-- The value of a digit sequence. -/
def ofDigits (digits : List Nat) : Nat := digits.foldl (fun value digit => value * 10 + digit) 0

def digitValue (c : Char) : Nat := c.toNat - '0'.toNat

namespace Literal

/-- The exponent part of a literal, which takes all the remaining characters. -/
def exponentOfChars? : List Char → Option (Option (Bool × List Nat))
  | [] => some none
  | mark :: rest =>
    if mark = 'e' ∨ mark = 'E' then
      let (negative, digits) := match rest with
        | '-' :: digits => (true, digits)
        | '+' :: digits => (false, digits)
        | digits => (false, digits)
      if digits.isEmpty ∨ ¬ digits.all Char.isDigit then none
      else some (some (negative, digits.map digitValue))
    else none

/-- The fraction and exponent parts of a literal. -/
def tailOfChars? : List Char → Option (List Nat × Option (Bool × List Nat))
  | '.' :: rest =>
    let digits := rest.takeWhile Char.isDigit
    if digits.isEmpty then none
    else
      (exponentOfChars? (rest.dropWhile Char.isDigit)).map fun exponent =>
        (digits.map digitValue, exponent)
  | rest => (exponentOfChars? rest).map fun exponent => ([], exponent)

/-- A literal without its sign. A leading zero stands alone. -/
def unsignedOfChars? (negative : Bool) (chars : List Char) : Option Literal :=
  let whole := chars.takeWhile Char.isDigit
  if whole.isEmpty ∨ (whole.head? = some '0' ∧ 1 < whole.length) then none
  else
    (tailOfChars? (chars.dropWhile Char.isDigit)).map fun (fraction, exponent) =>
      ⟨negative, whole.map digitValue, fraction, exponent⟩

/-- Reads a whole character sequence as a number literal. -/
def ofChars? : List Char → Option Literal
  | '-' :: chars => unsignedOfChars? true chars
  | chars => unsignedOfChars? false chars

/-- Significands stay below this bound. -/
def wordBound : Nat := UInt64.size

/-- Extends a significand by whole digits while they fit; gives it with the number of digits left
out, each of which stands for a factor of ten. -/
def takeWhole : (significand : Nat) → List Nat → Nat × Nat
  | significand, [] => (significand, 0)
  | significand, digit :: rest =>
    if significand * 10 + digit < wordBound then takeWhole (significand * 10 + digit) rest
    else (significand, rest.length + 1)

/-- Extends a significand by fraction digits while they fit; gives it with the number of digits
taken. What does not fit is cut off. -/
def takeFraction : (significand : Nat) → List Nat → Nat × Nat
  | significand, [] => (significand, 0)
  | significand, digit :: rest =>
    if significand * 10 + digit < wordBound then
      let (total, taken) := takeFraction (significand * 10 + digit) rest
      (total, taken + 1)
    else (significand, 0)

/-- The largest power of ten that is a finite binary64 number. -/
def largestPower : Nat := 308

/-- Scales a magnitude by `10 ^ exponent`. Smaller powers than the least one at hand are applied
in several divisions; after three of them nothing is left of any finite number. -/
def scaleByPower? : (divisions : Nat) → (magnitude : Nat) → (exponent : Int) → Option Nat
  | 0, _, _ => some 0
  | divisions + 1, magnitude, exponent =>
    if exponent.natAbs ≤ largestPower then
      let power := Format.double.ofNat (Nat.pow 10 exponent.natAbs)
      if 0 ≤ exponent then
        let product := Format.double.mul magnitude power
        if product < Format.double.infinity then some product else none
      else some (Format.double.div magnitude power)
    else if magnitude = 0 then some 0
    else if 0 ≤ exponent then none
    else
      scaleByPower? divisions
        (Format.double.div magnitude (Format.double.ofNat (Nat.pow 10 largestPower)))
        (exponent + largestPower)

/-- Exponents are read up to the largest signed 32-bit word. -/
def exponentBound : Nat := 0x80000000

/-- The magnitude of a literal as a binary64 number. An exponent out of range is no error where
the result is zero all the same. -/
def magnitude? (l : Literal) : Option Nat :=
  let (whole, dropped) := takeWhole 0 l.whole
  let (significand, taken) :=
    if l.fraction.isEmpty then (whole, 0) else takeFraction whole l.fraction
  let start : Int := dropped - taken
  match l.exponent with
  | none => scaleByPower? 4 (Format.double.ofNat significand) start
  | some (negative, digits) =>
    let exponent := ofDigits digits
    if exponent < exponentBound then
      scaleByPower? 4 (Format.double.ofNat significand)
        (if negative then start - exponent else start + exponent)
    else if significand = 0 ∨ negative then some 0
    else none

def float? (l : Literal) : Option Binary64 := l.magnitude?.map fun m => ⟨l.negative, m⟩

/-- Whether the literal is spelled without fraction and exponent. -/
def isWhole (l : Literal) : Bool := l.fraction.isEmpty && l.exponent.isNone

/-- The value of a literal, if it is within range. -/
def number? (l : Literal) : Option Number :=
  let value := ofDigits l.whole
  if l.isWhole ∧ ¬ l.negative ∧ value < wordBound then some (.int value)
  else if l.isWhole ∧ l.negative ∧ 0 < value ∧ value ≤ 0x8000000000000000 then some (.int (-value))
  else l.float?.map .float

end Literal

namespace Number

/-- The nearest number of a format. Integers are rounded once. -/
def toBinary (F : Format) : Number → Binary F
  | .int value => .ofInt value
  | .float value => value.convert F

end Number

end NodeScript.Json
