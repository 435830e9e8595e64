import NodeScript.Binary.Decimal
import NodeScript.Json.Value

/-!
JSON text of values: compact, or with one member per line and two blanks of indentation for each
level. Only what JSON requires is escaped in strings. A number that is not finite is written as
`null`.
-/
namespace NodeScript.Json

/-- Single-precision numbers are positional from `1e-6` up to below `1e13`. -/
def singleStyle : DecimalStyle := ⟨-6, 13⟩

/-- Double-precision numbers are positional from `1e-5` up to below `1e16`. -/
def doubleStyle : DecimalStyle := ⟨-5, 16⟩

def lowerHexDigit (n : Nat) : Char :=
  if n < 10 then Char.ofNat (48 + n) else Char.ofNat (87 + n)

/-- How one character is written within a string. -/
def escapeChar (c : Char) : List Char :=
  if c = '"' then ['\\', '"']
  else if c = '\\' then ['\\', '\\']
  else if c = '\x08' then ['\\', 'b']
  else if c = '\x0c' then ['\\', 'f']
  else if c = '\n' then ['\\', 'n']
  else if c = '\r' then ['\\', 'r']
  else if c = '\t' then ['\\', 't']
  else if c.toNat < 0x20 then
    ['\\', 'u', '0', '0', lowerHexDigit (c.toNat / 16), lowerHexDigit (c.toNat % 16)]
  else [c]

/-- A string in quotes. -/
def quoted (text : String) : List Char := '"' :: (text.toList.flatMap escapeChar ++ ['"'])

/-- A finite number in its style, and `null` for any other. -/
def floatText {F : Format} (style : DecimalStyle) (x : Binary F) : List Char :=
  if x.isFinite then style.render x else ['n', 'u', 'l', 'l']

def intText (n : Int) : List Char :=
  if n < 0 then '-' :: Nat.toDigits 10 n.natAbs else Nat.toDigits 10 n.natAbs

/-- The text of a value that is no container. -/
def scalarText : Json → List Char
  | .null => ['n', 'u', 'l', 'l']
  | .bool true => ['t', 'r', 'u', 'e']
  | .bool false => ['f', 'a', 'l', 's', 'e']
  | .int value => intText value
  | .single value => floatText singleStyle value
  | .double value => floatText doubleStyle value
  | .string value => quoted value
  | .array _ => []
  | .object _ => []

mutual

def compactChars : Json → List Char
  | .array [] => ['[', ']']
  | .array (item :: rest) => '[' :: (compactChars item ++ compactItems rest ++ [']'])
  | .object [] => ['\x7b', '\x7d']
  | .object ((key, value) :: rest) =>
    '\x7b' :: (quoted key ++ ':' :: compactChars value ++ compactMembers rest ++ ['\x7d'])
  | .null => scalarText .null
  | .bool value => scalarText (.bool value)
  | .int value => scalarText (.int value)
  | .single value => scalarText (.single value)
  | .double value => scalarText (.double value)
  | .string value => scalarText (.string value)

def compactItems : List Json → List Char
  | [] => []
  | item :: rest => ',' :: (compactChars item ++ compactItems rest)

def compactMembers : List (String × Json) → List Char
  | [] => []
  | (key, value) :: rest =>
    ',' :: (quoted key ++ ':' :: compactChars value ++ compactMembers rest)

end

/-- A new line indented by `level` steps. -/
def newLine (level : Nat) : List Char := '\n' :: List.replicate (2 * level) ' '

mutual

def prettyChars (level : Nat) : Json → List Char
  | .array [] => ['[', ']']
  | .array (item :: rest) =>
    '[' :: (newLine (level + 1) ++ prettyChars (level + 1) item ++ prettyItems (level + 1) rest
      ++ newLine level ++ [']'])
  | .object [] => ['\x7b', '\x7d']
  | .object ((key, value) :: rest) =>
    '\x7b' :: (newLine (level + 1) ++ quoted key ++ ':' :: ' ' :: prettyChars (level + 1) value
      ++ prettyMembers (level + 1) rest ++ newLine level ++ ['\x7d'])
  | .null => scalarText .null
  | .bool value => scalarText (.bool value)
  | .int value => scalarText (.int value)
  | .single value => scalarText (.single value)
  | .double value => scalarText (.double value)
  | .string value => scalarText (.string value)

def prettyItems (level : Nat) : List Json → List Char
  | [] => []
  | item :: rest => ',' :: (newLine level ++ prettyChars level item ++ prettyItems level rest)

def prettyMembers (level : Nat) : List (String × Json) → List Char
  | [] => []
  | (key, value) :: rest =>
    ',' :: (newLine level ++ quoted key ++ ':' :: ' ' :: prettyChars level value
      ++ prettyMembers level rest)

end

/-- The value on one line without blanks. -/
def compact (value : Json) : String := String.ofList (compactChars value)

/-- The value with one member or item per line. -/
def pretty (value : Json) : String := String.ofList (prettyChars 0 value)

end NodeScript.Json
