import NodeScript.Json.Number

/-!
Tokens of JSON text. The lexer is an automaton that reads one character at a time, so reading a
text that is put together from two parts is reading the first and going on with the second.

Escapes of the form `\uXXXX` are kept as code units: whether a lone half of a surrogate pair is
allowed depends on whether anyone looks at the string.
-/
namespace NodeScript.Json

/-- A piece of a string: a character, or a code unit written as a numeric escape. -/
inductive Piece
  | char (c : Char)
  | unit (code : Nat)
  deriving DecidableEq, Repr

inductive Token
  | openArray | closeArray | openObject | closeObject | comma | colon
  | null | bool (value : Bool)
  | number (literal : Literal)
  | string (pieces : List Piece)
  deriving DecidableEq, Repr

/-- The text of a string, where `pending` is a first half of a surrogate pair that waits for its
second; none where a half stands alone. -/
def decodeFrom? : (pending : Option Nat) → List Piece → Option (List Char)
  | none, [] => some []
  | none, .char c :: rest => (decodeFrom? none rest).map (c :: ·)
  | none, .unit code :: rest =>
    if code < 0xD800 ∨ 0xE000 ≤ code then (decodeFrom? none rest).map (Char.ofNat code :: ·)
    else if code < 0xDC00 then decodeFrom? (some code) rest
    else none
  | some high, .unit low :: rest =>
    if 0xDC00 ≤ low ∧ low < 0xE000 then
      (decodeFrom? none rest).map
        (Char.ofNat (0x10000 + (high - 0xD800) * 0x400 + (low - 0xDC00)) :: ·)
    else none
  | some _, _ => none

/-- The text of a string, unless a half of a surrogate pair stands alone in it. -/
def decodePieces? (pieces : List Piece) : Option String :=
  (decodeFrom? none pieces).map String.ofList

namespace Lexer

/-- What the lexer is in the middle of; collected parts are held in reverse. -/
inductive Mode
  | ready
  | word (rest : List Char) (token : Token)
  | number (chars : List Char)
  | string (pieces : List Piece)
  | escape (pieces : List Piece)
  | unicode (pieces : List Piece) (missing : Nat) (code : Nat)
  deriving DecidableEq, Repr

/-- The tokens read so far, in reverse, and the state within the next one. -/
structure State where
  mode : Mode
  tokens : List Token
  deriving DecidableEq, Repr

def start : State := ⟨.ready, []⟩

def isBlank (c : Char) : Bool := c = ' ' ∨ c = '\t' ∨ c = '\n' ∨ c = '\r'

/-- Characters that may stand in a number literal. -/
def isNumeric (c : Char) : Bool :=
  c.isDigit ∨ c = '-' ∨ c = '+' ∨ c = '.' ∨ c = 'e' ∨ c = 'E'

def hexValue? (c : Char) : Option Nat :=
  if c.isDigit then some (c.toNat - 48)
  else if 'a' ≤ c ∧ c ≤ 'f' then some (c.toNat - 87)
  else if 'A' ≤ c ∧ c ≤ 'F' then some (c.toNat - 55)
  else none

/-- The character that a one-letter escape stands for. -/
def escaped? (c : Char) : Option Char :=
  match c with
  | '"' => some '"'
  | '\\' => some '\\'
  | '/' => some '/'
  | 'b' => some '\x08'
  | 'f' => some '\x0c'
  | 'n' => some '\n'
  | 'r' => some '\r'
  | 't' => some '\t'
  | _ => none

/-- A character between tokens. -/
def begin? (tokens : List Token) (c : Char) : Option State :=
  if isBlank c then some ⟨.ready, tokens⟩
  else if c.isDigit ∨ c = '-' then some ⟨.number [c], tokens⟩
  else match c with
    | '[' => some ⟨.ready, .openArray :: tokens⟩
    | ']' => some ⟨.ready, .closeArray :: tokens⟩
    | '\x7b' => some ⟨.ready, .openObject :: tokens⟩
    | '\x7d' => some ⟨.ready, .closeObject :: tokens⟩
    | ',' => some ⟨.ready, .comma :: tokens⟩
    | ':' => some ⟨.ready, .colon :: tokens⟩
    | '"' => some ⟨.string [], tokens⟩
    | 'n' => some ⟨.word ['u', 'l', 'l'] .null, tokens⟩
    | 't' => some ⟨.word ['r', 'u', 'e'] (.bool true), tokens⟩
    | 'f' => some ⟨.word ['a', 'l', 's', 'e'] (.bool false), tokens⟩
    | _ => none

/-- The number whose characters have been collected. -/
def closeNumber? (chars : List Char) (tokens : List Token) : Option (List Token) :=
  (Literal.ofChars? chars.reverse).map fun literal => .number literal :: tokens

/-- Reads one character; none where no text that goes on like this is JSON. -/
def step? (state : State) (c : Char) : Option State :=
  match state.mode with
  | .ready => begin? state.tokens c
  | .word [] _ => none
  | .word [last] token => if c = last then some ⟨.ready, token :: state.tokens⟩ else none
  | .word (next :: rest) token => if c = next then some ⟨.word rest token, state.tokens⟩ else none
  | .number chars =>
    if isNumeric c then some ⟨.number (c :: chars), state.tokens⟩
    else (closeNumber? chars state.tokens).bind fun tokens => begin? tokens c
  | .string pieces =>
    if c = '"' then some ⟨.ready, .string pieces.reverse :: state.tokens⟩
    else if c = '\\' then some ⟨.escape pieces, state.tokens⟩
    else if c.toNat < 0x20 then none
    else some ⟨.string (.char c :: pieces), state.tokens⟩
  | .escape pieces =>
    if c = 'u' then some ⟨.unicode pieces 4 0, state.tokens⟩
    else (escaped? c).map fun plain => ⟨.string (.char plain :: pieces), state.tokens⟩
  | .unicode _ 0 _ => none
  | .unicode pieces 1 code =>
    (hexValue? c).map fun digit => ⟨.string (.unit (code * 16 + digit) :: pieces), state.tokens⟩
  | .unicode pieces (missing + 2) code =>
    (hexValue? c).map fun digit =>
      ⟨.unicode pieces (missing + 1) (code * 16 + digit), state.tokens⟩

/-- The tokens at the end of the text, unless it ends inside one. -/
def finish? (state : State) : Option (List Token) :=
  match state.mode with
  | .ready => some state.tokens.reverse
  | .number chars => (closeNumber? chars state.tokens).map List.reverse
  | _ => none

end Lexer

/-- The tokens of a text. -/
def tokens? (text : List Char) : Option (List Token) :=
  (text.foldlM Lexer.step? Lexer.start).bind Lexer.finish?

end NodeScript.Json
