import NodeScript.Json.Token

/-!
Syntax trees of JSON text. A tree keeps literals and strings as they are spelled: their values are
taken only where the text is interpreted, so that parts nobody asks for need to be well formed but
may hold numbers out of range and broken surrogate pairs.

The builder reads one token at a time and keeps the containers that are still open on a stack, so
the depth of a text is not limited by it.
-/
namespace NodeScript.Json

inductive Tree
  | null
  | bool (value : Bool)
  | number (literal : Literal)
  | string (pieces : List Piece)
  | array (items : List Tree)
  | object (members : List (List Piece × Tree))
  deriving Inhabited

namespace Builder

/-- A container that is still open, its parts in reverse. -/
inductive Frame
  | array (items : List Tree)
  | object (members : List (List Piece × Tree)) (key : List Piece)

/-- What the next token has to be. -/
inductive Expectation
  | value
  | firstItem
  | firstKey
  | key (members : List (List Piece × Tree))
  | colon (members : List (List Piece × Tree)) (key : List Piece)
  | separator (last : Tree)

structure State where
  stack : List Frame
  expected : Expectation

def start : State := ⟨[], .value⟩

/-- A token where a value must begin. -/
def value? (stack : List Frame) : Token → Option State
  | .null => some ⟨stack, .separator .null⟩
  | .bool b => some ⟨stack, .separator (.bool b)⟩
  | .number literal => some ⟨stack, .separator (.number literal)⟩
  | .string pieces => some ⟨stack, .separator (.string pieces)⟩
  | .openArray => some ⟨stack, .firstItem⟩
  | .openObject => some ⟨stack, .firstKey⟩
  | _ => none

/-- A token after a complete value. -/
def separator? (last : Tree) : List Frame → Token → Option State
  | .array items :: stack, .comma => some ⟨.array (last :: items) :: stack, .value⟩
  | .array items :: stack, .closeArray =>
    some ⟨stack, .separator (.array (last :: items).reverse)⟩
  | .object members key :: stack, .comma => some ⟨stack, .key ((key, last) :: members)⟩
  | .object members key :: stack, .closeObject =>
    some ⟨stack, .separator (.object ((key, last) :: members).reverse)⟩
  | _, _ => none

def step? (state : State) (token : Token) : Option State :=
  match state.expected with
  | .value => value? state.stack token
  | .firstItem =>
    match token with
    | .closeArray => some ⟨state.stack, .separator (.array [])⟩
    | token => value? (.array [] :: state.stack) token
  | .firstKey =>
    match token with
    | .closeObject => some ⟨state.stack, .separator (.object [])⟩
    | .string key => some ⟨state.stack, .colon [] key⟩
    | _ => none
  | .key members =>
    match token with
    | .string key => some ⟨state.stack, .colon members key⟩
    | _ => none
  | .colon members key =>
    match token with
    | .colon => some ⟨.object members key :: state.stack, .value⟩
    | _ => none
  | .separator last => separator? last state.stack token

/-- The tree, once every container is closed. -/
def finish? (state : State) : Option Tree :=
  match state.stack, state.expected with
  | [], .separator tree => some tree
  | _, _ => none

end Builder

/-- The tree of a token sequence that is exactly one JSON value. -/
def Tree.ofTokens? (tokens : List Token) : Option Tree :=
  (tokens.foldlM Builder.step? Builder.start).bind Builder.finish?

/-- Reads a text that is exactly one JSON value. -/
def Tree.parse? (text : String) : Option Tree := (tokens? text.toList).bind Tree.ofTokens?

end NodeScript.Json
