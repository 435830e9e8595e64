import NodeScript.Checksum
import NodeScript.Text.Hex

/-!
User functions and the registry that finds them by the checksum of their name. Functions are only
added; a later registration of the same hash takes the place of an earlier one.
-/
namespace NodeScript

/-- A registered function. Its result depends on its argument and on the arguments of its earlier
calls, which is all that a function can know of the scripts that call it. -/
structure UserFunction where
  /-- The position of the registration, which tells functions apart. -/
  id : Nat
  hash : UInt32
  result : (earlier : List UInt32) → (argument : UInt32) → Int32

/-- The registrations in their order. -/
structure Registry where
  functions : List UserFunction

namespace Registry

def empty : Registry := ⟨[]⟩

def register (r : Registry) (hash : UInt32) (result : List UInt32 → UInt32 → Int32) : Registry :=
  ⟨r.functions ++ [⟨r.functions.length, hash, result⟩]⟩

/-- The function registered last under a hash. -/
def resolve? (r : Registry) (hash : UInt32) : Option UserFunction :=
  r.functions.reverse.find? fun function => function.hash == hash

def contains (r : Registry) (hash : UInt32) : Bool := (r.resolve? hash).isSome

/-- The registered hashes, each once, in ascending order. -/
def hashes (r : Registry) : List UInt32 :=
  ((r.functions.map (·.hash)).eraseDups).mergeSort fun a b => decide (a ≤ b)

/-- The number of hashes that resolve to a function. -/
def size (r : Registry) : Nat := r.hashes.length

def describe (r : Registry) : String :=
  "FunctionRegistry \x7b functions: ["
    ++ ", ".intercalate (r.hashes.map fun hash => "\"" ++ hex32 hash ++ "\"") ++ "] \x7d"

end Registry

end NodeScript
