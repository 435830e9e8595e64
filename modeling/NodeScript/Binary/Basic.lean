import NodeScript.Binary.Format

/-!
Signed floating-point numbers: a sign and a magnitude of a format. Equality of the type tells
signed zeros apart; `same` is the numeric comparison, where zeros agree and a value that is no
number differs from itself.
-/
namespace NodeScript

/-- A floating-point number of format `F`. -/
structure Binary (F : Format) where
  negative : Bool
  magnitude : Nat
  deriving DecidableEq, Repr

abbrev Binary32 := Binary .single

abbrev Binary64 := Binary .double

namespace Binary

variable {F : Format}

def zero : Binary F := ⟨false, 0⟩

def infinity (negative : Bool) : Binary F := ⟨negative, F.infinity⟩

def nan : Binary F := ⟨false, F.infinity + 1⟩

instance : Inhabited (Binary F) := ⟨zero⟩

def isNaN (x : Binary F) : Bool := decide (F.infinity < x.magnitude)

def isFinite (x : Binary F) : Bool := decide (x.magnitude < F.infinity)

/-- The nearest number to an integer. -/
def ofInt (n : Int) : Binary F := ⟨decide (n < 0), F.ofNat n.natAbs⟩

/-- The nearest number of another format, with the sign kept. -/
def convert (G : Format) (x : Binary F) : Binary G := ⟨x.negative, F.convert G x.magnitude⟩

/-- Numeric equality. -/
def same (x y : Binary F) : Bool :=
  !x.isNaN && !y.isNaN && (x == y || (x.magnitude == 0 && y.magnitude == 0))

/-- The magnitude of the number, or that of zero where it is negative or no number. -/
def clampedMagnitude (x : Binary F) : Nat :=
  if x.negative || x.isNaN then 0 else x.magnitude

end Binary

end NodeScript
