/-!
Binary floating-point formats on exact integers.

A non-negative value of a format is named by its *magnitude*, its position in the format's
ascending list of values: zero is `0`, the smallest positive value `1`, and so on up to infinity.
Every finite value is a whole number of *units*, the smallest positive value, so sums, products
and comparisons are exact sums, products and comparisons of naturals followed by one rounding.
-/
namespace NodeScript

/-- The nearest natural to `num / den`; a half goes to the even neighbour. -/
def roundHalfEven (num den : Nat) : Nat :=
  let quotient := num / den
  let rest := num % den
  if 2 * rest < den then quotient
  else if den < 2 * rest then quotient + 1
  else quotient + quotient % 2

/-- A binary interchange format: significant bits, the implicit one included, and bits of the
exponent field. -/
structure Format where
  precision : Nat
  exponentBits : Nat
  deriving DecidableEq, Repr

namespace Format

def single : Format := ⟨24, 8⟩

def double : Format := ⟨53, 11⟩

/-- How many magnitudes share one exponent field. -/
def stride (F : Format) : Nat := Nat.pow 2 (F.precision - 1)

/-- The magnitude of infinity; larger magnitudes are no numbers. -/
def infinity (F : Format) : Nat := (Nat.pow 2 F.exponentBits - 1) * F.stride

/-- The number of binary places of a unit. -/
def scale (F : Format) : Nat := Nat.pow 2 (F.exponentBits - 1) + F.precision - 3

/-- How many units make one. -/
def unitsPerOne (F : Format) : Nat := Nat.pow 2 F.scale

/-- The value of a finite magnitude in units. -/
def units (F : Format) (magnitude : Nat) : Nat :=
  let field := magnitude / F.stride
  let fraction := magnitude % F.stride
  if field = 0 then fraction else (F.stride + fraction) * Nat.pow 2 (field - 1)

/-- The magnitude nearest to `num / den`, a tie going to the even one. Values past the largest
finite one round to infinity. -/
def round (F : Format) (num den : Nat) : Nat :=
  let scaled := num * F.unitsPerOne
  let shift := (scaled / den).log2 + 1 - F.precision
  min F.infinity (shift * F.stride + roundHalfEven scaled (den * Nat.pow 2 shift))

/-- The magnitude of a natural number. -/
def ofNat (F : Format) (n : Nat) : Nat := F.round n 1

def add (F : Format) (a b : Nat) : Nat :=
  if F.infinity ≤ a ∨ F.infinity ≤ b then F.infinity
  else F.round (F.units a + F.units b) F.unitsPerOne

def mul (F : Format) (a b : Nat) : Nat :=
  if F.infinity ≤ a ∨ F.infinity ≤ b then F.infinity
  else F.round (F.units a * F.units b) (F.unitsPerOne * F.unitsPerOne)

/-- The quotient by a finite non-zero magnitude. -/
def div (F : Format) (a b : Nat) : Nat :=
  if F.infinity ≤ a then F.infinity else F.round (F.units a) (F.units b)

/-- The whole part of a finite magnitude. -/
def floor (F : Format) (a : Nat) : Nat := F.units a / F.unitsPerOne

/-- Moves a magnitude to another format; infinity and what lies beyond keep their distance to
infinity. -/
def convert (F G : Format) (a : Nat) : Nat :=
  if F.infinity ≤ a then G.infinity + (a - F.infinity) else G.round (F.units a) F.unitsPerOne

end Format

end NodeScript
