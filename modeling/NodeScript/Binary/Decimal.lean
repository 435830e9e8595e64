import NodeScript.Binary.Basic

/-!
Decimal text of floating-point numbers: the fewest significant digits that read back to the same
number, and of those the nearest to it; a tie goes to the even last digit. The digits of a value
are found on the grids of one, two, … digits: if any point of a grid reads back, one of the two
grid points around the value does.
-/
namespace NodeScript

/-- The number of decimal digits of `n`, none for zero. -/
def decimalLength (n : Nat) : Nat := if n = 0 then 0 else (Nat.toDigits 10 n).length

/-- The value `0.d₁d₂… · 10 ^ point`. -/
structure Decimal where
  digits : List Char
  point : Int
  deriving DecidableEq, Repr

namespace Decimal

/-- `n · 10 ^ exponent`, without trailing zeros among the digits. -/
def ofScaled (n : Nat) (exponent : Int) : Decimal where
  digits := ((Nat.toDigits 10 n).reverse.dropWhile (· == '0')).reverse
  point := exponent + decimalLength n

end Decimal

namespace Format

/-- The position of the decimal point of `num / den`: it lies in `10 ^ (p - 1) ≤ x < 10 ^ p`. -/
def pointOf (num den : Nat) : Int :=
  if den ≤ num then decimalLength (num / den)
  else 1 - (decimalLength ((den + num - 1) / num - 1) : Int)

/-- Whether `n · 10 ^ exponent` rounds to the magnitude. -/
def readsBack (F : Format) (magnitude n : Nat) (exponent : Int) : Bool :=
  match exponent with
  | .ofNat up => F.round (n * Nat.pow 10 up) 1 == magnitude
  | .negSucc down => F.round n (Nat.pow 10 (down + 1)) == magnitude

/-- The best point with `count` digits for a value `num / den` whose decimal point is `point`. -/
def gridPoint? (F : Format) (magnitude num den : Nat) (point : Int) (count : Nat) :
    Option Decimal :=
  let exponent := point - count
  let top := num * Nat.pow 10 (-exponent).toNat
  let bottom := den * Nat.pow 10 exponent.toNat
  let below := top / bottom
  let nearest := roundHalfEven top bottom
  let other := if nearest = below then below + 1 else below
  if F.readsBack magnitude nearest exponent then some (Decimal.ofScaled nearest exponent)
  else if F.readsBack magnitude other exponent then some (Decimal.ofScaled other exponent)
  else none

/-- The shortest decimal of a finite non-zero magnitude. Seventeen digits are enough for both
formats. -/
def shortest (F : Format) (magnitude : Nat) : Decimal :=
  let num := F.units magnitude
  let den := F.unitsPerOne
  let point := pointOf num den
  ((List.range 17).findSome? fun i => F.gridPoint? magnitude num den point (i + 1)).getD
    (Decimal.ofScaled num 0)

end Format

/-- How a decimal is laid out: it is written positionally while its point lies in
`lowest < point ≤ highest`, and with an exponent otherwise. -/
structure DecimalStyle where
  lowest : Int
  highest : Int
  deriving DecidableEq, Repr

namespace DecimalStyle

/-- The digits with the point among them, always with a fraction. -/
def positional (d : Decimal) : List Char :=
  if d.point ≤ 0 then
    '0' :: '.' :: (List.replicate (-d.point).toNat '0' ++ d.digits)
  else
    let whole := d.point.toNat
    if d.digits.length ≤ whole then
      d.digits ++ List.replicate (whole - d.digits.length) '0' ++ ['.', '0']
    else
      d.digits.take whole ++ '.' :: d.digits.drop whole

/-- One digit before the point, and a signed exponent; a lone digit has no point. -/
def scientific (d : Decimal) : List Char :=
  let exponent := d.point - 1
  let sign := if exponent < 0 then '-' else '+'
  let mantissa := match d.digits with
    | [] => ['0']
    | [digit] => [digit]
    | digit :: rest => digit :: '.' :: rest
  mantissa ++ 'e' :: sign :: Nat.toDigits 10 exponent.natAbs

def layout (style : DecimalStyle) (d : Decimal) : List Char :=
  if style.lowest < d.point ∧ d.point ≤ style.highest then positional d else scientific d

/-- The text of a finite number. -/
def render {F : Format} (style : DecimalStyle) (x : Binary F) : List Char :=
  let body := if x.magnitude = 0 then ['0', '.', '0'] else style.layout (F.shortest x.magnitude)
  if x.negative then '-' :: body else body

end DecimalStyle

end NodeScript
