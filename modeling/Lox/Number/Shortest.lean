import Lox.Number.Nearest
/-!
# `Number.Shortest` — the fewest digits that read back

A finite double is written with the fewest decimal digits from which rounding gives it back, and
among these with the nearest ones. On the grid of decimals with `n` significant digits only the
two neighbours of the value can do, so both are tried for one digit, two digits, and so on.
Seventeen digits always do; the exact expansion stands behind them, so that what is written
reads back by construction.
-/
namespace Lox.Number

/-- The decimal fraction `coefficient * 10 ^ exponent`. -/
structure Decimal where
  coefficient : Nat
  exponent : Int
  deriving DecidableEq, Repr

namespace Decimal

/-- Numerator of the fraction. -/
def num (d : Decimal) : Nat := d.coefficient * Nat.pow 10 d.exponent.toNat

/-- Denominator of the fraction. -/
def den (d : Decimal) : Nat := Nat.pow 10 (-d.exponent).toNat

/-- The bit pattern that the decimal rounds to. -/
def bits (d : Decimal) : Nat := nearestBits d.num d.den

/-- The digits of the coefficient without the zeros at its end; a single zero for zero. -/
def digits (d : Decimal) : List Char :=
  match ((Nat.toDigits 10 d.coefficient).reverse.dropWhile (· == '0')).reverse with
  | [] => ['0']
  | ds => ds

/-- How many of the digits stand before the point. Negative if zeros follow the point first. -/
def point (d : Decimal) : Int :=
  if d.coefficient = 0 then 1 else (Nat.toDigits 10 d.coefficient).length + d.exponent

end Decimal

/-- How many digits the whole part has; for a value below one, how many zeros follow its point, as a
negative number. No double is small enough to lose its first digit after four hundred places. -/
def leadingExponent (bits : Nat) : Int :=
  (Nat.toDigits 10 (units bits * Nat.pow 10 400 / unit)).length - 400

/-- The neighbours of the value on the grid of decimals that step by `10 ^ e`, the nearer one first,
and of two equally near ones the even one. -/
def candidates (bits : Nat) (e : Int) : List Decimal :=
  let num := units bits * Nat.pow 10 (-e).toNat
  let den := unit * Nat.pow 10 e.toNat
  let near := roundDiv num den
  let far := if near = num / den then near + 1 else num / den
  [⟨near, e⟩, ⟨far, e⟩]

/-- All the digits of a value. -/
def exact (bits : Nat) : Decimal := ⟨units bits * Nat.pow 5 1074, -1074⟩

/-- The shortest decimal that rounds to the finite pattern, and the nearest such one. -/
def shortest (bits : Nat) : Decimal :=
  let lead := leadingExponent bits
  ((List.range 17).findSome? fun (n : Nat) => (candidates bits (lead - (n + 1))).find?
    (·.bits == bits)).getD (exact bits)

end Lox.Number
