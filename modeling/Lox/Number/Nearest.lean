/-!
# `Number.Nearest` — the double nearest to a fraction

Doubles are counted in units of `2 ^ -1074`, the smallest positive one. A finite double of bit
pattern `b` (sign aside) is `mantissa b * 2 ^ shift b` units, and patterns are ordered as their
values are, so that rounding a fraction is: scale it to units, halve it until 53 bits are left,
round what is left to a whole number.
-/
namespace Lox.Number

/-- How many units make one. -/
def unit : Nat := Nat.pow 2 1074

/-- The bit pattern of positive infinity. The finite patterns are those below it. -/
def infinityBits : Nat := 2047 * Nat.pow 2 52

/-- The quotient rounded to a whole number, a half going to the even neighbour. -/
def roundDiv (num den : Nat) : Nat :=
  let q := num / den
  let r := num % den
  if 2 * r < den then q
  else if den < 2 * r then q + 1
  else if q % 2 = 0 then q else q + 1

/-- The bit pattern of the double nearest to `num / den`, of two equally near ones the even one.
Whatever rounds past the largest finite double is infinity. -/
def nearestBits (num den : Nat) : Nat :=
  let units := num * unit
  let shift := (units / den).log2 - 52
  min (shift * Nat.pow 2 52 + roundDiv units (den * Nat.pow 2 shift)) infinityBits

/-- The double nearest to `num / den`. -/
def nearest (num den : Nat) : Float := Float.ofBits (UInt64.ofNat (nearestBits num den))

/-- Positive infinity. -/
def infinity : Float := Float.ofBits (UInt64.ofNat infinityBits)

/-! ## Taking a double apart -/

/-- The bit pattern without the sign. -/
def magnitude (v : Float) : Nat := v.toBits.toNat % Nat.pow 2 63

/-- Is the sign bit set? -/
def isNegative (v : Float) : Bool := Nat.pow 2 63 ≤ v.toBits.toNat

/-- Is the number infinite, of either sign? -/
def isInfinite (v : Float) : Bool := magnitude v == infinityBits

/-- The significant bits of a finite pattern, the leading one included. -/
def mantissa (bits : Nat) : Nat :=
  if bits < Nat.pow 2 52 then bits else Nat.pow 2 52 + bits % Nat.pow 2 52

/-- How often the mantissa of a finite pattern is doubled. -/
def shift (bits : Nat) : Nat := bits / Nat.pow 2 52 - 1

/-- The value of a finite pattern, in units. -/
def units (bits : Nat) : Nat := mantissa bits * Nat.pow 2 (shift bits)

end Lox.Number
