import Lox.Number.Shortest
/-!
# `Number.Format` — numbers as text

Both notations use the shortest digits that read back. Values and trees are written positionally,
however long that gets, and whole numbers without a point. Tokens are listed with a point or an
exponent in every number.
-/
namespace Lox.Number

/-- The decisions of a notation for numbers. -/
structure Format where
  /-- Positional notation is used if the point stands after more than this many digits. -/
  above : Option Int
  /-- Positional notation is used if the point stands after at most this many digits. -/
  upTo : Option Int
  /-- What a whole number ends in. -/
  wholeEnd : String
  nan : String
  infinity : String

/-- How `print` and trees write a number: always positional, whole numbers bare. -/
def valueFormat : Format := ⟨none, none, "", "NaN", "inf"⟩

/-- How a listing of tokens writes a number: positional from `0.0001` to below ten to the sixteenth,
whole numbers with a point and a zero. -/
def tokenFormat : Format := ⟨some (-4), some 16, ".0", "nan", "inf"⟩

/-- Does the notation write out a number whose point stands after `point` digits? -/
def Format.positional (f : Format) (point : Int) : Bool :=
  f.above.all (· < point) && f.upTo.all (point ≤ ·)

/-- The digits with the point among them, before them or after them. -/
def positionalText (wholeEnd : String) (digits : List Char) (point : Int) : List Char :=
  if point ≤ 0 then '0' :: '.' :: List.replicate (-point).toNat '0' ++ digits
  else if point < digits.length then digits.take point.toNat ++ '.' :: digits.drop point.toNat
  else digits ++ List.replicate (point.toNat - digits.length) '0' ++ wholeEnd.toList

/-- An exponent of at least two digits, with its sign. -/
def exponentText (e : Int) : List Char :=
  let ds := Nat.toDigits 10 e.natAbs
  'e' :: (if e < 0 then '-' else '+') :: List.replicate (2 - ds.length) '0' ++ ds

/-- One digit before the point, and an exponent. -/
def exponentialText (digits : List Char) (point : Int) : List Char :=
  let fraction := match digits.drop 1 with
    | [] => []
    | ds => '.' :: ds
  digits.take 1 ++ fraction ++ exponentText (point - 1)

/-- A finite pattern as text. -/
def Format.finiteText (f : Format) (bits : Nat) : List Char :=
  let d := shortest bits
  if f.positional d.point then positionalText f.wholeEnd d.digits d.point
  else exponentialText d.digits d.point

/-- A number as text. -/
def Format.text (f : Format) (v : Float) : String :=
  if infinityBits < magnitude v then f.nan
  else
    let body := if magnitude v = infinityBits then f.infinity.toList else f.finiteText (magnitude v)
    String.ofList (if isNegative v then '-' :: body else body)

/-- A number as `print` shows it. -/
def text (v : Float) : String := valueFormat.text v

end Lox.Number
