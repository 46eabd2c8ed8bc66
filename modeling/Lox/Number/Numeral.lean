import Lox.Number.Nearest
import Lox.Text.Blank
import Lox.Text.DecimalDigit
/-!
# `Number.Numeral` — reading numbers

A number literal of the language is digits with an optional fraction. A lexeme that was begun
elsewhere may hold more, and is read by the full rule: blanks around it, a sign, digits of any
script, underscores between digits, a fraction without a whole part or the reverse, an exponent, the
words for infinity and for a number that is none. The value is always the nearest double.
-/
namespace Lox.Number

/-- A decimal numeral: sign, the digits before and after the point, and the exponent. -/
structure Numeral where
  negative : Bool
  whole : List Char
  fraction : List Char
  exponent : Int
  deriving DecidableEq, Repr

/-- The number that a row of ASCII digits stands for. -/
def ofDigits (ds : List Char) : Nat := ds.foldl (fun n c => 10 * n + (c.toNat - '0'.toNat)) 0

/-- Sets the sign of a number. -/
def signed (negative : Bool) (v : Float) : Float := if negative then -v else v

/-- The value of a numeral. An exponent that moves the point past every digit by two thousand places
is as good as any larger one. -/
def Numeral.value (n : Numeral) : Float :=
  let digits := n.whole ++ n.fraction
  let bound : Int := 2000 + digits.length
  let e := max (-bound) (min bound n.exponent) - n.fraction.length
  signed n.negative (nearest (ofDigits digits * Nat.pow 10 e.toNat) (Nat.pow 10 (-e).toNat))

/-! ## Spelling -/

/-- Is the character skipped around a numeral? -/
def isPadding (c : Char) : Bool := Text.isBlank c && !(28 ≤ c.toNat && c.toNat ≤ 31)

/-- The text without the padding around it. -/
def unpad (cs : List Char) : List Char :=
  ((cs.dropWhile isPadding).reverse.dropWhile isPadding).reverse

/-- Writes the digits of other scripts as ASCII ones. -/
def asciiDigit (c : Char) : Char :=
  if c.toNat < 128 then c
  else match Text.digitValue? c with
    | some d => Char.ofNat ('0'.toNat + d)
    | none => c

/-- Drops the underscores, each of which has to stand between two digits. -/
def dropUnderscores : (afterDigit : Bool) → List Char → Option (List Char)
  | _, [] => some []
  | afterDigit, '_' :: c :: cs =>
      if afterDigit && c.isDigit then (dropUnderscores true cs).map (c :: ·) else none
  | _, '_' :: [] => none
  | _, c :: cs => (dropUnderscores c.isDigit cs).map (c :: ·)

/-- A sign at the head of a text. -/
def splitSign : List Char → Bool × List Char
  | '-' :: cs => (true, cs)
  | '+' :: cs => (false, cs)
  | cs => (false, cs)

/-- The exponent that a text consists of, `0` for the empty text. -/
def exponent? : List Char → Option Int
  | [] => some 0
  | c :: cs =>
      if c = 'e' || c = 'E' then
        let (negative, ds) := splitSign cs
        if ds.isEmpty || !ds.all Char.isDigit then none
        else some (if negative then -(ofDigits ds : Int) else ofDigits ds)
      else none

/-- The fraction at the head of a text, and what follows it. -/
def splitFraction : List Char → List Char × List Char
  | '.' :: cs => (cs.takeWhile Char.isDigit, cs.dropWhile Char.isDigit)
  | cs => ([], cs)

/-- The numeral that a text spells, sign and underscores aside. -/
def numeral? (negative : Bool) (cs : List Char) : Option Numeral :=
  let whole := cs.takeWhile Char.isDigit
  let (fraction, rest) := splitFraction (cs.dropWhile Char.isDigit)
  if whole.isEmpty && fraction.isEmpty then none
  else (exponent? rest).map fun e => ⟨negative, whole, fraction, e⟩

/-- The value of a word for a number that no digits spell. -/
def namedValue? (cs : List Char) : Option Float :=
  let word := Text.lower cs
  if word = "inf".toList || word = "infinity".toList then some infinity
  else if word = "nan".toList then some (0.0 / 0.0)
  else none

/-- Reads a number. -/
def read? (cs : List Char) : Option Float :=
  match dropUnderscores false ((unpad cs).map asciiDigit) with
  | none => none
  | some cs =>
    let (negative, body) := splitSign cs
    match namedValue? body with
    | some v => some (signed negative v)
    | none => (numeral? negative body).map Numeral.value

end Lox.Number
