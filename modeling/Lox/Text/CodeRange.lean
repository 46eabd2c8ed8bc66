/-!
# `Text.CodeRange` — sets of characters as runs of code points

A property that a character standard assigns is a table of runs: it holds of a character whose code
point lies in one of them. The tables in this folder list the characters beyond ASCII; what holds of
ASCII is said by a rule beside each table.
-/
namespace Lox.Text

/-- The code points from `first` to `last`, both included. -/
structure CodeRange where
  first : Nat
  last : Nat
  deriving DecidableEq, Repr

/-- Does the run hold the character? -/
def CodeRange.holds (r : CodeRange) (c : Char) : Bool :=
  r.first ≤ c.toNat && c.toNat ≤ r.last

/-- Does one of the runs hold the character? -/
def CodeRange.anyHolds (table : List CodeRange) (c : Char) : Bool :=
  table.any (·.holds c)

end Lox.Text
