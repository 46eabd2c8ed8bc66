/-!
# `Grammar.Pattern` — patterns of characters

A pattern takes as many characters as it can and never gives any back. That is enough for terminals
whose repetitions stop at a character that cannot be part of them.
-/
namespace Lox.Grammar

/-- A pattern of characters. -/
inductive Pattern where
  /-- A character with the property. -/
  | one (p : Char → Bool)
  /-- Any number of characters with the property. -/
  | many (p : Char → Bool)
  | seq (first second : Pattern)
  | optional (inner : Pattern)

namespace Pattern

/-- Exactly this text. -/
def word : List Char → Pattern
  | [] => many fun _ => false
  | [c] => one (· == c)
  | c :: cs => seq (one (· == c)) (word cs)

/-- At least one character with the property. -/
def some (p : Char → Bool) : Pattern := seq (one p) (many p)

/-- How much of the text the pattern takes, if it fits. -/
def length? : Pattern → List Char → Option Nat
  | one p, cs =>
    match cs with
    | c :: _ => if p c then Option.some 1 else none
    | [] => none
  | many p, cs => Option.some (cs.takeWhile p).length
  | seq a b, cs => do
    let n ← a.length? cs
    let m ← b.length? (cs.drop n)
    return n + m
  | optional a, cs => Option.some ((a.length? cs).getD 0)

end Pattern
end Lox.Grammar
