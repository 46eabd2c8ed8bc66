import Lox.Text.Printable
/-!
# `Text.Quoted` — texts between quotes

Two ways to write a text on one line. `quote` is the form of string values and of strings in trees:
double quotes, with five escapes. `display` is the form that diagnostics use for pieces of source:
single quotes unless double ones save an escape, and everything that does not show as itself is
written by its code point.
-/
namespace Lox.Text

/-! ## String values -/

/-- A character inside double quotes. -/
def escape : Char → List Char
  | '\\' => ['\\', '\\']
  | '"' => ['\\', '"']
  | '\n' => ['\\', 'n']
  | '\t' => ['\\', 't']
  | '\r' => ['\\', 'r']
  | c => [c]

/-- The text between double quotes, on one line. -/
def quoteChars (cs : List Char) : List Char := '"' :: cs.flatMap escape ++ ['"']

/-- The text between double quotes, on one line. -/
def quote (s : String) : String := String.ofList (quoteChars s.toList)

/-! ## Pieces of source in diagnostics -/

/-- The number in base sixteen, filled up with zeros to `width` digits. -/
def hex (width n : Nat) : List Char :=
  let ds := Nat.toDigits 16 n
  List.replicate (width - ds.length) '0' ++ ds

/-- A character by its code point, in the shortest of three widths. -/
def byCode (c : Char) : List Char :=
  let n := c.toNat
  if n < 0x100 then '\\' :: 'x' :: hex 2 n
  else if n < 0x10000 then '\\' :: 'u' :: hex 4 n
  else '\\' :: 'U' :: hex 8 n

/-- A character between the quotes `q`. -/
def displayChar (q c : Char) : List Char :=
  if c = q || c = '\\' then ['\\', c]
  else if c = '\n' then ['\\', 'n']
  else if c = '\r' then ['\\', 'r']
  else if c = '\t' then ['\\', 't']
  else if isPrintable c then [c]
  else byCode c

/-- Single quotes, unless the text holds some and no double ones. -/
def displayQuote (cs : List Char) : Char :=
  if cs.contains '\'' && !cs.contains '"' then '"' else '\''

/-- The text as a diagnostic shows it. -/
def displayChars (cs : List Char) : List Char :=
  let q := displayQuote cs
  q :: cs.flatMap (displayChar q) ++ [q]

/-- The text as a diagnostic shows it. -/
def display (s : String) : String := String.ofList (displayChars s.toList)

end Lox.Text
