/-!
# `Text.Blank` — blanks at the ends of a text

A blank is white space in the widest sense: the ASCII blanks and line ends, the four information
separators, the next-line control, and the blanks and line separators of other scripts.
-/
namespace Lox.Text

/-- Is the character a blank? -/
def isBlank (c : Char) : Bool :=
  let n := c.toNat
  (9 ≤ n && n ≤ 13) || (28 ≤ n && n ≤ 32) || n == 0x85 || n == 0xa0 || n == 0x1680 ||
    (0x2000 ≤ n && n ≤ 0x200a) || n == 0x2028 || n == 0x2029 || n == 0x202f || n == 0x205f ||
      n == 0x3000

/-- The text without the blanks at its start. -/
def trimStart (cs : List Char) : List Char := cs.dropWhile isBlank

/-- The text without the blanks at its start and its end. -/
def trim (cs : List Char) : List Char := (trimStart (trimStart cs).reverse).reverse

/-- A text divided at its first run of blanks: the word before it, and what follows it. -/
def firstWord (cs : List Char) : List Char × List Char :=
  (cs.takeWhile (!isBlank ·), trimStart (cs.dropWhile (!isBlank ·)))

/-- Lower-cases the letters of ASCII. -/
def lower (cs : List Char) : List Char := cs.map Char.toLower

end Lox.Text
