/-!
# `Text.LineBreak` — where a line ends

Two notions of a line's end. A message is cut at the first character that any convention takes for a
line break; a source text read from a file has its carriage returns turned into line feeds.
-/
namespace Lox.Text

/-- Is the character a line break under some convention? -/
def isLineBreak (c : Char) : Bool :=
  let n := c.toNat
  (10 ≤ n && n ≤ 13) || (28 ≤ n && n ≤ 30) || n == 0x85 || n == 0x2028 || n == 0x2029

/-- The text up to its first line break. -/
def firstLine (cs : List Char) : List Char := cs.takeWhile (!isLineBreak ·)

/-- Turns every carriage return, with the line feed that may follow it, into one line feed. -/
def unifyNewlines : List Char → List Char
  | [] => []
  | '\r' :: '\n' :: cs => '\n' :: unifyNewlines cs
  | '\r' :: cs => '\n' :: unifyNewlines cs
  | c :: cs => c :: unifyNewlines cs

/-- What a message shows of a text holds no line break. -/
theorem not_isLineBreak_of_mem_firstLine {cs : List Char} {c : Char} (h : c ∈ firstLine cs) :
    isLineBreak c = false := by
  induction cs with
  | nil => simp [firstLine] at h
  | cons d ds ih =>
      unfold firstLine at h ih
      rw [List.takeWhile_cons] at h
      split at h
      · rename_i hd
        rcases List.mem_cons.mp h with rfl | h
        · simpa using hd
        · exact ih h
      · simp at h

end Lox.Text
