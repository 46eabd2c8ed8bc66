import Lox.Place
/-!
# `Cursor` — a reading position in a text

A cursor knows what is left to read, where that starts, and what was read since the start of the
current lexeme. It only moves forward. All scanning is done by finding out how much of the rest to
take and advancing by that much.
-/
namespace Lox

/-- A reading position in a text. -/
structure Cursor where
  /-- The whole text. -/
  source : List Char
  /-- What has not been read. -/
  rest : List Char
  /-- Where the rest begins. -/
  here : Place
  /-- Where the current lexeme begins. -/
  start : Place
  /-- What was read of the current lexeme, the last character first. -/
  taken : List Char
  deriving DecidableEq

namespace Cursor

/-- The cursor at the beginning of a text. -/
def ofChars (cs : List Char) : Cursor := ⟨cs, cs, .origin, .origin, []⟩

/-- The cursor at the beginning of a text. -/
def ofText (s : String) : Cursor := ofChars s.toList

/-- Is everything read? -/
def atEnd (c : Cursor) : Bool := c.rest.isEmpty

/-- Reads up to `n` characters. -/
def advance (c : Cursor) : Nat → Cursor
  | 0 => c
  | n + 1 =>
    match c.rest with
    | [] => c
    | ch :: rest => advance { c with rest := rest, here := c.here.step ch, taken := ch :: c.taken } n

/-- Starts a lexeme. -/
def begin (c : Cursor) : Cursor := { c with start := c.here, taken := [] }

/-- The text of the current lexeme. -/
def lexeme (c : Cursor) : List Char := c.taken.reverse

/-! ## Looking and moving on request -/

/-- A move that was asked to go backwards. -/
structure BackwardMove where
  count : Int
  deriving DecidableEq, Repr

/-- What is said about a move backwards. -/
def BackwardMove.message (m : BackwardMove) : String :=
  "advance() requires n >= 0, got " ++ toString m.count

/-- Reads up to `n` characters and tells which; a negative number is refused and moves nothing. -/
def move (c : Cursor) (n : Int) : Except BackwardMove (List Char) × Cursor :=
  if n < 0 then (.error ⟨n⟩, c) else (.ok (c.rest.take n.toNat), c.advance n.toNat)

/-- The character `offset` places ahead. Past the end there are nulls; a place before the beginning
counts back from the end, as long as the text is. -/
def charAt? (c : Cursor) (offset : Int) : Option Char :=
  let i := c.here.offset + offset
  if i < 0 then
    let j := i + c.source.length
    if j < 0 then none else c.source[j.toNat]?
  else some (c.source.getD i.toNat '\x00')

/-! ## What moving does -/

@[simp] theorem advance_zero (c : Cursor) : c.advance 0 = c := rfl

@[simp] theorem advance_rest (c : Cursor) (n : Nat) : (c.advance n).rest = c.rest.drop n := by
  induction n generalizing c with
  | zero => rfl
  | succ n ih =>
      unfold advance
      split
      · rename_i h; simp [h]
      · rename_i h; rw [ih, h]; rfl

@[simp] theorem begin_rest (c : Cursor) : c.begin.rest = c.rest := rfl

/-- Reading something shortens what is left. -/
theorem advance_rest_lt {c : Cursor} {n : Nat} (hn : 0 < n) (hc : c.rest ≠ []) :
    (c.advance n).rest.length < c.rest.length := by
  have := List.length_pos_iff.mpr hc
  simp only [advance_rest, List.length_drop]
  omega

end Cursor
end Lox
