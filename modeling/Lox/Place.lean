/-!
# `Place` — places in a text

A place is an offset in characters together with the line and the column that it falls on. Lines and
columns count from one, and only a line feed ends a line.
-/
namespace Lox

/-- A place in a text. -/
structure Place where
  offset : Nat
  row : Nat
  col : Nat
  deriving DecidableEq, Repr

namespace Place

/-- The beginning of a text. -/
def origin : Place := ⟨0, 1, 1⟩

/-- The place behind a character. -/
def step (p : Place) (c : Char) : Place :=
  if c = '\n' then ⟨p.offset + 1, p.row + 1, 1⟩ else ⟨p.offset + 1, p.row, p.col + 1⟩

/-- The place behind a piece of text. -/
def after (p : Place) (cs : List Char) : Place := cs.foldl step p

@[simp] theorem after_nil (p : Place) : p.after [] = p := rfl

@[simp] theorem after_cons (p : Place) (c : Char) (cs : List Char) :
    p.after (c :: cs) = (p.step c).after cs := rfl

theorem after_append (p : Place) (cs ds : List Char) : p.after (cs ++ ds) = (p.after cs).after ds := by
  simp [after, List.foldl_append]

end Place
end Lox
