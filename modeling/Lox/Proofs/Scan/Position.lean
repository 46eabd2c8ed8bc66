import Lox.Place
import Mathlib
/-!
# `Scan.Position` — the row and the column of an offset

Rows and columns are counted while a text is read. They can also be told from the offset alone: the
row is one more than the number of line feeds before the offset, and the column one more than the
number of characters since the last of them. `LiesIn` says that of a place in a text, and the place
behind any piece that a text begins with has it.
-/
namespace Lox.Place

theorem offset_after (p : Place) (cs : List Char) : (p.after cs).offset = p.offset + cs.length := by
  induction cs generalizing p with
  | nil => rfl
  | cons c cs ih =>
      have hstep : (p.step c).offset = p.offset + 1 := by
        unfold Place.step
        split <;> rfl
      rw [Place.after_cons, ih, hstep, List.length_cons]
      omega

theorem offset_after_origin (cs : List Char) : (origin.after cs).offset = cs.length := by
  rw [offset_after]
  exact Nat.zero_add _

theorem after_concat (p : Place) (cs : List Char) (c : Char) :
    p.after (cs ++ [c]) = (p.after cs).step c := by
  rw [after_append]
  rfl

/-- Every line feed begins a row. -/
theorem row_after_origin (cs : List Char) : (origin.after cs).row = 1 + cs.count '\n' := by
  induction cs using List.reverseRecOn with
  | nil => rfl
  | append_singleton cs c ih =>
      rw [after_concat, List.count_append]
      unfold step
      split
      · rename_i hc
        simp [hc, ih, Nat.add_assoc]
      · rename_i hc
        simp [hc, ih]

/-- Every other character takes up a column of its row. -/
theorem col_after_origin (cs : List Char) :
    (origin.after cs).col = 1 + (cs.reverse.takeWhile (· != '\n')).length := by
  induction cs using List.reverseRecOn with
  | nil => rfl
  | append_singleton cs c ih =>
      rw [after_concat, List.reverse_append, List.reverse_singleton, List.singleton_append]
      unfold step
      split
      · rename_i hc
        simp [hc]
      · rename_i hc
        show (origin.after cs).col + 1 = _
        rw [ih, List.takeWhile_cons_of_pos (by simpa using hc), List.length_cons]
        omega

/-- The place is one of the text, and has the row and the column of its offset. -/
structure LiesIn (p : Place) (cs : List Char) : Prop where
  offset_le : p.offset ≤ cs.length
  row_eq : p.row = 1 + (cs.take p.offset).count '\n'
  col_eq : p.col = 1 + ((cs.take p.offset).reverse.takeWhile (· != '\n')).length

/-- The place behind what a text begins with lies in the text. -/
theorem liesIn_after (before rest : List Char) : (origin.after before).LiesIn (before ++ rest) := by
  have htake : (before ++ rest).take (origin.after before).offset = before := by
    rw [offset_after_origin]
    exact List.take_left
  constructor
  · rw [offset_after_origin, List.length_append]
    exact Nat.le_add_right _ _
  · rw [htake]
    exact row_after_origin before
  · rw [htake]
    exact col_after_origin before

/-- A place that lies in a text is where reading the text up to it comes to. -/
theorem LiesIn.eq_after {p : Place} {cs : List Char} (h : p.LiesIn cs) :
    p = origin.after (cs.take p.offset) := by
  have hoffset : (origin.after (cs.take p.offset)).offset = p.offset := by
    rw [offset_after_origin, List.length_take_of_le h.offset_le]
  have hrow := (row_after_origin (cs.take p.offset)).trans h.row_eq.symm
  have hcol := (col_after_origin (cs.take p.offset)).trans h.col_eq.symm
  cases p
  cases hq : origin.after (cs.take _)
  simp_all

end Lox.Place
