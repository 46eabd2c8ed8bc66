import Lox.Proofs.Scan.Munch
import Lox.Session.Highlight
/-!
# `Session.Fragments` — highlighting keeps the text of a line

A line is shown as a row of fragments, each a piece of text with a style. The pieces are cut out of
the line by the columns at which its items begin and end, and the end of a fault is not always that
of its lexeme: of a number that is too large one digit is marked, and the others are left to the gap
behind it. Whichever end is taken, the next item does not begin before it, so that no piece of the
line is shown twice and none is left out (`highlight_keeps_text`).
-/
namespace Lox.Session

/-- The text of fragments, one behind the other. -/
def shownText (fragments : List Fragment) : List Char := fragments.flatMap Fragment.text

@[simp] theorem shownText_nil : shownText [] = [] := rfl

@[simp] theorem shownText_cons (f : Fragment) (fs : List Fragment) :
    shownText (f :: fs) = f.text ++ shownText fs :=
  rfl

@[simp] theorem shownText_append (fs gs : List Fragment) :
    shownText (fs ++ gs) = shownText fs ++ shownText gs :=
  List.flatMap_append

@[simp] theorem gap_text (cs : List Char) : (gap cs).text = cs := by
  unfold gap
  split <;> rfl

/-! ## Columns of a line -/

variable {line : List Char}

/-- A piece of a line and what is behind it. -/
theorem slice_append_drop {first last : Nat} (h : first ≤ last) :
    slice line first last ++ line.drop last = line.drop first := by
  rw [slice, List.drop_take]
  have hsplit := List.take_append_drop (last - first) (line.drop first)
  rwa [List.drop_drop, Nat.add_sub_cancel' h] at hsplit

/-- The piece before an item is empty if the item begins where the last one was left, and
then no fragment is made. -/
theorem shownText_before {first last : Nat} (fragment : Fragment)
    (h : fragment.text = slice line first last) :
    shownText (if first < last then [fragment] else []) = slice line first last := by
  split
  · simp [h]
  · rename_i hle
    rw [slice, List.drop_take, Nat.sub_eq_zero_of_le (Nat.not_lt.mp hle)]
    rfl

/-- Without line feeds, the column of a place is its offset, counted from one. -/
theorem col_of_liesIn {p : Place} (hline : '\n' ∉ line) (h : p.LiesIn line) : p.col = p.offset + 1 := by
  have hall : (line.take p.offset).reverse.takeWhile (· != '\n') = (line.take p.offset).reverse := by
    rw [List.takeWhile_eq_self_iff]
    intro c hc
    rw [bne_iff_ne]
    rintro rfl
    exact hline (List.mem_of_mem_take (List.mem_reverse.mp hc))
  rw [h.col_eq, hall, List.length_reverse, List.length_take_of_le h.offset_le, Nat.add_comm]

theorem col_of_fits {i : Item} (hline : '\n' ∉ line) (h : Fits line i) :
    (itemPlace i).col = itemStart i + 1 :=
  col_of_liesIn hline h.place

/-- What is marked of a fault begins where the fault does, and is part of its lexeme. -/
theorem faultEnd_mem {e : ScanError} (hline : '\n' ∉ line) (h : Fits line (.error e)) :
    itemStart (.error e) ≤ faultEnd line e ∧ faultEnd line e ≤ itemStop (.error e) := by
  have hnonempty := h.nonempty
  have hinside := h.inside
  unfold faultEnd
  split
  · rename_i hcause
    -- A string without an end goes on to the end of the line.
    have hdescribes := h.describes
    simp only [Describes, hcause] at hdescribes
    obtain ⟨-, -, -, hend⟩ := hdescribes
    have hstop : itemStop (.error e) = line.length := hend
    omega
  · have hcol : e.place.col = itemStart (.error e) + 1 := col_of_fits hline h
    omega

/-! ## One item -/

/-- A fault, with the piece before it: what is shown reaches up to the end of what is marked. -/
theorem shownText_error {col : Nat} {e : ScanError} {items : List Item} (hline : '\n' ∉ line)
    (h : Fits line (.error e)) : shownText (fragmentsFrom line col (.error e :: items)) =
      slice line col (itemStart (.error e)) ++ (slice line (itemStart (.error e)) (faultEnd line e) ++
        shownText (fragmentsFrom line (faultEnd line e) items)) := by
  have hstart : e.place.col - 1 = itemStart (.error e) := by
    have hplace : e.place.col = _ := col_of_fits hline h
    omega
  rw [fragmentsFrom]
  simp only [hstart, shownText_append, shownText_cons]
  rw [shownText_before ⟨"", slice line col (itemStart (.error e))⟩ rfl]

/-- A token, with the piece before it. No token is passed over, since none begins before the
column. -/
theorem shownText_ok {col : Nat} {t : Token} {items : List Item} (hline : '\n' ∉ line)
    (h : Fits line (.ok t)) (hcol : col ≤ itemStart (.ok t)) :
    shownText (fragmentsFrom line col (.ok t :: items)) =
      slice line col (itemStart (.ok t)) ++ (slice line (itemStart (.ok t)) (itemStop (.ok t)) ++
        shownText (fragmentsFrom line (itemStop (.ok t)) items)) := by
  have hstart : t.place.col - 1 = itemStart (.ok t) := by
    have hplace : t.place.col = _ := col_of_fits hline h
    omega
  have hlexeme : t.lexeme.toList = slice line (itemStart (.ok t)) (itemStop (.ok t)) := by
    rw [slice, List.drop_take, ← List.extract_eq_take_drop]
    exact h.text
  have hstop : itemStart (.ok t) + t.lexeme.toList.length = itemStop (.ok t) := rfl
  rw [fragmentsFrom]
  simp only [hstart, if_neg (Nat.not_lt.mpr hcol), hstop, shownText_append, shownText_cons]
  rw [shownText_before (gap _) (gap_text _), ← hlexeme]

/-! ## All items -/

/-- From a column on, before which no item begins, what is shown is the rest of the line. -/
theorem shownText_fragmentsFrom (hline : '\n' ∉ line) (items : List Item) : ∀ col, col ≤ line.length →
    (∀ i ∈ items, col ≤ itemStart i ∧ Fits line i) →
    items.Pairwise (fun i j => itemStop i ≤ itemStart j) →
    shownText (fragmentsFrom line col items) = line.drop col := by
  induction items with
  | nil =>
      intro col hcol _ _
      rw [fragmentsFrom]
      split
      · simp
      · rename_i hend
        rw [List.drop_eq_nil_of_le (Nat.not_lt.mp hend)]
        rfl
  | cons i items ih =>
      intro col hcol hitems hordered
      obtain ⟨⟨hstart, hfits⟩, hmore⟩ := List.forall_mem_cons.mp hitems
      obtain ⟨hbehind, hordered⟩ := List.pairwise_cons.mp hordered
      have hinside := hfits.inside
      -- The next items are behind whatever is shown of this one.
      have hnext : ∀ stop ≤ itemStop i, shownText (fragmentsFrom line stop items) = line.drop stop := by
        intro stop hstop
        refine ih stop (by omega) (fun j hj => ⟨?_, (hmore j hj).2⟩) hordered
        exact hstop.trans (hbehind j hj)
      cases i with
      | error e =>
          obtain ⟨hfirst, hlast⟩ := faultEnd_mem hline hfits
          rw [shownText_error hline hfits, hnext _ hlast, slice_append_drop hfirst,
            slice_append_drop hstart]
      | ok t =>
          rw [shownText_ok hline hfits hstart, hnext _ le_rfl, slice_append_drop hfits.nonempty.le,
            slice_append_drop hstart]

/-- The fragments of a line, put together, are the line: nothing of it is lost and nothing shown
twice, whatever faults it has. -/
theorem highlight_keeps_text (line : List Char) (hline : '\n' ∉ line) :
    (highlight line).flatMap Fragment.text = line := by
  obtain ⟨hfits, hordered, -⟩ := tokenisation_scan (String.ofList line)
  rw [scan_eq, String.toList_ofList] at hfits hordered
  have hshown := shownText_fragmentsFrom hline _ 0 (Nat.zero_le _) hfits hordered
  show shownText (highlight line) = line
  unfold highlight
  split
  · simp
  · exact hshown

/-- A number that is too large, a character that begins no lexeme, and a string without an end. -/
theorem highlight_keeps_text_faults : '\n' ∉ List.replicate 400 '9' ++ " @x\t\"y // z".toList ∧
    (highlight (List.replicate 400 '9' ++ " @x\t\"y // z".toList)).flatMap Fragment.text =
      List.replicate 400 '9' ++ " @x\t\"y // z".toList := by
  have hline : '\n' ∉ List.replicate 400 '9' ++ " @x\t\"y // z".toList := by
    rw [List.mem_append, List.mem_replicate]
    decide
  exact ⟨hline, highlight_keeps_text _ hline⟩

end Lox.Session
