import Lox.Proofs.Scan.Lines
import Lox.Proofs.Session.Styles
/-!
# `Session.Documents` — scanning a document line by line

A document is highlighted one line at a time, as if there were no other lines. That is right as long
as no line leaves a string open: then what is below a line is scanned as it is alone (`scan_below`),
so that the items of the document are those of its lines, each further down by the lines above it
(`scan_eq_scanLines`). On every row of the document are the items of one line, at the same columns,
and the fragments of the line are made from nothing else (`scanning_splits_at_lines`).
-/
namespace Lox.Session

/-! ## Lines -/

theorem linesOf_eq (text : List Char) : linesOf text = text.splitOn '\n' := by
  induction text with
  | nil => rfl
  | cons c cs ih =>
      rw [List.splitOn_cons_eq_if_modifyHead, ← ih]
      by_cases hc : c = '\n'
      · subst hc
        rfl
      · rw [linesOf, if_neg (by simpa using hc)]
        · cases hlines : linesOf cs with
          | nil => exact absurd (ih.symm.trans hlines) (List.splitOn_ne_nil _ _)
          | cons line lines => rfl
        · exact hc

theorem linesOf_last {line : List Char} (h : '\n' ∉ line) : linesOf line = [line] := by
  rw [linesOf_eq, List.splitOn_eq_singleton h]

theorem linesOf_more {line : List Char} (h : '\n' ∉ line) (below : List Char) :
    linesOf (line ++ '\n' :: below) = line :: linesOf below := by
  rw [linesOf_eq, linesOf_eq]
  refine List.splitOnP_append_cons_of_forall_mem (fun c hc => ?_) '\n' rfl below
  rw [beq_eq_false_iff_ne]
  rintro rfl
  exact h hc

/-- A text is its last line, or a line with a text below it. -/
theorem lines_induction {motive : List Char → Prop} (last : ∀ line, '\n' ∉ line → motive line)
    (more : ∀ line below, '\n' ∉ line → motive below → motive (line ++ '\n' :: below))
    (text : List Char) : motive text := by
  induction hn : text.length using Nat.strongRecOn generalizing text with
  | ind n ih =>
      by_cases hmem : '\n' ∈ text
      · obtain ⟨line, below, rfl, hline⟩ := List.eq_append_cons_of_mem hmem
        refine more line below hline (ih _ ?_ below rfl)
        rw [← hn, List.length_append, List.length_cons]
        omega
      · exact last text hmem

theorem notMem_of_mem_linesOf (text : List Char) : ∀ line ∈ linesOf text, '\n' ∉ line := by
  induction text using lines_induction with
  | last line hline => rwa [linesOf_last hline, List.forall_mem_singleton]
  | more line below hline ih =>
      rw [linesOf_more hline, List.forall_mem_cons]
      exact ⟨hline, ih⟩

/-! ## Items by lines -/

/-- The line leaves no string open. -/
def LeavesClosed (line : List Char) : Prop :=
  ∀ item ∈ scan (String.ofList line), isUnclosed item = false

/-- The items of lines that are scanned one by one. Each line moves all that is below it further
down. -/
def scanLines : List (List Char) → List Item
  | [] => []
  | line :: lines => scan (String.ofList line) ++ (scanLines lines).map (movedItem (.below line))

/-- If no line leaves a string open, the items of a text are those of its lines, by induction on
what is below the first. -/
theorem scan_eq_scanLines (text : List Char) :
    (∀ line ∈ linesOf text, LeavesClosed line) →
    scan (String.ofList text) = scanLines (linesOf text) := by
  induction text using lines_induction with
  | last line hline =>
      intro _
      rw [linesOf_last hline, scanLines, scanLines, List.map_nil, List.append_nil]
  | more line below hline ih =>
      rw [linesOf_more hline, List.forall_mem_cons]
      rintro ⟨hclosed, hbelow⟩
      have htext : String.ofList (line ++ '\n' :: below) = String.ofList line ++ "\n" ++
          String.ofList below := by
        apply String.toList_inj.mp
        simp
      rw [htext, scan_below hclosed, ih hbelow, String.toList_ofList, scanLines]

/-! ## Rows -/

/-- The row that an item begins on. -/
def itemRow (i : Item) : Nat := (itemPlace i).row

theorem itemRow_moved (d : Displacement) (i : Item) : itemRow (movedItem d i) = itemRow i + d.rows := by
  cases i <;> rfl

theorem movedItem_zero (i : Item) : movedItem ⟨0, 0⟩ i = i := by
  cases i <;> rfl

theorem movedItem_moved (d d' : Displacement) (i : Item) :
    movedItem d' (movedItem d i) = movedItem ⟨d.chars + d'.chars, d.rows + d'.rows⟩ i := by
  cases i <;> simp [movedItem, Token.moved, ScanError.moved, Place.moved, Nat.add_assoc]

theorem itemRow_eq {text : List Char} {i : Item} (h : i ∈ scan (String.ofList text)) :
    itemRow i = 1 + (text.take (itemPlace i).offset).count '\n' := by
  have hplace := ((tokenisation_scan _).fits i h).2.place.row_eq
  rwa [String.toList_ofList] at hplace

theorem itemRow_line {line : List Char} (hline : '\n' ∉ line) {i : Item}
    (h : i ∈ scan (String.ofList line)) :
    itemRow i = 1 := by
  rw [itemRow_eq h, List.count_eq_zero.mpr fun hmem => hline (List.mem_of_mem_take hmem)]

theorem itemRow_pos (lines : List (List Char)) : ∀ i ∈ scanLines lines, 0 < itemRow i := by
  induction lines with
  | nil => simp [scanLines]
  | cons line lines ih =>
      rw [scanLines, List.forall_mem_append, List.forall_mem_map]
      constructor
      · intro i hi
        rw [itemRow_eq hi]
        omega
      · intro i hi
        rw [itemRow_moved]
        have hpos := ih i hi
        omega

/-- The items of a row. -/
def rowItems (row : Nat) (items : List Item) : List Item := items.filter (itemRow · = row)

theorem rowItems_append (row : Nat) (items items' : List Item) :
    rowItems row (items ++ items') = rowItems row items ++ rowItems row items' :=
  List.filter_append ..

theorem rowItems_eq_nil {row : Nat} {items : List Item} (h : ∀ i ∈ items, itemRow i ≠ row) :
    rowItems row items = [] :=
  List.filter_eq_nil_iff.mpr (by simpa using h)

theorem rowItems_eq_self {row : Nat} {items : List Item} (h : ∀ i ∈ items, itemRow i = row) :
    rowItems row items = items :=
  List.filter_eq_self.mpr (by simpa using h)

theorem rowItems_moved (row : Nat) (d : Displacement) (items : List Item) :
    rowItems (row + d.rows) (items.map (movedItem d)) = (rowItems row items).map (movedItem d) := by
  simp [rowItems, List.filter_map, Function.comp_def, itemRow_moved]

/-- On each row are the items of the line that is there, moved down, and no others. -/
theorem rowItems_scanLines (lines : List (List Char)) :
    (∀ line ∈ lines, '\n' ∉ line) → ∀ k line, lines[k]? = some line →
    ∃ d, rowItems (k + 1) (scanLines lines) = (scan (String.ofList line)).map (movedItem d) := by
  induction lines with
  | nil =>
      intro _ k line hline
      cases hline
  | cons first lines ih =>
      intro hlines k line hline
      obtain ⟨hfirst, hlines⟩ := List.forall_mem_cons.mp hlines
      have hbelow : Displacement.below first = ⟨first.length + 1, 1⟩ := by
        rw [Displacement.below, List.count_eq_zero.mpr hfirst]
      rw [scanLines, hbelow, rowItems_append]
      cases k with
      | zero =>
          obtain rfl : first = line := by simpa using hline
          refine ⟨⟨0, 0⟩, ?_⟩
          rw [rowItems_eq_self fun i hi => itemRow_line hfirst hi, rowItems_eq_nil, List.append_nil,
            funext movedItem_zero, List.map_id']
          -- What is below has left the first row.
          rw [List.forall_mem_map]
          intro i hi
          rw [itemRow_moved]
          have hpos := itemRow_pos lines i hi
          show itemRow i + 1 ≠ 0 + 1
          omega
      | succ k =>
          obtain ⟨d, hd⟩ := ih hlines k line (by simpa using hline)
          refine ⟨⟨d.chars + (first.length + 1), d.rows + 1⟩, ?_⟩
          have hnone : rowItems (k + 1 + 1) (scan (String.ofList first)) = [] := by
            refine rowItems_eq_nil fun i hi => ?_
            rw [itemRow_line hfirst hi]
            omega
          rw [hnone, List.nil_append, rowItems_moved (k + 1) ⟨first.length + 1, 1⟩, hd, List.map_map]
          exact List.map_congr_left fun i _ => movedItem_moved d _ i

/-! ## Fragments -/

/-- Fragments are found by columns, which stay. -/
theorem fragmentsFrom_moved (line : List Char) (d : Displacement) (items : List Item) (col : Nat) :
    fragmentsFrom line col (items.map (movedItem d)) = fragmentsFrom line col items := by
  induction items generalizing col with
  | nil => rfl
  | cons i items ih =>
      cases i with
      | error e =>
          have hend : faultEnd line (e.moved d) = faultEnd line e := rfl
          have hcol : (e.moved d).place.col = e.place.col := rfl
          rw [List.map_cons, movedItem, fragmentsFrom, fragmentsFrom, hend, hcol, ih]
      | ok t =>
          have hcol : (t.moved d).place.col = t.place.col := rfl
          have hkind : (t.moved d).kind = t.kind := rfl
          have hlexeme : (t.moved d).lexeme = t.lexeme := rfl
          rw [List.map_cons, movedItem, fragmentsFrom, fragmentsFrom, hcol, hkind, hlexeme, ih, ih]

theorem highlightLine_eq {text line : List Char} {k : Nat} (h : (linesOf text)[k]? = some line) :
    highlightLine text k = highlight line := by
  have hline : lineAt? text k = some line := by
    rw [lineAt?, if_neg (by omega), Int.toNat_natCast, h]
  rw [highlightLine, hline]

/-- If no line leaves a string open, a line is highlighted by what is on its row. -/
theorem highlightLine_eq_rowItems {text : List Char}
    (hclosed : ∀ line ∈ linesOf text, LeavesClosed line) {k : Nat} {line : List Char}
    (h : (linesOf text)[k]? = some line) :
    highlightLine text k = fragmentsOf line (rowItems (k + 1) (scan (String.ofList text))) := by
  obtain ⟨d, hd⟩ := rowItems_scanLines (linesOf text) (notMem_of_mem_linesOf text) k line h
  rw [highlightLine_eq h, highlight_eq, scan_eq_scanLines text hclosed, hd, fragmentsOf,
    fragmentsOf, fragmentsFrom_moved, scan_eq, String.toList_ofList]

/-- Scanning goes by lines. A text is scanned alike below any text that leaves no string open. So
where no line leaves one open, the items of a text are those of its lines, and each line is
highlighted as it is in the text. -/
theorem scanning_splits_at_lines :
    (∀ above s : String, (∀ item ∈ scan above, isUnclosed item = false) →
      scan (above ++ "\n" ++ s) = scan above ++ (scan s).map (movedItem (.below above.toList))) ∧
    ∀ text : List Char, (∀ line ∈ linesOf text, LeavesClosed line) →
      scan (String.ofList text) = scanLines (linesOf text) ∧
      ∀ (k : Nat) (line : List Char), (linesOf text)[k]? = some line →
        highlightLine text k = fragmentsOf line (rowItems (k + 1) (scan (String.ofList text))) := by
  refine ⟨fun above s h => scan_below h s, fun text hclosed =>
    ⟨scan_eq_scanLines text hclosed, fun k line h => ?_⟩⟩
  exact highlightLine_eq_rowItems hclosed h

/-- A fault, a point behind a number and a comment with a quote in it have no effect on the line
below. -/
theorem scanning_splits_at_lines_faults :
    (∀ item ∈ scan "@ 1. // \"", isUnclosed item = false) ∧
    scan ("@ 1. // \"" ++ "\n" ++ "x \"y") = scan "@ 1. // \"" ++
      (scan "x \"y").map (movedItem ⟨10, 1⟩) ∧
    (∀ line ∈ linesOf "@ 1. // \"\n5 + x@".toList, LeavesClosed line) ∧
    highlightLine "@ 1. // \"\n5 + x@".toList 1 =
      fragmentsOf "5 + x@".toList (rowItems 2 (scan "@ 1. // \"\n5 + x@")) := by
  have habove : ∀ item ∈ scan "@ 1. // \"", isUnclosed item = false := by decide +kernel
  have hlines : ∀ line ∈ linesOf "@ 1. // \"\n5 + x@".toList, LeavesClosed line := by
    unfold LeavesClosed
    decide +kernel
  have htext := (scanning_splits_at_lines.2 "@ 1. // \"\n5 + x@".toList hlines).2 1 "5 + x@".toList
    (by decide +kernel)
  rw [String.ofList_toList] at htext
  exact ⟨habove, scanning_splits_at_lines.1 _ _ habove, hlines, htext⟩

end Lox.Session
