import Lox.Proofs.Number.Limits
import Lox.Proofs.Session.Fragments
/-!
# `Session.Styles` — highlighting follows the scanner

The fragments of a line are made from columns, gaps and faults, and the scanner divides the line
into items and layout. On one line the two divisions are the same but for one thing. Of a number
that is too large only the first digit is marked; the others are shown with the gap behind the
number, where they look like plain text, and they hide a comment that follows.

`Displays` says what a line looks like if so many characters of each item are marked. Highlighting
displays every line in this way (`displays_highlight`), and it marks all items whole exactly if no
number of the line is too large (`displays_whole_iff`).
-/
namespace Lox.Session

/-! ## Display -/

/-- The group that an item is shown as. -/
def itemGroup? : Item → Option Group
  | .ok t => Group.ofKind? t.kind
  | .error _ => some .error

/-- The text is blanks between tokens. -/
def IsBlanks (cs : List Char) : Prop := ∀ c ∈ cs, isLayoutBlank c = true

/-- What is shown between two items: blanks, in no style, behind what is left of the first of
them. -/
inductive Gap (left : List Char) : List Fragment → Prop where
  | none : left = [] → Gap left []
  | blanks {blanks : List Char} : IsBlanks blanks → left ++ blanks ≠ [] →
      Gap left [⟨"", left ++ blanks⟩]

/-- What is shown behind the last item: a gap, or blanks with a comment, which is shown as one if
nothing is left of the item. -/
inductive Tail (left : List Char) : List Fragment → Prop where
  | gap {fs : List Fragment} : Gap left fs → Tail left fs
  | comment {blanks text : List Char} : IsBlanks blanks →
      Tail left [⟨if left = [] then Group.comment.style else "",
        left ++ (blanks ++ '/' :: '/' :: text)⟩]

/-- From a column on, the fragments show the items of a line. Each begins where it stands, with as
much of it in its style as its extent tells; what this leaves of it is shown with the gap behind
it. -/
inductive Displays (extent : Item → Nat) (line : List Char) :
    (col : Nat) → (left : List Char) → List Item →
    List Fragment → Prop where
  /-- An empty line is one empty fragment. -/
  | empty : line = [] → Displays extent line 0 [] [] [⟨"", []⟩]
  | behind {col : Nat} {left : List Char} {fs : List Fragment} : line ≠ [] → Tail left fs →
      line.drop col = shownText fs →
      Displays extent line col left [] fs
  | item {col : Nat} {left : List Char} {i : Item} {items : List Item} {group : Group}
      {gap fs : List Fragment} :
      Gap left gap → col ≤ itemStart i → slice line col (itemStart i) = shownText gap →
      itemGroup? i = some group →
      Displays extent line (itemStart i + extent i) ((itemLexeme i).toList.drop (extent i)) items fs →
      Displays extent line col left (i :: items)
        (gap ++ ⟨group.style, (itemLexeme i).toList.take (extent i)⟩ :: fs)

/-- All of an item. -/
def whole (i : Item) : Nat := (itemLexeme i).length

/-- How much of an item is marked: all of it, but of a number that is too large one digit. -/
def marked : Item → Nat
  | .ok t => t.lexeme.length
  | .error e => if e.cause = .invalidNumber then 1 else e.lexeme.length

/-! ## Groups -/

/-- Every token of a text has a group. -/
theorem exists_group {t : Token} (h : t.Genuine) : ∃ group, Group.ofKind? t.kind = some group := by
  obtain ⟨m, place, lexeme⟩ := t
  cases m with
  | endOfInput => exact h.elim
  | mark m => cases m <;> exact ⟨_, rfl⟩
  | identifier _ | string _ | number _ => exact ⟨_, rfl⟩

/-- No token is shown as an error. -/
theorem ofKind?_ne_error (k : Kind) : Group.ofKind? k ≠ some .error := by
  cases k with
  | mark m => cases m <;> simp [Group.ofKind?, Mark.family]
  | identifier | string | number | endOfInput => simp [Group.ofKind?]

theorem style_eq_error {group : Group} : group.style = Group.error.style ↔ group = .error := by
  cases group <;> decide

/-! ## Layout of a line -/

/-- Before an item of the same line, layout is blanks: a comment would take in the item. -/
theorem isBlanks_of_layout {rest gap : List Char} (h : Layout rest gap) (hrest : rest ≠ [])
    (hline : '\n' ∉ gap ++ rest) :
    IsBlanks gap := by
  induction h with
  | nil => exact List.forall_mem_nil _
  | blank hc _ ih =>
      refine List.forall_mem_cons.mpr ⟨hc, ih ?_⟩
      exact fun hmem => hline (List.mem_cons_of_mem _ hmem)
  | @comment text gap _ hnext _ _ =>
      obtain ⟨c, cs, hcs⟩ := List.exists_cons_of_ne_nil (List.append_ne_nil_of_right_ne_nil gap hrest)
      obtain rfl := hnext c (by rw [hcs]; rfl)
      have hmem : '\n' ∈ gap ++ rest := by rw [hcs]; exact List.mem_cons_self
      refine absurd ?_ hline
      simp only [List.cons_append, List.append_assoc, List.mem_cons, List.mem_append] at hmem ⊢
      tauto

/-- Up to the end of a line, layout is blanks and maybe one comment. -/
theorem layout_end {gap : List Char} (h : Layout [] gap) (hline : '\n' ∉ gap) :
    IsBlanks gap ∨ ∃ blanks text, IsBlanks blanks ∧ gap = blanks ++ '/' :: '/' :: text := by
  induction h with
  | nil => exact .inl (List.forall_mem_nil _)
  | @blank c gap hc _ ih =>
      obtain hblanks | ⟨blanks, text, hblanks, rfl⟩ :=
        ih fun hmem => hline (List.mem_cons_of_mem _ hmem)
      · exact .inl (List.forall_mem_cons.mpr ⟨hc, hblanks⟩)
      · exact .inr ⟨c :: blanks, text, List.forall_mem_cons.mpr ⟨hc, hblanks⟩, rfl⟩
  | @comment text gap _ hnext _ _ =>
      cases gap with
      | nil => exact .inr ⟨[], text, List.forall_mem_nil _, by simp⟩
      | cons c gap =>
          obtain rfl := hnext c rfl
          simp at hline

/-! ## Gaps -/

/-- What is left of an item begins with a character that is neither a blank nor a slash. -/
def Solid (left : List Char) : Prop := ∀ c ∈ left.head?, Text.isBlank c = false ∧ c ≠ '/'

theorem solid_nil : Solid [] := by
  intro c hc
  cases hc

theorem isBlank_of_isLayoutBlank {c : Char} (h : isLayoutBlank c = true) : Text.isBlank c = true := by
  simp only [isLayoutBlank, Bool.or_eq_true, beq_iff_eq] at h
  obtain ((rfl | rfl) | rfl) | rfl := h
  all_goals rfl

theorem trimStart_blanks {blanks : List Char} (h : IsBlanks blanks) (rest : List Char) :
    Text.trimStart (blanks ++ rest) = Text.trimStart rest :=
  List.dropWhile_append_of_pos fun c hc => isBlank_of_isLayoutBlank (h c hc)

/-- Text behind a solid beginning is never taken for a comment. -/
theorem gap_solid {c : Char} {cs : List Char} (h : Solid (c :: cs)) (rest : List Char) :
    gap (c :: cs ++ rest) = ⟨"", c :: cs ++ rest⟩ := by
  obtain ⟨hblank, hslash⟩ := h c rfl
  have htrim : Text.trimStart (c :: cs ++ rest) = c :: cs ++ rest :=
    List.dropWhile_cons_of_neg (by simp [hblank])
  have hprefix : ['/', '/'].isPrefixOf (c :: cs ++ rest) = false := by
    simp [List.isPrefixOf, hslash.symm]
  rw [gap, htrim, hprefix]
  rfl

theorem gap_blanks {left blanks : List Char} (hleft : Solid left) (h : IsBlanks blanks) :
    gap (left ++ blanks) = ⟨"", left ++ blanks⟩ := by
  cases left with
  | nil =>
      have htrim := trimStart_blanks h []
      rw [List.append_nil] at htrim
      rw [List.nil_append, gap, htrim]
      rfl
  | cons c cs => exact gap_solid hleft blanks

theorem gap_comment {left blanks : List Char} (hleft : Solid left) (h : IsBlanks blanks)
    (text : List Char) :
    gap (left ++ (blanks ++ '/' :: '/' :: text)) =
      ⟨if left = [] then Group.comment.style else "", left ++ (blanks ++ '/' :: '/' :: text)⟩ := by
  cases left with
  | nil =>
      rw [List.nil_append, gap, trimStart_blanks h]
      rfl
  | cons c cs => exact gap_solid hleft _

/-- The fragment before an item, if it does not begin at the column. -/
theorem gap_before {line left blanks : List Char} {col start : Nat} (hblanks : IsBlanks blanks)
    (hslice : slice line col start = left ++ blanks) (hstart : start = col + (left ++ blanks).length) :
    Gap left (if col < start then [⟨"", slice line col start⟩] else []) ∧
      slice line col start = shownText (if col < start then [⟨"", slice line col start⟩] else []) := by
  refine ⟨?_, (shownText_before ⟨"", slice line col start⟩ rfl).symm⟩
  split
  · rename_i hlt
    rw [hslice]
    refine .blanks hblanks ?_
    rw [← List.length_pos_iff]
    omega
  · rename_i hle
    refine .none ?_
    have hnil : left ++ blanks = [] := List.length_eq_zero_iff.mp (by omega)
    exact (List.append_eq_nil_iff.mp hnil).1

/-! ## One item -/

theorem isLiteralChar_of_numberText {w : List Char} (h : NumberText w) {c : Char} (hc : c ∈ w) :
    IsLiteralChar c := by
  cases h with
  | whole _ hds => exact .inl (hds c hc)
  | decimal _ hds _ hes =>
      obtain hc | hc := List.mem_append.mp hc
      · exact .inl (hds c hc)
      · obtain rfl | hc := List.mem_cons.mp hc
        · exact .inr rfl
        · exact .inl (hes c hc)

theorem solid_of_isLiteralChar {c : Char} (h : IsLiteralChar c) : Text.isBlank c = false ∧ c ≠ '/' := by
  have hcode := h.toNat
  constructor
  · rw [← Bool.not_eq_true]
    simp only [Text.isBlank, Bool.and_eq_true, Bool.or_eq_true, decide_eq_true_eq, beq_iff_eq]
    omega
  · rintro rfl
    obtain h | h := h <;> revert h <;> decide

variable {line : List Char}

/-- A fault is marked from where it begins, for as long as it is marked. -/
theorem faultEnd_eq {e : ScanError} (hline : '\n' ∉ line) (h : Fits line (.error e)) :
    faultEnd line e = itemStart (.error e) + marked (.error e) := by
  have hcol : e.place.col = itemStart (.error e) + 1 := col_of_fits hline h
  have hdescribes := h.describes
  unfold faultEnd
  simp only [marked]
  cases hcause : e.cause with
  | invalidNumber => simpa using hcol
  | unexpected c =>
      simp only [Describes, hcause] at hdescribes
      obtain ⟨c, -, hlexeme, -⟩ := hdescribes
      have hlength : e.lexeme.length = 1 := congrArg List.length hlexeme
      simpa [hlength] using hcol
  | unterminatedString =>
      simp only [Describes, hcause] at hdescribes
      obtain ⟨body, -, -, hend⟩ := hdescribes
      have hstop : itemStart (.error e) + e.lexeme.length = line.length := hend
      simp [hstop]

/-- Of a number that is too large, what is not marked is digits and maybe a point; of
all else nothing is left. -/
theorem solid_left {i : Item} (h : Fits line i) : Solid ((itemLexeme i).toList.drop (marked i)) := by
  have hnothing : marked i = (itemLexeme i).length → Solid ((itemLexeme i).toList.drop (marked i)) := by
    intro hmarked
    rw [hmarked, ← String.length_toList, List.drop_length]
    exact solid_nil
  cases i with
  | ok t => exact hnothing rfl
  | error e =>
      by_cases hcause : e.cause = .invalidNumber
      · have hdescribes := h.describes
        simp only [Describes, hcause] at hdescribes
        intro c hc
        have hmem : c ∈ e.lexeme.toList := List.mem_of_mem_drop (List.mem_of_mem_head? hc)
        exact solid_of_isLiteralChar (isLiteralChar_of_numberText hdescribes.1.holds hmem)
      · exact hnothing (if_neg hcause)

theorem marked_le {i : Item} (h : Fits line i) : marked i ≤ (itemLexeme i).length := by
  have hnonempty := h.nonempty
  cases i with
  | ok t => exact le_rfl
  | error e =>
      simp only [marked, itemStop] at hnonempty ⊢
      split
      · omega
      · exact le_rfl

/-- What is marked of an item is cut out of the line. -/
theorem slice_marked {i : Item} (h : Fits line i) :
    slice line (itemStart i) (itemStart i + marked i) = (itemLexeme i).toList.take (marked i) := by
  have hlength : marked i ≤ itemStop i - itemStart i := by
    have hle := marked_le h
    simp only [itemStop]
    omega
  rw [h.text, slice, List.drop_take, Nat.add_sub_cancel_left, List.extract_eq_take_drop, List.take_take,
    Nat.min_eq_left hlength]

/-- An item is displayed behind a gap of blanks, if the rest of the line is from where its mark
ends. -/
theorem displays_item {left blanks : List Char} {i : Item} {items : List Item} {col : Nat}
    (hline : '\n' ∉ line) (h : Fits line i) (hgroup : ∃ group, itemGroup? i = some group)
    (hleft : Solid left) (hblanks : IsBlanks blanks)
    (hslice : slice line col (itemStart i) = left ++ blanks)
    (hstart : itemStart i = col + (left ++ blanks).length)
    (hmore : Displays marked line (itemStart i + marked i) ((itemLexeme i).toList.drop (marked i))
      items (fragmentsFrom line (itemStart i + marked i) items)) :
    Displays marked line col left (i :: items) (fragmentsFrom line col (i :: items)) := by
  obtain ⟨group, hgroup⟩ := hgroup
  obtain ⟨hgap, htext⟩ := gap_before hblanks hslice hstart
  have hle : col ≤ itemStart i := by omega
  have hplace := col_of_fits hline h
  have hitem := Displays.item hgap hle htext hgroup hmore
  cases i with
  | error e =>
      have hcol : e.place.col - 1 = itemStart (.error e) := by
        have hplace : e.place.col = _ := hplace
        omega
      cases hgroup
      rw [← slice_marked h, ← faultEnd_eq hline h] at hitem
      rw [fragmentsFrom]
      simp only [hcol]
      exact hitem
  | ok t =>
      have hcol : t.place.col - 1 = itemStart (.ok t) := by
        have hplace : t.place.col = _ := hplace
        omega
      have hgroup : Group.ofKind? t.kind = some group := hgroup
      have hlexeme : (itemLexeme (.ok t)).toList.take (marked (.ok t)) = t.lexeme.toList :=
        List.take_length
      have hgap : gap (slice line col (itemStart (.ok t))) =
          ⟨"", slice line col (itemStart (.ok t))⟩ := by
        rw [hslice, gap_blanks hleft hblanks]
      rw [hlexeme] at hitem
      rw [fragmentsFrom]
      simp only [hcol, if_neg (Nat.not_lt.mpr hle), hgroup, hgap]
      exact hitem

/-! ## All items -/

/-- What is behind the last item is displayed. -/
theorem displays_end {left rest : List Char} {col : Nat} (hne : line ≠ []) (hline : '\n' ∉ rest)
    (hlayout : Layout [] rest) (hleft : Solid left) (hdrop : line.drop col = left ++ rest) :
    Displays marked line col left [] (fragmentsFrom line col []) := by
  rw [fragmentsFrom]
  split
  · rename_i hlt
    refine .behind hne ?_ (by simp)
    have hnonempty : left ++ rest ≠ [] := by
      rw [← hdrop, ne_eq, List.drop_eq_nil_iff]
      omega
    rw [hdrop]
    obtain hblanks | ⟨blanks, text, hblanks, rfl⟩ := layout_end hlayout hline
    · rw [gap_blanks hleft hblanks]
      exact .gap (.blanks hblanks hnonempty)
    · rw [gap_comment hleft hblanks]
      exact .comment hblanks
  · rename_i hle
    rw [List.drop_eq_nil_of_le (Nat.not_lt.mp hle)] at hdrop
    have hnil := (List.append_eq_nil_iff.mp hdrop.symm).1
    exact .behind hne (.gap (.none hnil)) (List.drop_eq_nil_of_le (Nat.not_lt.mp hle))

/-- The items of a line are displayed from the column at which the mark of the last one ends, by
induction along the pieces that the line is made up of. -/
theorem displays_of_tiles {before cs : List Char} {items : List Item} (hline : '\n' ∉ line)
    (hne : line ≠ []) (h : Tiles before cs items) :
    line = before ++ cs → (∀ t, .ok t ∈ items → t.Genuine) →
      ∀ col left, line.drop col = left ++ cs → Solid left →
        Displays marked line col left items (fragmentsFrom line col items) := by
  induction h with
  | @done before gap hgap =>
      intro hsource _ col left hdrop hleft
      refine displays_end hne ?_ hgap hleft hdrop
      rw [hsource] at hline
      exact fun hmem => hline (List.mem_append_right _ hmem)
  | @item before gap w rest result items hgap hnonempty hcomment hhead hmore ih =>
      intro hsource hgenuine col left hdrop hleft
      have hblanks : IsBlanks gap := by
        refine isBlanks_of_layout hgap (by simp [hnonempty]) fun hmem => hline ?_
        rw [hsource]
        exact List.mem_append_right _ hmem
      have hfits : Fits line (itemOf (Place.origin.after (before ++ gap)) w result) := by
        rw [hsource, ← List.append_assoc]
        exact fits_of_head hnonempty hcomment hhead
      have hstart := itemStart_itemOf (before ++ gap) w result
      have hlexeme :
          (itemLexeme (itemOf (Place.origin.after (before ++ gap)) w result)).toList = w := by
        rw [itemLexeme_itemOf, String.toList_ofList]
      have hgroup : ∃ group, itemGroup? (itemOf (Place.origin.after (before ++ gap)) w result) =
          some group := by
        cases result with
        | ok m => exact exists_group (hgenuine _ List.mem_cons_self)
        | error cause => exact ⟨_, rfl⟩
      have hcol : (before ++ gap).length = col + (left ++ gap).length := by
        have hlength := congrArg List.length hdrop
        have hpos := List.length_pos_iff.mpr hnonempty
        simp only [hsource, List.length_drop, List.length_append] at hlength ⊢
        omega
      have hslice : slice line col (before ++ gap).length = left ++ gap := by
        rw [slice, List.drop_take, hdrop, hcol, Nat.add_sub_cancel_left, ← List.append_assoc,
          List.take_left]
      have hbehind : line.drop (before ++ gap).length = w ++ rest := by
        rw [hsource, ← List.append_assoc, List.drop_left]
      have hmarked := marked_le hfits
      have hsolid := solid_left hfits
      generalize itemOf (Place.origin.after (before ++ gap)) w result = i at *
      rw [← hstart] at hcol hslice hbehind
      refine displays_item hline hfits hgroup hleft hblanks hslice hcol ?_
      refine ih ?_ (fun t ht => hgenuine t (List.mem_cons_of_mem _ ht)) _ _ ?_ hsolid
      · rw [hsource]
        simp
      · rw [← List.drop_drop, hbehind, hlexeme, List.drop_append_of_le_length]
        rwa [← hlexeme]

/-- Something is shown of a line that is not empty. -/
theorem Displays.ne_nil {extent : Item → Nat} {left : List Char} {items : List Item}
    {fs : List Fragment} (h : Displays extent line 0 left items fs) (hne : line ≠ []) :
    fs ≠ [] := by
  cases h with
  | empty hnil => exact absurd hnil hne
  | behind _ _ htext =>
      rintro rfl
      exact hne htext
  | item _ _ _ _ _ => simp

/-- A line with its items in their styles. -/
def fragmentsOf (line : List Char) (items : List Item) : List Fragment :=
  if fragmentsFrom line 0 items = [] then [⟨"", line⟩] else fragmentsFrom line 0 items

theorem highlight_eq (line : List Char) :
    highlight line = fragmentsOf line (itemsFrom line .origin) := by
  have hitems : (Cursor.ofChars line).drain.1 = itemsFrom line .origin := rfl
  unfold highlight fragmentsOf
  rw [hitems]
  split <;> simp_all

/-- Highlighting displays the items of a line, marked as they are. -/
theorem displays_highlight (hline : '\n' ∉ line) :
    Displays marked line 0 [] (scan (String.ofList line)) (highlight line) := by
  have hscan : scan (String.ofList line) = itemsFrom line .origin := by
    rw [scan_eq, String.toList_ofList]
  rw [hscan, highlight_eq, fragmentsOf]
  by_cases hne : line = []
  · subst hne
    rw [itemsFrom_nil]
    exact .empty rfl
  · have hdisplays : Displays marked line 0 [] (itemsFrom line .origin)
        (fragmentsFrom line 0 (itemsFrom line .origin)) := by
      refine displays_of_tiles hline hne (tiles_itemsFrom line .origin [] rfl) rfl ?_ 0 [] rfl solid_nil
      exact fun t ht => genuine_of_mem_itemsFrom line .origin ht
    rw [if_neg (hdisplays.ne_nil hne)]
    exact hdisplays

/-! ## Marking all of an item

How much of a line is shown in the style of errors tells whether its faults are marked whole. -/

/-- The length of what is shown in the style of errors. -/
def errorLength (fs : List Fragment) : Nat :=
  ((fs.filter (·.style = Group.error.style)).map (·.text.length)).sum

/-- What an item adds to it. -/
def faultLength (extent : Item → Nat) : Item → Nat
  | .ok _ => 0
  | .error e => min (extent (.error e)) e.lexeme.length

theorem errorLength_append (fs gs : List Fragment) :
    errorLength (fs ++ gs) = errorLength fs + errorLength gs := by
  simp [errorLength]

theorem Gap.errorLength {left : List Char} {fs : List Fragment} (h : Gap left fs) :
    errorLength fs = 0 := by
  cases h with
  | none _ => rfl
  | blanks _ _ => rfl

theorem Tail.errorLength {left : List Char} {fs : List Fragment} (h : Tail left fs) :
    errorLength fs = 0 := by
  cases h with
  | gap h => exact h.errorLength
  | comment _ =>
      unfold Session.errorLength
      split <;> rfl

theorem errorLength_item {extent : Item → Nat} {i : Item} {group : Group}
    (h : itemGroup? i = some group) (fs : List Fragment) :
    errorLength (⟨group.style, (itemLexeme i).toList.take (extent i)⟩ :: fs) =
      faultLength extent i + errorLength fs := by
  cases i with
  | error e =>
      cases h
      simp [errorLength, faultLength, itemLexeme, String.length_toList]
  | ok t =>
      have hstyle : group.style ≠ Group.error.style := by
        rw [ne_eq, style_eq_error]
        rintro rfl
        exact ofKind?_ne_error t.kind h
      simp [errorLength, faultLength, hstyle]

theorem Displays.errorLength {extent : Item → Nat} {col : Nat} {left : List Char}
    {items : List Item} {fs : List Fragment} (h : Displays extent line col left items fs) :
    errorLength fs = (items.map (faultLength extent)).sum := by
  induction h with
  | empty _ => rfl
  | behind _ htail _ => exact htail.errorLength
  | item hgap _ _ hgroup _ ih =>
      rw [errorLength_append, hgap.errorLength, errorLength_item hgroup, ih, Nat.zero_add,
        List.map_cons, List.sum_cons]

theorem Displays.congr {extent extent' : Item → Nat} {col : Nat} {left : List Char}
    {items : List Item} {fs : List Fragment} (h : Displays extent line col left items fs)
    (hextent : ∀ i ∈ items, extent i = extent' i) :
    Displays extent' line col left items fs := by
  induction h with
  | empty hnil => exact .empty hnil
  | behind hne htail htext => exact .behind hne htail htext
  | item hgap hcol htext hgroup _ ih =>
      obtain ⟨hi, hitems⟩ := List.forall_mem_cons.mp hextent
      rw [hi] at ih ⊢
      exact .item hgap hcol htext hgroup (ih hitems)

/-- A number that is too large has more than one digit. -/
theorem one_lt_length_of_invalidNumber {s : String} {e : ScanError} (h : .error e ∈ scan s)
    (hcause : e.cause = .invalidNumber) :
    1 < e.lexeme.length := by
  obtain ⟨x, hspells, hlimit⟩ := Number.limit_le_of_mem_scan h hcause
  rw [← String.length_toList]
  by_contra hshort
  generalize e.lexeme.toList = w at *
  cases hspells with
  | whole hne hds =>
      obtain ⟨d, ds, rfl⟩ := List.exists_cons_of_ne_nil hne
      obtain rfl :
          ds = [] := List.length_eq_zero_iff.mp (by simp only [List.length_cons] at hshort; omega)
      have hdigit : Number.ofDigits [d] ≤ 9 := by
        have hcode := isDigit_iff.mp (hds d List.mem_cons_self)
        simp [Number.ofDigits]
        omega
      rw [← Number.cast_limit, Nat.cast_le] at hlimit
      have hsmall : 9 < 2 ^ 1024 - 2 ^ 970 := by decide +kernel
      omega
  | decimal hne _ hes _ =>
      have hpos := List.length_pos_iff.mpr hne
      simp only [List.length_append, List.length_cons] at hshort
      omega

/-- All items are marked whole exactly if no number of the line is too large. -/
theorem displays_whole_iff (hline : '\n' ∉ line) :
    Displays whole line 0 [] (scan (String.ofList line)) (highlight line) ↔
      ∀ e, .error e ∈ scan (String.ofList line) → e.cause ≠ .invalidNumber := by
  have hmarked := displays_highlight hline
  constructor
  · intro hwhole e he hcause
    have hlengths := hmarked.errorLength.symm.trans hwhole.errorLength
    refine absurd hlengths (Nat.ne_of_lt (List.sum_lt_sum _ _ ?_ ⟨_, he, ?_⟩))
    · intro i hi
      cases i with
      | ok t => exact le_rfl
      | error e => exact le_min (min_le_right _ _) (min_le_right _ _)
    · have hlength := one_lt_length_of_invalidNumber he hcause
      simpa [faultLength, marked, whole, itemLexeme, hcause] using hlength
  · intro hfinite
    refine hmarked.congr fun i hi => ?_
    cases i with
    | ok t => rfl
    | error e => exact if_neg (hfinite e hi)

/-- Highlighting agrees with the scanner: on every line each token is one fragment in the style of
its group, each fault is shown as an error, and between them are blanks, with a comment at most
behind the last. Only of a number that is too large less than the whole is marked; where there is
none, all items are marked whole. -/
theorem highlight_follows_scan (line : List Char) (hline : '\n' ∉ line) :
    Displays marked line 0 [] (scan (String.ofList line)) (highlight line) ∧
    (Displays whole line 0 [] (scan (String.ofList line)) (highlight line) ↔
      ∀ e, .error e ∈ scan (String.ofList line) → e.cause ≠ .invalidNumber) :=
  ⟨displays_highlight hline, displays_whole_iff hline⟩

/-- A name, a character that begins no lexeme, a string without an end, and before them a number
that is too large. -/
theorem highlight_follows_scan_faults : '\n' ∉ List.replicate 400 '9' ++ " x@\t\"y // z".toList ∧
    Displays marked (List.replicate 400 '9' ++ " x@\t\"y // z".toList) 0 []
      (scan (String.ofList (List.replicate 400 '9' ++ " x@\t\"y // z".toList)))
      (highlight (List.replicate 400 '9' ++ " x@\t\"y // z".toList)) := by
  have hline : '\n' ∉ List.replicate 400 '9' ++ " x@\t\"y // z".toList := by
    rw [List.mem_append, List.mem_replicate]
    decide
  exact ⟨hline, (highlight_follows_scan _ hline).1⟩

/-- Of 309 nines, which are a number that is too large, only the first is marked. -/
theorem large_number_marked_in_part :
    highlight (List.replicate 309 '9') =
      [⟨Group.error.style, ['9']⟩, ⟨"", List.replicate 308 '9'⟩] ∧
    ¬ Displays whole (List.replicate 309 '9') 0 [] (scan (String.ofList (List.replicate 309 '9')))
      (highlight (List.replicate 309 '9')) := by
  have hline : '\n' ∉ List.replicate 309 '9' := by
    rw [List.mem_replicate]
    decide
  have hspells : Number.Spells (List.replicate 309 '9') (Number.ofDigits (List.replicate 309 '9')) := by
    refine .whole (List.cons_ne_nil _ _) fun d hd => ?_
    rw [List.eq_of_mem_replicate hd]
    rfl
  have hlimit : Number.limit ≤ Number.ofDigits (List.replicate 309 '9') := by
    rw [← Number.cast_limit, Nat.cast_le]
    decide +kernel
  have hscan := hspells.scan_eq
  rw [if_pos hlimit] at hscan
  constructor
  · have hitems := scan_eq (String.ofList (List.replicate 309 '9'))
    rw [hscan, String.toList_ofList] at hitems
    rw [highlight_eq, ← hitems]
    decide +kernel
  · rw [displays_whole_iff hline, hscan]
    intro hfinite
    exact hfinite _ List.mem_cons_self rfl

end Lox.Session
