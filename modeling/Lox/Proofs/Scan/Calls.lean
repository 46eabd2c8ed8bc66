import Lox.Proofs.Scan.Order
import Lox.Proofs.Scan.Position
/-!
# `Scan.Calls` — a cursor under any sequence of calls

A cursor can be asked for single scanners in any order, also from the middle of a lexeme, besides
pulling the items of its text one by one. Whatever is asked, the cursor only does two things: it
reads on, and it begins a lexeme where it stands. `Reaches` is the closure of these two, and what
they keep (`Sound`) holds after every run of calls: the text is what comes before the lexeme, the
lexeme and the rest, and both places are where these pieces meet.
-/
namespace Lox

/-! ## What reading on and beginning a lexeme keep -/

namespace Cursor

/-- The text is made up of what comes before the lexeme, the lexeme and the rest, and the places
fit. -/
def Sound (source : List Char) (c : Cursor) : Prop :=
  ∃ before, source = before ++ c.lexeme ++ c.rest ∧ c.start = Place.origin.after before ∧
    c.here = c.start.after c.lexeme

theorem sound_ofChars (cs : List Char) : Sound cs (.ofChars cs) := ⟨[], rfl, rfl, rfl⟩

theorem Sound.advance {source : List Char} {c : Cursor} (h : Sound source c) (n : Nat) :
    Sound source (c.advance n) := by
  obtain ⟨before, hsource, hstart, hhere⟩ := h
  have hlexeme : (c.advance n).lexeme = c.lexeme ++ c.rest.take n := by
    simp [lexeme, advance_taken]
  refine ⟨before, ?_, ?_, ?_⟩
  · rw [hlexeme, advance_rest, List.append_assoc, List.append_assoc,
      List.take_append_drop, ← List.append_assoc]
    exact hsource
  · rw [advance_start]
    exact hstart
  · rw [hlexeme, advance_here, advance_start, Place.after_append, hhere]

theorem Sound.begin {source : List Char} {c : Cursor} (h : Sound source c) : Sound source c.begin := by
  obtain ⟨before, hsource, hstart, hhere⟩ := h
  refine ⟨before ++ c.lexeme, ?_, ?_, ?_⟩
  · show source = before ++ c.lexeme ++ [] ++ c.rest
    rw [List.append_nil]
    exact hsource
  · rw [begin_start, hhere, hstart, Place.after_append]
  · rfl

/-- The second cursor comes from the first one by reading on and beginning lexemes. -/
inductive Reaches (c : Cursor) : Cursor → Prop where
  | refl : Reaches c c
  | advance {d : Cursor} (n : Nat) : Reaches c d → Reaches c (d.advance n)
  | begin {d : Cursor} : Reaches c d → Reaches c d.begin

theorem Reaches.trans {c d e : Cursor} (h : Reaches c d) (h' : Reaches d e) : Reaches c e := by
  induction h' with
  | refl => exact h
  | advance n _ ih => exact .advance n ih
  | begin _ ih => exact .begin ih

theorem Reaches.sound {source : List Char} {c d : Cursor} (h : Reaches c d) (hc : Sound source c) :
    Sound source d := by
  induction h with
  | refl => exact hc
  | advance n _ ih => exact ih.advance n
  | begin _ ih => exact ih.begin

/-- A cursor never goes back. -/
theorem Reaches.offset_le {c d : Cursor} (h : Reaches c d) : c.here.offset ≤ d.here.offset := by
  induction h with
  | refl => exact Nat.le_refl _
  | advance n _ ih =>
      rw [advance_here, Place.offset_after]
      exact Nat.le_trans ih (Nat.le_add_right _ _)
  | begin _ ih => exact ih

/-- What is read stays read. -/
theorem Reaches.rest_eq_nil {c d : Cursor} (h : Reaches c d) (hc : c.rest = []) : d.rest = [] := by
  induction h with
  | refl => exact hc
  | advance n _ ih => rw [advance_rest, ih, List.drop_nil]
  | begin _ ih => exact ih

/-! ## What the scanners do -/

theorem reaches_skipLayout (c : Cursor) : Reaches c c.skipLayout := .advance _ .refl

theorem reaches_scanString (c : Cursor) : Reaches c c.scanString.2 := by
  unfold scanString
  split
  · exact .advance _ .refl
  · exact .advance _ .refl

theorem reaches_scanSign (c : Cursor) : Reaches c c.scanSign.2 := by
  unfold scanSign
  split
  · exact .advance _ .refl
  · exact .advance _ .refl

theorem reaches_scanToken (c : Cursor) : Reaches c c.scanToken.2 := by
  rw [scanToken_eq]
  exact .advance _ (.begin .refl)

/-- The item is about the lexeme that ends at the cursor. -/
def Tells (c : Cursor) (item : Item) : Prop :=
  itemPlace item = c.start ∧ itemLexeme item = String.ofList c.lexeme

theorem tells_emit (c : Cursor) (m : Meaning) : c.Tells (c.emit m) := ⟨rfl, rfl⟩

theorem tells_fault (c : Cursor) (cause : ScanError.Cause) : c.Tells (c.fault cause) := ⟨rfl, rfl⟩

theorem tells_scanString (c : Cursor) : c.scanString.2.Tells c.scanString.1 := by
  unfold scanString
  split
  · exact tells_emit _ _
  · exact tells_fault _ _

theorem tells_scanNumber (c : Cursor) : c.scanNumber.2.Tells c.scanNumber.1 := by
  show (c.advance _).Tells (c.advance _).numberItem
  unfold numberItem
  split
  · split
    · exact tells_fault _ _
    · exact tells_emit _ _
  · exact tells_fault _ _

theorem tells_scanName (c : Cursor) : c.scanName.2.Tells c.scanName.1 := by
  show (c.advance _).Tells (c.advance _).nameItem
  unfold nameItem
  split
  · exact tells_emit _ _
  · exact tells_emit _ _

theorem tells_scanSign (c : Cursor) : c.scanSign.2.Tells c.scanSign.1 := by
  unfold scanSign
  split
  · exact tells_emit _ _
  · exact tells_fault _ _

theorem tells_scanToken (c : Cursor) : c.scanToken.2.Tells c.scanToken.1 := by
  rw [scanToken_eq]
  constructor
  · rw [itemPlace_itemOf, advance_start, begin_start]
  · rw [itemLexeme_itemOf, lexeme_advance_begin]

/-! ## Pulling items -/

theorem reaches_next? (c : Cursor) : Reaches c c.next?.2 := by
  unfold next?
  dsimp only
  split
  · exact reaches_skipLayout c
  · exact (reaches_skipLayout c).trans (reaches_scanToken _)

theorem tells_next? {c : Cursor} {item : Item} (h : c.next?.1 = some item) : c.next?.2.Tells item := by
  unfold next? at h ⊢
  dsimp only at h ⊢
  split at h
  · cases h
  · rename_i hend
    rw [if_neg hend]
    cases h
    exact tells_scanToken _

/-- Pulling the items one by one gives these, and then the end. -/
inductive Pulls : Cursor → List Item → Cursor → Prop where
  | done {c d : Cursor} : c.next? = (none, d) → Pulls c [] d
  | item {c d e : Cursor} {i : Item} {is : List Item} : c.next? = (some i, d) → Pulls d is e →
      Pulls c (i :: is) e

/-- Draining a cursor is pulling until nothing comes. -/
theorem pulls_drain (c : Cursor) : Pulls c c.drain.1 c.drain.2 := by
  induction c using drain.induct with
  | case1 c hend =>
      rw [drain, if_pos hend]
      apply Pulls.done
      simp [next?, atEnd, hend]
  | case2 c hend ih =>
      rw [drain, if_neg hend]
      refine Pulls.item ?_ ih
      simp [next?, atEnd, hend]

/-- At the end of a drain nothing is left. -/
theorem Pulls.rest_eq_nil {c d : Cursor} {is : List Item} (h : Pulls c is d) : d.rest = [] := by
  induction h with
  | done hnext =>
      unfold next? at hnext
      dsimp only at hnext
      split at hnext
      · rename_i hend
        cases hnext
        exact List.isEmpty_iff.mp hend
      · cases hnext
  | item _ _ ih => exact ih

theorem Pulls.reaches {c d : Cursor} {is : List Item} (h : Pulls c is d) : Reaches c d := by
  induction h with
  | @done c d hnext =>
      have hd := reaches_next? c
      rw [hnext] at hd
      exact hd
  | @item c d e i is hnext _ ih =>
      have hd := reaches_next? c
      rw [hnext] at hd
      exact hd.trans ih

/-- Every item of a drain is about a lexeme that the cursor passes. -/
theorem Pulls.tells {c e : Cursor} {is : List Item} (h : Pulls c is e) {i : Item} (hi : i ∈ is) :
    ∃ d, Reaches c d ∧ Reaches d e ∧ d.Tells i := by
  induction h with
  | done _ => cases hi
  | @item c d e j is hnext hrest ih =>
      have hd := reaches_next? c
      rw [hnext] at hd
      rcases List.mem_cons.mp hi with rfl | hi
      · have hitem : c.next?.1 = some i := by rw [hnext]
        have htells := tells_next? hitem
        rw [hnext] at htells
        exact ⟨d, hd, hrest.reaches, htells⟩
      · obtain ⟨d', hd', hrest', htells⟩ := ih hi
        exact ⟨d', hd.trans hd', hrest', htells⟩

/-- Where everything is read, a drain yields nothing. -/
theorem drain_of_rest_eq_nil {c : Cursor} (h : c.rest = []) : c.drain.1 = [] := by
  rw [drain_items, h]
  exact itemsFrom_nil _

/-! ## In terms of the text -/

/-- Both places of the cursor lie in the text, the start of the lexeme not behind the end. -/
structure Placed (source : List Char) (c : Cursor) : Prop where
  start_le : c.start.offset ≤ c.here.offset
  here_le : c.here.offset ≤ source.length
  start : c.start.LiesIn source
  here : c.here.LiesIn source

theorem Sound.placed {source : List Char} {c : Cursor} (h : Sound source c) : c.Placed source := by
  obtain ⟨before, hsource, hstart, hhere⟩ := h
  have hend : c.here = Place.origin.after (before ++ c.lexeme) := by
    rw [hhere, hstart, Place.after_append]
  have hhere' : c.here.LiesIn source := by
    rw [hend, hsource]
    exact Place.liesIn_after _ _
  refine ⟨?_, hhere'.offset_le, ?_, hhere'⟩
  · rw [hhere, Place.offset_after]
    exact Nat.le_add_right _ _
  · rw [hstart, hsource, List.append_assoc]
    exact Place.liesIn_after _ _

/-- The lexeme is the piece of the text between the two places. -/
theorem Sound.lexeme_eq {source : List Char} {c : Cursor} (h : Sound source c) :
    c.lexeme = source.extract c.start.offset c.here.offset := by
  obtain ⟨before, hsource, hstart, hhere⟩ := h
  have hfrom : c.start.offset = before.length := by
    rw [hstart, Place.offset_after_origin]
  have hto : c.here.offset - before.length = c.lexeme.length := by
    rw [hhere, Place.offset_after, hfrom]
    omega
  rw [List.extract_eq_take_drop, hfrom, hto, hsource, List.append_assoc, List.drop_left, List.take_left]

/-- Everything is read at the end of the text. -/
theorem Sound.offset_eq_length {source : List Char} {c : Cursor} (h : Sound source c)
    (hrest : c.rest = []) :
    c.here.offset = source.length := by
  obtain ⟨before, hsource, hstart, hhere⟩ := h
  rw [hhere, hstart, ← Place.after_append, Place.offset_after_origin, hsource, hrest, List.append_nil]

/-- The item has the place where the lexeme of the cursor starts, and the text from there to the
cursor. -/
structure Yields (source : List Char) (c : Cursor) (item : Item) : Prop where
  place : itemPlace item = c.start
  text : (itemLexeme item).toList = source.extract c.start.offset c.here.offset

theorem Tells.yields {source : List Char} {c : Cursor} {item : Item} (h : c.Tells item)
    (hc : Sound source c) :
    c.Yields source item := by
  refine ⟨h.1, ?_⟩
  rw [h.2, String.toList_ofList]
  exact hc.lexeme_eq

end Cursor

/-! ## Calls -/

/-- What a scanner can be asked for. Any number of scans of its text may be under way; they
are told apart by numbers. -/
inductive Scanner.Call where
  | peek (offset : Int)
  | advance (count : Int)
  | atEnd
  | skipLayout
  | skipLine
  | scanToken
  | scanString
  | scanNumber
  | scanName
  | scanSign
  | next (scan : Nat)
  | drain

/-- What a scanner answers. -/
inductive Scanner.Answer where
  /-- The character that was looked at, if there is one. -/
  | character (c : Option Char)
  | text (cs : List Char)
  | refused (m : Cursor.BackwardMove)
  | flag (b : Bool)
  | done
  | item (i : Item)
  | ended
  | items (is : List Item)

/-- A cursor, and the scans that have come to an end. -/
structure Scanner where
  cursor : Cursor
  ended : List Nat

namespace Scanner

/-- The scanner at the beginning of a text. -/
def ofText (s : String) : Scanner := ⟨.ofText s, []⟩

/-- Takes an item for an answer. -/
def take (s : Scanner) (r : Item × Cursor) : Answer × Scanner := (.item r.1, { s with cursor := r.2 })

/-- Pulls the next item of a scan. A scan that has ended stays ended. -/
def pull (s : Scanner) (scan : Nat) : Answer × Scanner :=
  if scan ∈ s.ended then (.ended, s)
  else
    match s.cursor.next? with
    | (some i, c) => (.item i, { s with cursor := c })
    | (none, c) => (.ended, ⟨c, scan :: s.ended⟩)

/-- Answers a call. -/
def call (s : Scanner) : Call → Answer × Scanner
  | .peek offset => (.character (s.cursor.charAt? offset), s)
  | .advance count =>
    match s.cursor.move count with
    | (.ok cs, c) => (.text cs, { s with cursor := c })
    | (.error m, c) => (.refused m, { s with cursor := c })
  | .atEnd => (.flag s.cursor.atEnd, s)
  | .skipLayout => (.done, { s with cursor := s.cursor.skipLayout })
  | .skipLine => (.done, { s with cursor := s.cursor.skipLine })
  | .scanToken => s.take s.cursor.scanToken
  | .scanString => s.take s.cursor.scanString
  | .scanNumber => s.take s.cursor.scanNumber
  | .scanName => s.take s.cursor.scanName
  | .scanSign => s.take s.cursor.scanSign
  | .next scan => s.pull scan
  | .drain => (.items s.cursor.drain.1, { s with cursor := s.cursor.drain.2 })

/-- The scanner after a run of calls. -/
def after (s : Scanner) (calls : List Call) : Scanner := calls.foldl (fun s c => (s.call c).2) s

/-- A call moves the cursor on, and what it yields is about lexemes that the cursor passes. -/
structure Moves (c d : Cursor) (answer : Answer) : Prop where
  reaches : c.Reaches d
  item : ∀ i, answer = .item i → d.Tells i
  items : ∀ is, answer = .items is → c.Pulls is d

/-- The answer yields no item. -/
def Answer.Silent : Answer → Prop
  | .item _ | .items _ => False
  | _ => True

theorem moves_silent {c d : Cursor} {answer : Answer} (h : c.Reaches d) (hsilent : answer.Silent) :
    Moves c d answer := by
  refine ⟨h, ?_, ?_⟩
  · rintro _ rfl
    exact hsilent.elim
  · rintro _ rfl
    exact hsilent.elim

theorem moves_item {c d : Cursor} {i : Item} (h : c.Reaches d) (hi : d.Tells i) :
    Moves c d (.item i) := by
  refine ⟨h, ?_, ?_⟩
  · rintro _ ⟨⟩
    exact hi
  · intro is his
    cases his

theorem moves_pull (s : Scanner) (scan : Nat) :
    Moves s.cursor (s.pull scan).2.cursor (s.pull scan).1 := by
  unfold pull
  split
  · exact moves_silent .refl trivial
  · have hreaches := s.cursor.reaches_next?
    split
    · rename_i i c hnext
      rw [hnext] at hreaches
      have hitem : s.cursor.next?.1 = some i := by rw [hnext]
      have htells := Cursor.tells_next? hitem
      rw [hnext] at htells
      exact moves_item hreaches htells
    · rename_i c hnext
      rw [hnext] at hreaches
      exact moves_silent hreaches trivial

/-- What a single call does. -/
theorem moves_call (s : Scanner) (call : Call) :
    Moves s.cursor (s.call call).2.cursor (s.call call).1 := by
  cases call with
  | peek offset => exact moves_silent .refl trivial
  | advance count =>
      by_cases hcount : count < 0
      · simp only [Scanner.call, Cursor.move, if_pos hcount]
        exact moves_silent .refl trivial
      · simp only [Scanner.call, Cursor.move, if_neg hcount]
        exact moves_silent (.advance _ .refl) trivial
  | atEnd => exact moves_silent .refl trivial
  | skipLayout => exact moves_silent (.advance _ .refl) trivial
  | skipLine => exact moves_silent (.advance _ .refl) trivial
  | scanToken => exact moves_item (Cursor.reaches_scanToken _) (Cursor.tells_scanToken _)
  | scanString => exact moves_item (Cursor.reaches_scanString _) (Cursor.tells_scanString _)
  | scanNumber => exact moves_item (.advance _ .refl) (Cursor.tells_scanNumber _)
  | scanName => exact moves_item (.advance _ .refl) (Cursor.tells_scanName _)
  | scanSign => exact moves_item (Cursor.reaches_scanSign _) (Cursor.tells_scanSign _)
  | next scan => exact moves_pull s scan
  | drain =>
      have hpulls := s.cursor.pulls_drain
      refine ⟨hpulls.reaches, ?_, ?_⟩
      · intro i hi
        cases hi
      · rintro _ ⟨⟩
        exact hpulls

/-- What a run of calls does. -/
theorem reaches_after (s : Scanner) (calls : List Call) : s.cursor.Reaches (s.after calls).cursor := by
  induction calls generalizing s with
  | nil => exact .refl
  | cons call calls ih => exact (moves_call s call).reaches.trans (ih _)

theorem sound_after (s : String) (calls : List Call) : ((ofText s).after calls).cursor.Sound s.toList :=
  (reaches_after _ calls).sound (Cursor.sound_ofChars s.toList)

/-- How a call keeps to its text: what it does to the cursor, and what it answers. -/
structure Keeps (source : List Char) (s : Scanner) (call : Call) : Prop where
  placed : (s.call call).2.cursor.Placed source
  forward : s.cursor.here.offset ≤ (s.call call).2.cursor.here.offset
  /-- A token or a fault is about the lexeme that the cursor has just read. -/
  item : ∀ i, (s.call call).1 = .item i → (s.call call).2.cursor.Yields source i
  /-- So is each one of a drain, at the moment when it is yielded. -/
  items : ∀ is, (s.call call).1 = .items is → ∀ i ∈ is, ∃ c : Cursor, c.Placed source ∧
    s.cursor.here.offset ≤ c.here.offset ∧ c.here.offset ≤ (s.call call).2.cursor.here.offset ∧
    c.Yields source i
  backward : ∀ n, n < 0 → call = .advance n → s.call call = (.refused ⟨n⟩, s)
  drained : call = .drain → (s.call call).2.cursor.here.offset = source.length ∧
    ∀ later, (((s.call call).2.after later).call .drain).1 = .items []

theorem keeps_of_sound {source : List Char} {s : Scanner} (h : s.cursor.Sound source) (call : Call) :
    s.Keeps source call := by
  have hmoves := moves_call s call
  have hsound := hmoves.reaches.sound h
  refine ⟨hsound.placed, hmoves.reaches.offset_le, ?_, ?_, ?_, ?_⟩
  · intro i hi
    exact (hmoves.item i hi).yields hsound
  · intro is his i hi
    obtain ⟨c, hbefore, hafter, htells⟩ := (hmoves.items is his).tells hi
    have hc := hbefore.sound h
    exact ⟨c, hc.placed, hbefore.offset_le, hafter.offset_le, htells.yields hc⟩
  · rintro n hn rfl
    simp only [Scanner.call, Cursor.move, if_pos hn]
  · rintro rfl
    have hrest : s.cursor.drain.2.rest = [] := s.cursor.pulls_drain.rest_eq_nil
    refine ⟨hsound.offset_eq_length hrest, ?_⟩
    intro later
    have hlater := (reaches_after (s.call .drain).2 later).rest_eq_nil hrest
    exact congrArg Answer.items (Cursor.drain_of_rest_eq_nil hlater)

end Scanner

/-- Whatever a scanner was asked for, its cursor stands at a place of its text with the row and the
column of that place, and so does the start of its lexeme; and whatever it is asked for next, it
goes on from there. -/
theorem Scanner.keeps_to_text (s : String) (calls : List Call) :
    ((ofText s).after calls).cursor.Placed s.toList ∧
      ∀ call, ((ofText s).after calls).Keeps s.toList call := by
  have hsound := sound_after s calls
  exact ⟨hsound.placed, keeps_of_sound hsound⟩

end Lox
