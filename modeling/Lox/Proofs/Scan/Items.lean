import Lox.Scan
import Mathlib
/-!
# `Scan.Items` — scanning as a function of the text that is left

A cursor carries the whole text and the start of a lexeme along; what scanning yields depends only
on the text that is left and on the place where it begins. This file says so (`itemsFrom`), names
what the head of a text is (`lexemeAt`), and gives the equations and the induction by which
everything about scanning is proved: a text is empty, or begins with a blank, a comment or a lexeme.
-/
namespace Lox

/-! ## Cursors -/

namespace Cursor

@[simp] theorem advance_here (c : Cursor) (n : Nat) :
    (c.advance n).here = c.here.after (c.rest.take n) := by
  induction n generalizing c with
  | zero => simp
  | succ n ih =>
      unfold advance
      split
      · rename_i h; simp [h]
      · rename_i h; rw [ih, h]; rfl

@[simp] theorem advance_start (c : Cursor) (n : Nat) : (c.advance n).start = c.start := by
  induction n generalizing c with
  | zero => rfl
  | succ n ih =>
      unfold advance
      split
      · rfl
      · rw [ih]

theorem advance_taken (c : Cursor) (n : Nat) :
    (c.advance n).taken = (c.rest.take n).reverse ++ c.taken := by
  induction n generalizing c with
  | zero => simp
  | succ n ih =>
      unfold advance
      split
      · rename_i h; simp [h]
      · rename_i h; rw [ih, h]; simp

@[simp] theorem begin_here (c : Cursor) : c.begin.here = c.here := rfl

@[simp] theorem begin_start (c : Cursor) : c.begin.start = c.here := rfl

/-- The lexeme is what was read since it began. -/
@[simp] theorem lexeme_advance_begin (c : Cursor) (n : Nat) :
    (c.begin.advance n).lexeme = c.rest.take n := by
  simp [lexeme, advance_taken, begin]

end Cursor

/-! ## Taking while -/

theorem drop_takeWhile (p : Char → Bool) (cs : List Char) :
    cs.drop (cs.takeWhile p).length = cs.dropWhile p := by
  have h : ((cs.takeWhile p) ++ (cs.dropWhile p)).drop (cs.takeWhile p).length = cs.dropWhile p :=
    List.drop_left
  rwa [List.takeWhile_append_dropWhile] at h

theorem take_takeWhile (p : Char → Bool) (cs : List Char) :
    cs.take (cs.takeWhile p).length = cs.takeWhile p := by
  have h : ((cs.takeWhile p) ++ (cs.dropWhile p)).take (cs.takeWhile p).length = cs.takeWhile p :=
    List.take_left
  rwa [List.takeWhile_append_dropWhile] at h

/-! ## The lexeme at the head of a text -/

/-- What a number stands for, or why it stands for nothing. -/
def numberMeaning (cs : List Char) : Except ScanError.Cause Meaning :=
  match Number.read? cs with
  | some v => if Number.isInfinite v then .error .invalidNumber else .ok (.number v)
  | none => .error .invalidNumber

/-- What a name stands for. -/
def nameMeaning (cs : List Char) : Meaning :=
  match Mark.word? (String.ofList cs) with
  | some m => .mark m
  | none => .identifier (String.ofList cs)

/-- The lexeme at the head of a text: what it stands for, or why it is no token, and its length. -/
def lexemeAt : List Char → Except ScanError.Cause Meaning × Nat
  | [] => (.error (.unexpected none), 1)
  | c :: cs =>
    if c = '"' then
      if isTerminated (c :: cs) then
        (.ok (.string (String.ofList ((c :: cs).take (contentsLength (c :: cs) + 2)).tail.dropLast)),
          contentsLength (c :: cs) + 2)
      else (.error .unterminatedString, contentsLength (c :: cs) + 1)
    else if c.isDigit then
      (numberMeaning ((c :: cs).take (numberLength (c :: cs))), numberLength (c :: cs))
    else if isNameStart c then
      (.ok (nameMeaning ((c :: cs).take (nameLength (c :: cs)))), nameLength (c :: cs))
    else
      match Mark.signAt? (c :: cs) with
      | some m => (.ok (.mark m), m.spelling.toList.length)
      | none => (.error (.unexpected (some c)), 1)

theorem lexemeAt_quote (cs : List Char) : lexemeAt ('"' :: cs) =
    if isTerminated ('"' :: cs) then
      (.ok (.string (String.ofList (('"' :: cs).take (contentsLength ('"' :: cs) + 2)).tail.dropLast)),
        contentsLength ('"' :: cs) + 2)
    else (.error .unterminatedString, contentsLength ('"' :: cs) + 1) := rfl

theorem lexemeAt_digit {c : Char} (hd : c.isDigit = true) (cs : List Char) : lexemeAt (c :: cs) =
    (numberMeaning ((c :: cs).take (numberLength (c :: cs))), numberLength (c :: cs)) := by
  have hq : c ≠ '"' := by
    rintro rfl
    revert hd
    decide
  rw [lexemeAt, if_neg hq, if_pos hd]

/-- A name does not start with a digit. -/
theorem not_isDigit_of_isNameStart {c : Char} (hs : isNameStart c = true) : ¬ c.isDigit = true := by
  intro hd
  simp only [isNameStart, Char.isAlpha, Char.isUpper, Char.isLower, Char.isDigit, Bool.or_eq_true,
    Bool.and_eq_true, decide_eq_true_eq, beq_iff_eq, UInt32.le_iff_toNat_le, ge_iff_le] at hs hd
  rcases hs with (hs | hs) | rfl
  · simp at hs hd; omega
  · simp at hs hd; omega
  · revert hd; decide

theorem lexemeAt_nameStart {c : Char} (hs : isNameStart c = true) (cs : List Char) :
    lexemeAt (c :: cs) =
    (.ok (nameMeaning ((c :: cs).take (nameLength (c :: cs)))), nameLength (c :: cs)) := by
  have hq : c ≠ '"' := by
    rintro rfl
    revert hs
    decide
  rw [lexemeAt, if_neg hq, if_neg (not_isDigit_of_isNameStart hs), if_pos hs]

theorem lexemeAt_other {c : Char} (hq : c ≠ '"') (hd : ¬ c.isDigit = true) (hs : ¬ isNameStart c = true)
    (cs : List Char) : lexemeAt (c :: cs) =
      match Mark.signAt? (c :: cs) with
      | some m => (.ok (.mark m), m.spelling.toList.length)
      | none => (.error (.unexpected (some c)), 1) := by
  rw [lexemeAt, if_neg hq, if_neg hd, if_neg hs]

/-- The item of a lexeme: its text, and where it begins. -/
def itemOf (p : Place) (text : List Char) : Except ScanError.Cause Meaning → Item
  | .ok m => .ok ⟨m, p, String.ofList text⟩
  | .error cause => .error ⟨cause, p, String.ofList text⟩

/-- Taking a lexeme is a function of the text that is left and of where that begins. -/
theorem scanToken_eq (c : Cursor) : c.scanToken =
    (itemOf c.here (c.rest.take (lexemeAt c.rest).2) (lexemeAt c.rest).1,
      c.begin.advance (lexemeAt c.rest).2) := by
  unfold Cursor.scanToken
  simp only [Cursor.begin_rest]
  cases hr : c.rest with
  | nil =>
      have hnone : Mark.signAt? [] = none := by decide
      simp [Cursor.scanSign, hnone, lexemeAt, hr, itemOf, Cursor.fault]
  | cons ch cs =>
      simp only [lexemeAt]
      split
      · unfold Cursor.scanString
        simp only [Cursor.begin_rest, hr]
        split <;> simp [Cursor.emit, Cursor.fault, itemOf, hr]
      split
      · simp only [Cursor.scanNumber, Cursor.numberItem, numberMeaning, Cursor.begin_rest, hr,
          Cursor.lexeme_advance_begin]
        cases Number.read? ((ch :: cs).take (numberLength (ch :: cs))) with
        | none => simp [Cursor.fault, itemOf, hr]
        | some v =>
            by_cases hv : Number.isInfinite v <;> simp [Cursor.fault, Cursor.emit, itemOf, hr, hv]
      split
      · simp only [Cursor.scanName, Cursor.nameItem, nameMeaning, Cursor.begin_rest, hr,
          Cursor.lexeme_advance_begin]
        cases Mark.word? (String.ofList ((ch :: cs).take (nameLength (ch :: cs)))) with
        | none => simp [Cursor.emit, itemOf, hr]
        | some m => simp [Cursor.emit, itemOf, hr]
      · unfold Cursor.scanSign
        simp only [Cursor.begin_rest, hr]
        cases Mark.signAt? (ch :: cs) with
        | none => simp [Cursor.fault, itemOf, hr]
        | some m => simp [Cursor.emit, itemOf, hr]

/-- A lexeme takes up some of the text. -/
theorem lexemeAt_pos (cs : List Char) : 0 < (lexemeAt cs).2 := by
  cases cs with
  | nil => exact Nat.one_pos
  | cons c cs =>
      have hlt := Cursor.scanToken_rest_lt (c := ⟨c :: cs, c :: cs, .origin, .origin, []⟩) (by simp)
      rw [scanToken_eq] at hlt
      simp only [Cursor.advance_rest, Cursor.begin_rest, List.length_drop] at hlt
      omega

/-! ## The items of the text that is left -/

/-- The items of a text that begins at a place. -/
def itemsFrom (cs : List Char) (p : Place) : List Item := (Cursor.drain ⟨cs, cs, p, p, []⟩).1

theorem drain_items_eq (c : Cursor) : c.drain.1 =
    if c.skipLayout.rest = [] then []
    else c.skipLayout.scanToken.1 :: c.skipLayout.scanToken.2.drain.1 := by
  rw [Cursor.drain]
  split <;> rfl

/-- What a cursor has left depends on the rest of its text only. -/
theorem drain_items (c : Cursor) : c.drain.1 = itemsFrom c.rest c.here := by
  suffices h : ∀ (n : Nat) (c d : Cursor), c.rest.length ≤ n → c.rest = d.rest → c.here = d.here →
      c.drain.1 = d.drain.1 from h c.rest.length c _ (Nat.le_refl _) rfl rfl
  intro n
  induction n with
  | zero =>
      intro c d hn hrest hhere
      have hc : c.rest = [] := List.length_eq_zero_iff.mp (Nat.le_zero.mp hn)
      have hd : d.rest = [] := by rw [← hrest, hc]
      rw [drain_items_eq c, drain_items_eq d]
      simp [Cursor.skipLayout, hc, hd]
  | succ n ih =>
      intro c d hn hrest hhere
      have hskip : c.skipLayout.rest = d.skipLayout.rest := by simp [Cursor.skipLayout, hrest]
      have hplace : c.skipLayout.here = d.skipLayout.here := by simp [Cursor.skipLayout, hrest, hhere]
      rw [drain_items_eq c, drain_items_eq d]
      by_cases hend : c.skipLayout.rest = []
      · rw [if_pos hend, if_pos (hskip ▸ hend)]
      · rw [if_neg hend, if_neg (hskip ▸ hend)]
        have hlt := Cursor.scanToken_rest_lt hend
        have hle : c.skipLayout.rest.length ≤ c.rest.length := by simp [Cursor.skipLayout]
        have hmore := ih c.skipLayout.scanToken.2 d.skipLayout.scanToken.2 (by omega)
          (by simp [scanToken_eq, hskip]) (by simp [scanToken_eq, hskip, hplace])
        rw [hmore]
        simp only [scanToken_eq, hskip, hplace]

theorem scan_eq (s : String) : scan s = itemsFrom s.toList .origin := rfl

/-- The layout at the head of a text is skipped, then a lexeme is taken. -/
theorem itemsFrom_step (cs : List Char) (p : Place) : itemsFrom cs p =
    let rest := cs.drop (layoutLength false cs)
    let q := p.after (cs.take (layoutLength false cs))
    let n := (lexemeAt rest).2
    if rest = [] then []
    else itemOf q (rest.take n) (lexemeAt rest).1 :: itemsFrom (rest.drop n)
      (q.after (rest.take n)) := by
  unfold itemsFrom
  rw [drain_items_eq]
  simp only [drain_items, scanToken_eq]
  simp [Cursor.skipLayout]

@[simp] theorem itemsFrom_nil (p : Place) : itemsFrom [] p = [] := by
  rw [itemsFrom_step]
  simp

theorem layoutLength_blank {c : Char} (hc : isLayoutBlank c = true) (cs : List Char) :
    layoutLength false (c :: cs) = 1 + layoutLength false cs := by
  have hslash : c ≠ '/' := by
    rintro rfl
    revert hc
    decide
  rw [layoutLength.eq_def]
  split <;> simp_all

/-- A comment reaches to the end of its line. -/
theorem layoutLength_comment (cs : List Char) : layoutLength true cs =
    (cs.takeWhile (· != '\n')).length + layoutLength false (cs.dropWhile (· != '\n')) := by
  induction cs with
  | nil => rfl
  | cons c cs ih =>
      by_cases hc : c = '\n'
      · subst hc
        rw [layoutLength, List.takeWhile_cons, List.dropWhile_cons]
        simp [layoutLength_blank (show isLayoutBlank '\n' = true by decide)]
      · rw [layoutLength.eq_3 _ _ (by simpa using hc), ih, List.takeWhile_cons, List.dropWhile_cons]
        simp [hc]
        omega

/-- A text has no layout at its head if it starts with neither a blank nor a comment. -/
theorem layoutLength_eq_zero {c : Char} {cs : List Char} : layoutLength false (c :: cs) = 0 ↔
    isLayoutBlank c = false ∧ ['/', '/'].isPrefixOf (c :: cs) = false := by
  constructor
  · intro h
    constructor
    · cases hc : isLayoutBlank c with
      | false => rfl
      | true =>
          have := layoutLength_blank hc cs
          omega
    · cases hp : ['/', '/'].isPrefixOf (c :: cs) with
      | false => rfl
      | true =>
          obtain ⟨ds, hds⟩ := List.isPrefixOf_iff_prefix.mp hp
          rw [← hds] at h
          simp [layoutLength] at h
  · rintro ⟨hblank, hcomment⟩
    unfold layoutLength
    split
    · rfl
    · contradiction
    · contradiction
    · rename_i ds h
      rw [h] at hcomment
      cases hcomment
    · rename_i h
      cases h
      rw [hblank]
      rfl

/-- Layout may be skipped in pieces. -/
theorem itemsFrom_append {ds cs : List Char}
    (h : layoutLength false (ds ++ cs) = ds.length + layoutLength false cs) (p : Place) :
    itemsFrom (ds ++ cs) p = itemsFrom cs (p.after ds) := by
  rw [itemsFrom_step, itemsFrom_step cs, h, List.drop_length_add_append, List.take_length_add_append,
    Place.after_append]

theorem itemsFrom_blank {c : Char} (hc : isLayoutBlank c = true) (cs : List Char) (p : Place) :
    itemsFrom (c :: cs) p = itemsFrom cs (p.step c) := by
  show itemsFrom ([c] ++ cs) p = itemsFrom cs (p.after [c])
  exact itemsFrom_append (layoutLength_blank hc cs) p

theorem itemsFrom_comment (cs : List Char) (p : Place) : itemsFrom ('/' :: '/' :: cs) p =
    itemsFrom (cs.dropWhile (· != '\n')) (p.after ('/' :: '/' :: cs.takeWhile (· != '\n'))) := by
  have htext : '/' :: '/' :: cs = ('/' :: '/' :: cs.takeWhile (· != '\n')) ++
      cs.dropWhile (· != '\n') := by
    rw [List.cons_append, List.cons_append, List.takeWhile_append_dropWhile]
  have hlen : layoutLength false ('/' :: '/' :: cs) = ('/' :: '/' :: cs.takeWhile (· != '\n')).length +
      layoutLength false (cs.dropWhile (· != '\n')) := by
    rw [layoutLength, layoutLength_comment]
    simp only [List.length_cons]
    omega
  rw [htext] at hlen ⊢
  exact itemsFrom_append hlen p

/-- A text that does not begin with layout begins with a lexeme. -/
theorem itemsFrom_lexeme {cs : List Char} (hne : cs ≠ []) (hlayout : layoutLength false cs = 0)
    (p : Place) :
    itemsFrom cs p = itemOf p (cs.take (lexemeAt cs).2) (lexemeAt cs).1 ::
      itemsFrom (cs.drop (lexemeAt cs).2) (p.after (cs.take (lexemeAt cs).2)) := by
  rw [itemsFrom_step]
  simp [hlayout, hne]

/-- Induction along a text: what holds of the empty text, and of a text if it holds behind the
blank, the comment or the lexeme that the text begins with, holds of every text. -/
theorem text_induction {motive : List Char → Place → Prop} (nil : ∀ p, motive [] p)
    (blank : ∀ c cs p, isLayoutBlank c = true → motive cs (p.step c) → motive (c :: cs) p)
    (comment : ∀ cs p, motive (cs.dropWhile (· != '\n'))
      (p.after ('/' :: '/' :: cs.takeWhile (· != '\n'))) → motive ('/' :: '/' :: cs) p)
    (lexeme : ∀ cs p, cs ≠ [] → layoutLength false cs = 0 →
      motive (cs.drop (lexemeAt cs).2) (p.after (cs.take (lexemeAt cs).2)) → motive cs p) :
    ∀ cs p, motive cs p := by
  intro cs p
  induction hn : cs.length using Nat.strongRecOn generalizing cs p with
  | ind n ih =>
      subst hn
      by_cases hlayout : layoutLength false cs = 0
      · by_cases hne : cs = []
        · subst hne; exact nil p
        · refine lexeme cs p hne hlayout (ih _ ?_ _ _ rfl)
          have hpos := lexemeAt_pos cs
          have hlen := List.length_pos_iff.mpr hne
          simp only [List.length_drop]
          omega
      · rw [layoutLength.eq_def] at hlayout
        split at hlayout
        · exact absurd rfl hlayout
        · contradiction
        · contradiction
        · rename_i ds _
          refine comment ds p (ih _ ?_ _ _ rfl)
          have := (List.dropWhile_sublist (· != '\n') (l := ds)).length_le
          simp only [List.length_cons]
          omega
        · rename_i c cs _ _
          split at hlayout
          · rename_i hc
            exact blank c cs p hc (ih _ (by simp) _ _ rfl)
          · exact absurd rfl hlayout

/-! ## Tokens that spell what they stand for -/

/-- The text of the token spells what it stands for. -/
def Token.Genuine (t : Token) : Prop :=
  match t.meaning with
  | .mark _ => True
  | .identifier s => t.lexeme = s
  | .string s => String.ofList t.lexeme.toList.tail.dropLast = s
  | .number v => Number.read? t.lexeme.toList = some v ∧ Number.isInfinite v = false
  | .endOfInput => False

theorem Token.Genuine.isEnd_eq_false {t : Token} (h : t.Genuine) : t.isEnd = false := by
  obtain ⟨m, place, lexeme⟩ := t
  cases m with
  | endOfInput => exact h.elim
  | mark _ | identifier _ | string _ | number _ => rfl

theorem genuine_lexemeAt {cs : List Char} {m : Meaning} (h : (lexemeAt cs).1 = .ok m) (p : Place) :
    Token.Genuine ⟨m, p, String.ofList (cs.take (lexemeAt cs).2)⟩ := by
  cases cs with
  | nil => cases h
  | cons c cs =>
      by_cases hq : c = '"'
      · subst hq
        rw [lexemeAt_quote] at h ⊢
        split at h
        · rename_i hterm
          rw [if_pos hterm, ← Except.ok.inj h]
          simp [Token.Genuine]
        · cases h
      by_cases hd : c.isDigit = true
      · rw [lexemeAt_digit hd] at h ⊢
        simp only [numberMeaning] at h
        split at h
        · rename_i v hv
          split at h
          · cases h
          · rename_i hfinite
            rw [← Except.ok.inj h]
            exact ⟨by simpa using hv, by simpa using hfinite⟩
        · cases h
      by_cases hs : isNameStart c = true
      · rw [lexemeAt_nameStart hs] at h ⊢
        rw [← Except.ok.inj h]
        unfold nameMeaning
        split
        · trivial
        · rfl
      · rw [lexemeAt_other hq hd hs] at h ⊢
        split at h
        · rw [← Except.ok.inj h]
          trivial
        · cases h

/-- Scanning yields tokens whose text spells what they stand for. -/
theorem genuine_of_mem_itemsFrom {t : Token} : ∀ cs p, .ok t ∈ itemsFrom cs p → t.Genuine := by
  refine text_induction ?_ ?_ ?_ ?_
  · intro p h
    simp at h
  · intro c cs p hc ih h
    rw [itemsFrom_blank hc] at h
    exact ih h
  · intro cs p ih h
    rw [itemsFrom_comment] at h
    exact ih h
  · intro cs p hne hlayout ih h
    rw [itemsFrom_lexeme hne hlayout] at h
    rcases List.mem_cons.mp h with h | h
    · cases hm : (lexemeAt cs).1 with
      | error cause => rw [hm] at h; cases h
      | ok m =>
          rw [hm] at h
          rw [Except.ok.inj h]
          exact genuine_lexemeAt hm p
    · exact ih h

end Lox
