import Lox.Grammar.Terminal
import Lox.Proofs.Scan.Items
/-!
# `Grammar.Match` — which pattern fits at the head of a text

The patterns of the grammar are tried in turn. This file says which one fits, by what the text
begins with, and that it takes as much as scanning would take: a comment up to the end of the line,
a name, a number, a string, or the longest sign. The blanks of the grammar are those of the layout
and the form feed, and the signs are those of the language but for braces, the comma and the point.
-/
namespace Lox.Grammar

/-! ## Characters -/

theorem digit_eq : digit = Char.isDigit := by
  funext c
  rw [digit, Char.isDigit]
  rfl

theorem nameHead_eq (c : Char) : nameHead c = isNameStart c := by
  rw [nameHead, isNameStart, Char.isAlpha, Char.isUpper, Char.isLower, Bool.decide_and]
  rfl

theorem nameTail_eq : nameTail = isNameChar := rfl

theorem blank_eq (c : Char) : blank c = (isLayoutBlank c || c == '\x0c') := by
  rw [blank, isLayoutBlank]
  cases c == '\x0c' with
  | true => simp
  | false => simp

/-! ## Patterns -/

theorem length?_seq_one (f : Char → Bool) (b : Pattern) (c : Char) (cs : List Char) :
    (Pattern.seq (.one f) b).length? (c :: cs) = if f c then (b.length? cs).map (1 + ·) else none := by
  cases h : f c with
  | false => simp [Pattern.length?, h]
  | true =>
      simp only [Pattern.length?, h, if_true, Option.bind_eq_bind, Option.bind_some,
        List.drop_succ_cons, List.drop_zero]
      cases b.length? cs <;> rfl

theorem length?_some (f : Char → Bool) (cs : List Char) : (Pattern.some f).length? cs =
    if (cs.takeWhile f).length = 0 then none else some (cs.takeWhile f).length := by
  rw [Pattern.some]
  cases cs with
  | nil => rfl
  | cons c cs =>
      rw [length?_seq_one, List.takeWhile_cons]
      cases f c with
      | false => rfl
      | true => simp [Pattern.length?, Nat.add_comm]

theorem length?_word {w : List Char} (hw : w ≠ []) (cs : List Char) :
    (Pattern.word w).length? cs = if w.isPrefixOf cs then some w.length else none := by
  induction w generalizing cs with
  | nil => exact absurd rfl hw
  | cons a w ih =>
      cases cs with
      | nil => cases w <;> rfl
      | cons b cs =>
          cases w with
          | nil =>
              rw [Pattern.word, Pattern.length?, List.isPrefixOf_cons_cons, BEq.comm,
                List.isPrefixOf_nil_left, Bool.and_true]
              rfl
          | cons a' w =>
              rw [Pattern.word, length?_seq_one, List.isPrefixOf_cons_cons, BEq.comm, ih (by simp)]
              · cases a == b with
                | false => rfl
                | true =>
                    rw [if_pos rfl, Bool.true_and]
                    split
                    · simp [Nat.add_comm]
                    · rfl
              · simp

/-! ## The patterns of the grammar -/

def commentPattern : Pattern := .seq (.word ['/', '/']) (.many (· != '\n'))

def namePattern : Pattern := .seq (.one nameHead) (.many nameTail)

def numberPattern : Pattern := .seq (.some digit) (.optional (.seq (.one (· == '.')) (.some digit)))

def stringPattern : Pattern := .seq (.one (· == '"')) (.seq (.many (· != '"')) (.one (· == '"')))

def fixedMarks : List Mark :=
  [.equal, .notEqual, .lessEqual, .greaterEqual, .bang, .leftParen, .rightParen, .star, .plus,
    .minus, .slash, .semicolon,
    .less, .assign, .greater]

/-- The patterns are tried in this order. -/
theorem match?_eq (cs : List Char) : match? cs = ((commentPattern.length? cs).map (Role.ignored, ·)).or
    (((namePattern.length? cs).map (Role.name, ·)).or
      (((numberPattern.length? cs).map (.terminal .number, ·)).or
    (((stringPattern.length? cs).map (.terminal .string, ·)).or
      ((((Pattern.some blank).length? cs).map (.ignored, ·)).or
    (fixedMarks.findSome? fun m => ((Pattern.word m.spelling.toList).length? cs).map
      (.terminal (.mark m), ·)))))) := by
  have hpatterns : patterns = [(.ignored, commentPattern), (.name, namePattern),
    (.terminal .number, numberPattern),
      (.terminal .string, stringPattern), (.ignored, .some blank)] ++ fixedMarks.map fixed := rfl
  have hmatch : match? cs = patterns.findSome? fun a => (a.2.length? cs).map (a.1, ·) := rfl
  have hcons : ∀ (a : Role × Pattern) l, (a :: l).findSome? (fun a => (a.2.length? cs).map (a.1, ·)) =
      ((a.2.length? cs).map (a.1, ·)).or (l.findSome? fun a => (a.2.length? cs).map (a.1, ·)) := by
    intro a l
    rw [List.findSome?_cons]
    cases a.2.length? cs <;> rfl
  simp only [hmatch, hpatterns, List.cons_append, List.nil_append, hcons, List.findSome?_map,
    Function.comp_def, fixed]

theorem comment_length? {cs : List Char} (h : ['/', '/'].isPrefixOf cs = false) :
    commentPattern.length? cs = none := by
  rw [commentPattern, Pattern.length?, length?_word (by simp), h]
  rfl

theorem name_length? (c : Char) (cs : List Char) : namePattern.length? (c :: cs) =
    if isNameStart c then some (nameLength (c :: cs)) else none := by
  rw [namePattern, length?_seq_one, nameHead_eq, nameTail_eq, nameLength]
  split
  · rename_i hc
    rw [List.takeWhile_cons_of_pos (Cursor.isNameChar_of_isNameStart hc), List.length_cons,
      Nat.add_comm]
    rfl
  · rfl

/-- The point belongs to a number only if a digit follows it. -/
theorem number_length? (c : Char) (cs : List Char) : numberPattern.length? (c :: cs) =
    if c.isDigit then some (numberLength (c :: cs)) else none := by
  rw [numberPattern, Pattern.length?, length?_some, digit_eq, numberLength]
  cases hc : c.isDigit with
  | false =>
      rw [List.takeWhile_cons_of_neg (by simp [hc])]
      rfl
  | true =>
      have hpos : ((c :: cs).takeWhile Char.isDigit).length ≠ 0 := by
        rw [List.takeWhile_cons_of_pos hc]
        exact Nat.succ_ne_zero _
      rw [if_neg hpos, Option.bind_eq_bind, Option.bind_some, digitsLength, drop_takeWhile,
        Pattern.length?, if_pos rfl]
      cases (c :: cs).dropWhile Char.isDigit with
      | nil => rfl
      | cons d ds =>
          rw [length?_seq_one, length?_some]
          by_cases hd : d = '.'
          · subst hd
            by_cases hds : (ds.takeWhile Char.isDigit).length = 0
            · simp [digitsLength, hds]
            · simp [digitsLength, hds]
          · simp [hd]

theorem isTerminated_cons (c : Char) (cs : List Char) :
    isTerminated (c :: cs) = !(cs.dropWhile (· != '"')).isEmpty := by
  show cs.contains '"' = _
  induction cs with
  | nil => rfl
  | cons d cs ih =>
      rw [List.contains_cons, ih, List.dropWhile_cons]
      by_cases hd : d = '"'
      · subst hd
        rfl
      · have hne : ('"' == d) = false := by simpa using Ne.symm hd
        rw [hne, if_pos (by simpa using hd)]
        rfl

theorem string_length? (c : Char) (cs : List Char) : stringPattern.length? (c :: cs) =
    if c == '"' then if isTerminated (c :: cs) then some (contentsLength (c :: cs) + 2) else none
      else none := by
  rw [stringPattern, length?_seq_one, isTerminated_cons]
  congr 1
  rw [Pattern.length?, Pattern.length?, Option.bind_eq_bind, Option.bind_some, drop_takeWhile]
  cases hd : cs.dropWhile (· != '"') with
  | nil => rfl
  | cons d ds =>
      have hquote := List.head?_dropWhile_not (· != '"') cs
      rw [hd] at hquote
      obtain rfl : d = '"' := by simpa using hquote
      simp only [Pattern.length?, contentsLength, List.tail_cons, beq_self_eq_true, if_true,
        Option.bind_some, List.isEmpty_cons, Bool.not_false]
      show some (1 + ((cs.takeWhile (· != '"')).length + 1)) = _
      congr 1
      omega

theorem blank_length? {c : Char} (hc : blank c = false) (cs : List Char) :
    (Pattern.some blank).length? (c :: cs) = none := by
  rw [length?_some, List.takeWhile_cons_of_neg (by simp [hc])]
  rfl

/-! ## Signs -/

/-- Is there a terminal for the mark? -/
def hasTerminal : Mark → Bool
  | .leftBrace | .rightBrace | .comma | .dot => false
  | _ => true

/-- The characters that begin signs, those that also begin a longer one first. -/
def signHeads : List Char :=
  ['=', '!', '<', '>'] ++ ['+', '-', '*', '/', '(', ')', '\x7b', '\x7d', '.', ',', ';']

theorem isPrefixOf_of_not_mem {m : Mark} {c : Char} (hm : m ∈ Mark.signs) (hc : c ∉ signHeads)
    (cs : List Char) :
    m.spelling.toList.isPrefixOf (c :: cs) = false := by
  have hheads : ∀ m ∈ Mark.signs, m.spelling.toList.head? ∈ signHeads.map some := by decide
  have hhead := hheads m hm
  cases hspelling : m.spelling.toList with
  | nil => rw [hspelling] at hhead; simp at hhead
  | cons d ds =>
      rw [hspelling] at hhead
      have hne : (d == c) = false := by
        rw [beq_eq_false_iff_ne]
        rintro rfl
        exact hc (by simpa using hhead)
      rw [List.isPrefixOf_cons_cons, hne, Bool.false_and]

/-- The first fixed terminal that fits is the longest sign, if there is a terminal for it. -/
theorem find?_fixedMarks (cs : List Char) :
    fixedMarks.find? (·.spelling.toList.isPrefixOf cs) = (Mark.signAt? cs).filter hasTerminal := by
  cases cs with
  | nil => rfl
  | cons c cs =>
      by_cases hc : c ∈ signHeads
      · rcases List.mem_append.mp hc with hc | hc
        · simp only [List.mem_cons, List.not_mem_nil, or_false] at hc
          -- Only the character behind it tells which of two signs it is.
          cases cs with
          | nil => rcases hc with rfl | rfl | rfl | rfl <;> rfl
          | cons d cs =>
              by_cases hd : d = '='
              · subst hd
                rcases hc with rfl | rfl | rfl | rfl <;> rfl
              · have hne : ('=' == d) = false := by simpa using Ne.symm hd
                rcases hc with rfl | rfl | rfl | rfl <;>
                  simp [Mark.signAt?, Mark.signs, fixedMarks, Mark.spelling, List.find?,
                    List.isPrefixOf_cons_cons, hne, Option.filter, hasTerminal]
        · simp only [List.mem_cons, List.not_mem_nil, or_false] at hc
          rcases hc with rfl | rfl | rfl | rfl | rfl | rfl | rfl | rfl | rfl | rfl | rfl <;> rfl
      · have hsigns : Mark.signAt? (c :: cs) = none := by
          refine List.find?_eq_none.mpr fun m hm => ?_
          rw [isPrefixOf_of_not_mem hm hc]
          decide
        rw [hsigns, Option.filter_none, List.find?_eq_none]
        intro m hm
        have hsigns : ∀ m ∈ fixedMarks, m ∈ Mark.signs := by decide
        rw [isPrefixOf_of_not_mem (hsigns m hm) hc]
        decide

theorem findSome?_fixedMarks (cs : List Char) :
    (fixedMarks.findSome? fun m => ((Pattern.word m.spelling.toList).length? cs).map
      (Role.terminal (.mark m), ·)) =
      ((Mark.signAt? cs).filter hasTerminal).map fun m =>
        (.terminal (.mark m), m.spelling.toList.length) := by
  rw [← find?_fixedMarks]
  have hspelled : ∀ m ∈ fixedMarks, m.spelling.toList ≠ [] := by decide
  generalize fixedMarks = ms at hspelled ⊢
  induction ms with
  | nil => rfl
  | cons m ms ih =>
      rw [List.findSome?_cons, List.find?_cons, length?_word (hspelled m List.mem_cons_self)]
      cases m.spelling.toList.isPrefixOf cs with
      | true => rfl
      | false => exact ih fun m hm => hspelled m (List.mem_cons_of_mem _ hm)

/-! ## What fits, by what the text begins with -/

theorem match?_blank {c : Char} (hc : blank c = true) (cs : List Char) :
    match? (c :: cs) = some (.ignored, (cs.takeWhile blank).length + 1) := by
  have hcases : c = ' ' ∨ c = '\t' ∨ c = '\x0c' ∨ c = '\r' ∨ c = '\n' := by
    simpa [blank, or_assoc] using hc
  rw [Nat.add_comm]
  rcases hcases with rfl | rfl | rfl | rfl | rfl <;> rfl

theorem match?_comment (cs : List Char) :
    match? ('/' :: '/' :: cs) = some (.ignored, (cs.takeWhile (· != '\n')).length + 1 + 1) := by
  rw [Nat.add_assoc, Nat.add_comm]
  rfl

theorem isPrefixOf_slash {c : Char} (hc : c ≠ '/') (cs : List Char) :
    ['/', '/'].isPrefixOf (c :: cs) = false := by
  have hne : ('/' == c) = false := by simpa using Ne.symm hc
  rw [List.isPrefixOf_cons_cons, hne, Bool.false_and]

theorem match?_name {c : Char} (hc : isNameStart c = true) (cs : List Char) :
    match? (c :: cs) = some (.name, nameLength (c :: cs)) := by
  have hslash : c ≠ '/' := by
    rintro rfl
    revert hc
    decide
  rw [match?_eq, comment_length? (isPrefixOf_slash hslash cs), name_length?, if_pos hc]
  rfl

theorem match?_digit {c : Char} (hc : c.isDigit = true) (cs : List Char) :
    match? (c :: cs) = some (.terminal .number, numberLength (c :: cs)) := by
  have hslash : c ≠ '/' := by
    rintro rfl
    revert hc
    decide
  have hname : ¬ isNameStart c = true := fun hs => not_isDigit_of_isNameStart hs hc
  rw [match?_eq, comment_length? (isPrefixOf_slash hslash cs), name_length?, if_neg hname,
    number_length?, if_pos hc]
  rfl

theorem match?_quote (cs : List Char) : match? ('"' :: cs) =
    if isTerminated ('"' :: cs) then some (.terminal .string, contentsLength ('"' :: cs) + 2)
      else none := by
  rw [match?_eq, comment_length? (isPrefixOf_slash (by decide) cs), name_length?,
    if_neg (by decide), number_length?,
    if_neg (by decide), string_length?, if_pos (by decide), blank_length? (by decide),
    findSome?_fixedMarks]
  have hsign : Mark.signAt? ('"' :: cs) = none := rfl
  rw [hsign]
  split <;> rfl

theorem match?_sign {c : Char} (hquote : c ≠ '"') (hdigit : ¬ c.isDigit = true)
    (hname : ¬ isNameStart c = true) (hblank : blank c = false) {cs : List Char}
    (hcomment : ['/', '/'].isPrefixOf (c :: cs) = false) :
    match? (c :: cs) =
      ((Mark.signAt? (c :: cs)).filter hasTerminal).map fun m =>
        (.terminal (.mark m), m.spelling.toList.length) := by
  rw [match?_eq, comment_length? hcomment, name_length?, if_neg hname, number_length?,
    if_neg hdigit, string_length?,
    if_neg (by simpa using hquote), blank_length? hblank, findSome?_fixedMarks]
  rfl

end Lox.Grammar
