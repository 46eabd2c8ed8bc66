import Lox.Cursor
import Lox.Diagnostic
import Lox.Number.Numeral
import Lox.Text.Alphanumeric
import Lox.Token
/-!
# `Scan` — reading tokens off a text

Layout (blanks and `//` comments) is skipped, then the longest lexeme is taken: a string up to its
closing quote, a number, a name or reserved word, or a sign. Text that is none of these is a fault.
A fault is an item like any other, and scanning goes on behind it.
-/
namespace Lox

/-! ## Faults -/

/-- Why a piece of text is no token. -/
inductive ScanError.Cause where
  /-- A character that begins no lexeme, or nothing at all. -/
  | unexpected (c : Option Char)
  /-- A string without a closing quote. -/
  | unterminatedString
  /-- A numeral without a finite value. -/
  | invalidNumber
  deriving DecidableEq, Repr

/-- A piece of text that is no token: why, where it starts, and the piece. -/
structure ScanError where
  cause : ScanError.Cause
  place : Place
  lexeme : String
  deriving DecidableEq, Repr

namespace ScanError

/-- The kind of fault. -/
def tag (e : ScanError) : Tag :=
  match e.cause with
  | .unexpected _ => .unexpectedChar
  | .unterminatedString => .unterminatedString
  | .invalidNumber => .invalidNumber

/-- What is said about a fault. -/
def text (e : ScanError) : String :=
  match e.cause with
  | .unexpected c => "Unexpected " ++ Text.display (String.ofList c.toList)
  | .unterminatedString => "string starting here is not terminated"
  | .invalidNumber => Text.display e.lexeme ++ " is an invalid number"

/-- The fault, ready to be written. -/
def diagnostic (e : ScanError) : Diagnostic := ⟨e.tag, e.text, some e.place.row, some e.place.col⟩

/-- The line that is shown for a fault. -/
def message (e : ScanError) : String := e.diagnostic.message

end ScanError

/-- What scanning yields: a token or a fault. -/
abbrev Item := Except ScanError Token

/-! ## How much to take -/

/-- Is the character a blank between tokens? -/
def isLayoutBlank (c : Char) : Bool := c == ' ' || c == '\t' || c == '\r' || c == '\n'

/-- The length of the layout at the head of a text, of which `inComment` tells whether it continues
a comment. A comment ends before the line feed. -/
def layoutLength : (inComment : Bool) → List Char → Nat
  | _, [] => 0
  | true, '\n' :: cs => 1 + layoutLength false cs
  | true, _ :: cs => 1 + layoutLength true cs
  | false, '/' :: '/' :: cs => 2 + layoutLength true cs
  | false, c :: cs => if isLayoutBlank c then 1 + layoutLength false cs else 0

/-- The length of what is left of a line. -/
def lineLength (cs : List Char) : Nat := (cs.takeWhile (· != '\n')).length

/-- The length of the digits at the head of a text. -/
def digitsLength (cs : List Char) : Nat := (cs.takeWhile Char.isDigit).length

/-- The length of the number at the head of a text. A point belongs to it only if a digit
follows. -/
def numberLength (cs : List Char) : Nat :=
  digitsLength cs +
    match cs.dropWhile Char.isDigit with
    | '.' :: ds => if digitsLength ds = 0 then 0 else 1 + digitsLength ds
    | _ => 0

/-- May a name start with the character? -/
def isNameStart (c : Char) : Bool := c.isAlpha || c == '_'

/-- May the character stand in a name? -/
def isNameChar (c : Char) : Bool := Text.isAlphanumeric c || c == '_'

/-- The length of the name at the head of a text. -/
def nameLength (cs : List Char) : Nat := (cs.takeWhile isNameChar).length

/-- The length of the contents of a string, of which a text starts with the opening quote. -/
def contentsLength (cs : List Char) : Nat := (cs.tail.takeWhile (· != '"')).length

/-- Does a string, of which a text starts with the opening quote, have a closing one? -/
def isTerminated (cs : List Char) : Bool := cs.tail.contains '"'

/-! ## Scanning one lexeme -/

namespace Cursor

/-- Skips blanks and comments. -/
def skipLayout (c : Cursor) : Cursor := c.advance (layoutLength false c.rest)

/-- Skips what is left of the line. -/
def skipLine (c : Cursor) : Cursor := c.advance (lineLength c.rest)

/-- The token that ends at the cursor. -/
def emit (c : Cursor) (m : Meaning) : Item := .ok ⟨m, c.start, String.ofList c.lexeme⟩

/-- The fault that ends at the cursor. -/
def fault (c : Cursor) (cause : ScanError.Cause) : Item :=
  .error ⟨cause, c.start, String.ofList c.lexeme⟩

/-- Takes a string. Its contents are everything between the quotes, line feeds included. -/
def scanString (c : Cursor) : Item × Cursor :=
  if isTerminated c.rest then
    let d := c.advance (contentsLength c.rest + 2)
    (d.emit (.string (String.ofList d.lexeme.tail.dropLast)), d)
  else
    let d := c.advance (contentsLength c.rest + 1)
    (d.fault .unterminatedString, d)

/-- The lexeme as a number. One that is too large for a double is a fault. -/
def numberItem (c : Cursor) : Item :=
  match Number.read? c.lexeme with
  | some v => if Number.isInfinite v then c.fault .invalidNumber else c.emit (.number v)
  | none => c.fault .invalidNumber

/-- Takes a number. -/
def scanNumber (c : Cursor) : Item × Cursor :=
  let d := c.advance (numberLength c.rest)
  (d.numberItem, d)

/-- The lexeme as a reserved word, or else as a name. -/
def nameItem (c : Cursor) : Item :=
  match Mark.word? (String.ofList c.lexeme) with
  | some m => c.emit (.mark m)
  | none => c.emit (.identifier (String.ofList c.lexeme))

/-- Takes a name or a reserved word. -/
def scanName (c : Cursor) : Item × Cursor :=
  let d := c.advance (nameLength c.rest)
  (d.nameItem, d)

/-- Takes a sign. -/
def scanSign (c : Cursor) : Item × Cursor :=
  match Mark.signAt? c.rest with
  | some m =>
    let d := c.advance m.spelling.toList.length
    (d.emit (.mark m), d)
  | none =>
    let d := c.advance 1
    (d.fault (.unexpected c.rest.head?), d)

/-- Takes the lexeme that starts at the cursor. -/
def scanToken (c : Cursor) : Item × Cursor :=
  let b := c.begin
  match b.rest with
  | [] => b.scanSign
  | ch :: _ =>
    if ch = '"' then b.scanString
    else if ch.isDigit then b.scanNumber
    else if isNameStart ch then b.scanName
    else b.scanSign

/-! ## Scanning a text -/

/-- A name is not empty if it starts as one. -/
theorem isNameChar_of_isNameStart {c : Char} (h : isNameStart c = true) : isNameChar c = true := by
  simp only [isNameStart, Bool.or_eq_true, beq_iff_eq] at h
  rcases h with h | h
  · have hc : c.toNat < 128 := by
      have h : (decide (65 ≤ c.val ∧ c.val ≤ 90) || (decide (97 ≤ c.val) && decide (c.val ≤ 122))) =
          true := h
      simp only [Bool.or_eq_true, Bool.and_eq_true, decide_eq_true_eq, UInt32.le_iff_toNat_le] at h
      have : c.toNat = c.val.toNat := rfl
      rcases h with h | h <;> simp at h <;> omega
    simp [isNameChar, Text.isAlphanumeric_ascii hc, Char.isAlphanum, h]
  · simp [isNameChar, h]

/-- Something is taken unless everything is read. -/
theorem scanToken_rest_lt {c : Cursor} (h : c.rest ≠ []) :
    c.scanToken.2.rest.length < c.rest.length := by
  have hb : c.begin.rest ≠ [] := h
  obtain ⟨ch, cs, hcs⟩ := List.exists_cons_of_ne_nil h
  have hbr : c.begin.rest = ch :: cs := hcs
  have key : ∀ n, 0 < n → (c.begin.advance n).rest.length < c.rest.length :=
    fun n hn => advance_rest_lt (c := c.begin) hn hb
  have sign : c.begin.scanSign.2.rest.length < c.rest.length := by
    unfold scanSign
    split
    · rename_i m hm
      exact key _ (Mark.spelling_length_pos (List.mem_of_find?_eq_some hm))
    · exact key _ Nat.one_pos
  unfold scanToken
  simp only [hbr]
  split
  · unfold scanString
    split
    · exact key _ (by omega)
    · exact key _ (by omega)
  · split
    · rename_i hd
      have hn : 0 < numberLength c.begin.rest := by
        rw [hbr, numberLength, digitsLength, List.takeWhile_cons_of_pos hd, List.length_cons]
        omega
      exact key _ hn
    · split
      · rename_i hs
        have hn : 0 < nameLength c.begin.rest := by
          rw [hbr, nameLength, List.takeWhile_cons_of_pos (isNameChar_of_isNameStart hs),
            List.length_cons]
          omega
        exact key _ hn
      · exact sign

/-- The next item, if there is one. -/
def next? (c : Cursor) : Option Item × Cursor :=
  let d := c.skipLayout
  if d.atEnd then (none, d)
  else
    let r := d.scanToken
    (some r.1, r.2)

/-- All items that are left. -/
def drain (c : Cursor) : List Item × Cursor :=
  if c.skipLayout.rest = [] then ([], c.skipLayout)
  else
    let more := drain c.skipLayout.scanToken.2
    (c.skipLayout.scanToken.1 :: more.1, more.2)
termination_by c.rest.length
decreasing_by
  rename_i h
  have h1 := scanToken_rest_lt h
  have h2 : c.skipLayout.rest.length ≤ c.rest.length := by simp [skipLayout]
  omega

end Cursor

/-- The items of a text. -/
def scan (s : String) : List Item := (Cursor.ofText s).drain.1

/-- The tokens of a text, or its first fault. -/
def tokenize (s : String) : Except ScanError (List Token) := (scan s).mapM id

end Lox
