import Lox.Scan
import Lox.Text.Blank
/-!
# `Session.Highlight` — styles for what is typed

Each token of a line is shown in the style of its group, each fault in the style of errors, and what
lies between them as it is, unless it is a comment. Places are told by columns alone, so that in a
text of several lines the columns start again on each.
-/
namespace Lox.Session

/-- The groups of text that have a style. -/
inductive Group where
  | keyword | boolean | constant | number | string | identifier | operator | punctuation
  | comment | error
  deriving DecidableEq, Repr

namespace Group

/-- What a group is called. -/
def name : Group → String
  | keyword =>
    "keyword" | boolean => "boolean" | constant => "constant" | number => "number" | string => "string"
  | identifier =>
    "identifier" | operator => "operator" | punctuation => "punctuation" | comment => "comment"
  | error => "error"

/-- How a group looks. -/
def style : Group → String
  | keyword => "bold ansicyan"
  | boolean | constant => "ansicyan"
  | number => "ansimagenta"
  | string => "ansigreen"
  | identifier | operator | punctuation => ""
  | comment => "italic ansigray"
  | error => "bold ansired"

/-- The group of a kind of token. The end of input has none. -/
def ofKind? : Kind → Option Group
  | .mark .andWord | .mark .orWord => some keyword
  | .mark .trueWord | .mark .falseWord => some boolean
  | .mark .nilWord => some constant
  | .mark m =>
    match m.family with
    | .keyword => some keyword
    | .operator => some operator
    | .punctuation => some punctuation
    | .literal => none
  | .number => some number
  | .string => some string
  | .identifier => some identifier
  | .endOfInput => none

end Group

/-- A piece of text and how it looks. -/
structure Fragment where
  style : String
  text : List Char
  deriving DecidableEq, Repr

/-- The characters of a line from one column to another. -/
def slice (line : List Char) (first last : Nat) : List Char := (line.take last).drop first

/-- What lies between tokens: a comment, or blanks. -/
def gap (cs : List Char) : Fragment :=
  if ['/', '/'].isPrefixOf (Text.trimStart cs) then ⟨Group.comment.style, cs⟩ else ⟨"", cs⟩

/-- The column behind a fault as it is shown: a string without an end goes on to the end of the
line, and of anything else one character is marked. -/
def faultEnd (line : List Char) (e : ScanError) : Nat :=
  if e.cause = .unterminatedString then line.length else e.place.col

/-- The fragments from a column on. -/
def fragmentsFrom (line : List Char) : (col : Nat) → List Item → List Fragment
  | col, [] => if col < line.length then [gap (line.drop col)] else []
  | col, .error e :: items =>
    let start := e.place.col - 1
    let before := if col < start then [⟨"", slice line col start⟩] else []
    before ++ ⟨Group.error.style, slice line start (faultEnd line e)⟩ ::
      fragmentsFrom line (faultEnd line e) items
  | col, .ok t :: items =>
    let start := t.place.col - 1
    if start < col then fragmentsFrom line col items
    else
      let before := if col < start then [gap (slice line col start)] else []
      let style := ((Group.ofKind? t.kind).map Group.style).getD ""
      before ++ ⟨style, t.lexeme.toList⟩ :: fragmentsFrom line (start + t.lexeme.toList.length) items

/-- A line in its styles. -/
def highlight (line : List Char) : List Fragment :=
  match fragmentsFrom line 0 (Cursor.ofChars line).drain.1 with
  | [] => [⟨"", line⟩]
  | fragments => fragments

/-- A text divided at its line feeds. -/
def linesOf : List Char → List (List Char)
  | [] => [[]]
  | '\n' :: cs => [] :: linesOf cs
  | c :: cs =>
    match linesOf cs with
    | [] => [[c]]
    | line :: lines => (c :: line) :: lines

/-- The line of a number, counted from zero, or from the end if it is negative. -/
def lineAt? (text : List Char) (number : Int) : Option (List Char) :=
  let lines := linesOf text
  if number < 0 then lines.reverse[(-number - 1).toNat]? else lines[number.toNat]?

/-- A line of a text in its styles; nothing, where there is no line. -/
def highlightLine (text : List Char) (number : Int) : List Fragment :=
  match lineAt? text number with
  | some line => highlight line
  | none => [⟨"", []⟩]

end Lox.Session
