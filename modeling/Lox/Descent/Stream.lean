import Lox.Scan
/-!
# `Descent.Stream` — tokens with one token of lookahead

A stream holds the tokens of a text up to its first fault. Pulling gives them one by one; after the
last one comes the fault, once, and from then on the end of input. At most one token is buffered,
and the end of input stays buffered for ever.
-/
namespace Lox.Descent

/-! ## Errors -/

/-- Why a text is not accepted. -/
inductive Error where
  /-- The text is not made of tokens. -/
  | lexical (fault : ScanError)
  /-- Another kind of token was wanted; `note` says so, unless it is empty. -/
  | missing (wanted : Kind) (note : String) (found : Token)
  /-- An operand was wanted. -/
  | noOperand (found : Token)
  /-- The expression ended before the text did. -/
  | trailing (found : Token)
  /-- The expression nests too deeply; the place is how far the text was read. -/
  | tooDeep (place : Place)
  deriving DecidableEq

namespace Error

/-- The token that was found in place of another one. -/
def token? : Error → Option Token
  | missing _ _ t | noOperand t | trailing t => some t
  | lexical _ | tooDeep _ => none

/-- The kind of error. -/
def tag : Error → Tag
  | lexical _ => .lexical
  | missing _ _ t => if t.isEnd then .endOfFile else .badStructure
  | noOperand t =>
    match t.kind.family? with
    | none => .endOfFile
    | some .keyword => .unsupported
    | some .operator => .badOperator
    | some .punctuation => .badStructure
    | some .literal => .parseError
  | trailing _ => .badStructure
  | tooDeep _ => .tooDeep

/-- What is said about an error. -/
def text : Error → String
  | lexical e => e.text
  | missing wanted note t =>
    if note = "" then "Expected " ++ wanted.name ++ ", got " ++ t.kind.name else note
  | noOperand t =>
    match t.kind.family? with
    | none => "Expected an expression"
    | some .keyword => "Keyword " ++ Text.display t.lexeme ++ " is not supported here"
    | some .operator => "Operator " ++ Text.display t.lexeme ++ " where an operand was expected"
    | some .punctuation => "Unexpected " ++ Text.display t.lexeme
    | some .literal => "Unexpected token " ++ t.kind.name
  | trailing t => "Unexpected " ++ Text.display t.lexeme ++ " after expression"
  | tooDeep _ => "Expression nests too deeply"

/-- Where the error is. -/
def place? : Error → Option Place
  | lexical e => some e.place
  | tooDeep p => some p
  | e => e.token?.map (·.place)

/-- The error, ready to be written. A fault is told in its own words. -/
def diagnostic : Error → Diagnostic
  | lexical e => e.diagnostic
  | e => ⟨e.tag, e.text, e.place?.map (·.row), e.place?.map (·.col)⟩

end Error

/-! ## Streams -/

/-- Tokens that are read one by one. -/
structure Stream where
  /-- The token that was looked at and not consumed. -/
  buffered : Option Token
  /-- The tokens that were not looked at. -/
  ahead : List Token
  /-- The fault behind them. -/
  fault : Option ScanError
  /-- Where reading has come to. -/
  here : Place
  /-- Where reading stops: behind the fault, or at the end of the text. -/
  stop : Place
  deriving DecidableEq

namespace Stream

/-- The tokens up to the first fault, and the fault. -/
def upToFault : List Item → List Token × Option ScanError
  | [] => ([], none)
  | .ok t :: items =>
    let (ts, e) := upToFault items
    (t :: ts, e)
  | .error e :: _ => ([], some e)

/-- The stream of a text. -/
def ofText (s : String) : Stream :=
  let (items, last) := (Cursor.ofText s).drain
  let (tokens, fault) := upToFault items
  let stop := match fault with
    | some e => e.place.after e.lexeme.toList
    | none => last.here
  ⟨none, tokens, fault, .origin, stop⟩

/-- How many tokens are left, at most. -/
def size (s : Stream) : Nat := s.ahead.length + 1

/-- Takes the next token off the text. -/
def pull (s : Stream) : Except Error Token × Stream :=
  match s.ahead with
  | t :: ts => (.ok t, { s with ahead := ts, here := t.behind })
  | [] =>
    match s.fault with
    | some e => (.error (.lexical e), { s with fault := none, here := s.stop })
    | none => (.ok ⟨.endOfInput, s.stop, ""⟩, { s with here := s.stop })

end Stream
end Lox.Descent
