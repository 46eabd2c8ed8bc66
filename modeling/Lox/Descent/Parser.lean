import Lox.Descent.Stream
import Lox.Tree
/-!
# `Descent.Parser` — reading programs by descent

One function per tier, each built on the next tighter one and with operators of its own. What was
consumed before an error stays consumed. A prefix operator takes one level of room and a parenthesis
thirteen, one for each function between it and the expression that it holds; running out of room is
an error of its own. The number of rounds bounds how often one function may loop; as many rounds as
there are tokens are enough.
-/
namespace Lox

/-! ## Operators -/

/-- The binary operators of each tier, with the marks that they are written as. -/
def Tier.operators : Tier → List (Mark × BinaryOp)
  | logical => [(.andWord, .logical .and), (.orWord, .logical .or)]
  | equality => [(.equal, .strict .equal), (.notEqual, .strict .notEqual)]
  | comparison =>
    [(.less, .strict .less), (.lessEqual, .strict .lessEqual), (.greater, .strict .greater),
      (.greaterEqual, .strict .greaterEqual)]
  | term => [(.plus, .strict .add), (.minus, .strict .subtract)]
  | factor => [(.star, .strict .multiply), (.slash, .strict .divide)]

/-- The binary operator of a tier that a kind of token stands for. -/
def Tier.op? (tier : Tier) : Kind → Option BinaryOp
  | .mark m => tier.operators.lookup m
  | _ => none

namespace Descent

/-- A step of reading: it moves the stream along, also if it fails. -/
abbrev Parser := ExceptT Error (StateM Stream)

/-! ## Tokens -/

/-- The next token, which stays in the stream. -/
def peek : Parser Token := do
  let s ← get
  match s.buffered with
  | some t => return t
  | none =>
    match s.pull with
    | (.ok t, s) =>
      set { s with buffered := some t }
      return t
    | (.error e, s) =>
      set s
      throw e

/-- Consumes the next token. The end of input is never consumed. -/
def advance : Parser Token := do
  let t ← peek
  unless t.isEnd do modify fun s => { s with buffered := none }
  return t

/-- Is the next token of one of the kinds? -/
def check (kinds : List Kind) : Parser Bool := return kinds.contains (← peek).kind

/-- Consumes the next token if it is of one of the kinds. -/
def accept (kinds : List Kind) : Parser Bool := do
  if ← check kinds then
    let _ ← advance
    return true
  return false

/-- Consumes a token of the kind, or fails with the note. -/
def expect (kind : Kind) (note : String) : Parser Token := do
  let t ← peek
  if t.kind = kind then advance else throw (.missing kind note t)

/-! ## Expressions -/

/-- Goes on with a row of operands that the operators of a tier hold together. They associate to the
left. -/
def chainFrom (operand : Parser Expr) (tier : Tier) : (rounds : Nat) → Expr → Parser Expr
  | 0, left => do
    let _ ← peek
    return left
  | rounds + 1, left => do
    match tier.op? (← peek).kind with
    | none => return left
    | some op =>
      let _ ← advance
      let right ← operand
      chainFrom operand tier rounds (.binary op left right)

/-- A row of operands that the operators of a tier hold together. -/
def chain (rounds : Nat) (tier : Tier) (operand : Parser Expr) : Parser Expr := do
  chainFrom operand tier rounds (← operand)

/-- The row of operands at a tier, given how to read what no binary operator takes apart. -/
def tierOver (rounds : Nat) (unary : Parser Expr) : Tier → Parser Expr
  | .factor => chain rounds .factor unary
  | .term => chain rounds .term (chain rounds .factor unary)
  | .comparison => chain rounds .comparison (chain rounds .term (chain rounds .factor unary))
  | .equality =>
    chain rounds .equality (chain rounds .comparison (chain rounds .term (chain rounds .factor unary)))
  | .logical =>
    chain rounds .logical
      (chain rounds .equality (chain rounds .comparison
        (chain rounds .term (chain rounds .factor unary))))

/-- Consumes the next token and reads on further down, if there is room for that. -/
def nested (cost room : Nat) (inner : cost ≤ room → Parser Expr) : Parser Expr := do
  let _ ← advance
  if h : cost ≤ room then inner h else throw (.tooDeep (← get).here)

/-- A leaf, or a parenthesis: `opened` reads how it opens and what it holds. -/
def primaryOver (opened : Parser Expr) : Parser Expr := do
  let t ← peek
  match t.meaning with
  | .mark .trueWord => leaf (.boolean true)
  | .mark .falseWord => leaf (.boolean false)
  | .mark .nilWord => leaf .nil
  | .number v => leaf (.number v)
  | .string s => leaf (.string s)
  | .identifier s => leaf (.identifier s)
  | .mark .leftParen =>
    let e ← opened
    let _ ← expect (.mark .rightParen) "Expected ')' after expression"
    return .group e
  | _ => throw (.noOperand t)
where
  /-- Consumes the token of a leaf. -/
  leaf (l : Literal) : Parser Expr := do
    let _ ← advance
    return .literal l

mutual

/-- What no binary operator takes apart: prefix operators before a leaf or a parenthesis. -/
def unary (rounds room : Nat) : Parser Expr := do
  match (← peek).kind.unaryOp? with
  | some op => return .unary op (← nested 1 room fun _ => unary rounds (room - 1))
  | none => primary rounds room
termination_by 2 * room + 1

/-- A leaf or a parenthesis. -/
def primary (rounds room : Nat) : Parser Expr :=
  primaryOver (nested 13 room fun _ => tierOver rounds (unary rounds (room - 13)) .logical)
termination_by 2 * room

end

/-- A row of operands at a tier. -/
def atTier (rounds room : Nat) (tier : Tier) : Parser Expr := tierOver rounds (unary rounds room) tier

/-- An expression. -/
def expression (rounds room : Nat) : Parser Expr := atTier rounds room .logical

/-! ## Statements and texts -/

/-- What follows the word that starts a declaration. -/
def declaration (rounds room : Nat) : Parser Stmt := do
  let t ← expect .identifier "Expected variable name after 'var'"
  let name := match t.meaning with
    | .identifier s => s
    | _ => t.lexeme
  if ← accept [.mark .assign] then return .declare name (some (← expression rounds room))
  return .declare name none

/-- A statement up to its semicolon. -/
def statementBody (rounds room : Nat) : Parser Stmt := do
  if ← accept [.mark .varWord] then declaration rounds room
  else if ← accept [.mark .printWord] then return .print (← expression rounds room)
  else return .expression (← expression rounds room)

/-- A statement. -/
def statement (rounds room : Nat) : Parser Stmt := do
  let s ← statementBody rounds room
  let _ ← expect (.mark .semicolon) "Expected ';' after statement"
  return s

/-- Statements up to the end of input. -/
def statements (rounds room : Nat) : (count : Nat) → Parser (List Stmt)
  | 0 => do
    let _ ← peek
    return []
  | count + 1 => do
    if ← check [.endOfInput] then return []
    let s ← statement rounds room
    return s :: (← statements rounds room count)

/-- A whole program. -/
def program (rounds room : Nat) : Parser (List Stmt) := statements rounds room rounds

/-- An expression that spans the whole text. -/
def wholeExpression (rounds room : Nat) : Parser Expr := do
  let e ← expression rounds room
  let t ← peek
  if t.isEnd then return e else throw (.trailing t)

/-! ## Running -/

/-- The room that reading a text starts with. -/
def parseRoom : Nat := 4970

/-- The room that no stream can exhaust. -/
def ampleRoom (s : Stream) : Nat := 13 * (s.size + 1)

/-- Runs a parser with rounds for every token. -/
def runOn (p : (rounds : Nat) → Parser α) (s : Stream) : Except Error α × Stream :=
  (p (s.size + 1)).run s

/-- Reads a program. -/
def parseProgram (s : String) : Except Error (List Stmt) :=
  (runOn (program · parseRoom) (.ofText s)).1

/-- Reads an expression. -/
def parseExpr (s : String) : Except Error Expr :=
  (runOn (wholeExpression · parseRoom) (.ofText s)).1

end Descent
end Lox
