import Lox.Grammar.Phrase
/-!
# `Grammar.Reader` — shift and reduce

The reader takes one terminal after another. It keeps what is still open to the left: parentheses,
prefix operators, and left operands with their operators. The rules of the grammar for rows of
operands are layered; an operator first closes everything open that is in its layer or a tighter
one, which makes all rows associate to the left. A terminal that no phrase can go on with is refused
at once, so that what was read before it can always be completed.
-/
namespace Lox.Grammar

/-- Something that waits for the operand to its right. -/
inductive Open where
  | paren
  | sign (op : UnaryOp)
  | left (p : Phrase) (op : BinaryOp)
  deriving DecidableEq

/-- What the expression at hand is for. -/
inductive Purpose where
  /-- It is the whole text. -/
  | alone
  | expression
  | print
  | declare (name : String)
  deriving DecidableEq

/-- Where the reader is in the grammar. -/
inductive State where
  /-- Before a statement, or at the end of a program. -/
  | between
  /-- Before the name of a variable. -/
  | nameWanted
  /-- Behind the name of a variable. -/
  | nameRead (name : String)
  /-- Before an operand. -/
  | operandWanted (purpose : Purpose) (stack : List Open)
  /-- Behind an operand. -/
  | operandRead (purpose : Purpose) (stack : List Open) (p : Phrase)
  deriving DecidableEq

/-- A reader: the sentences that are complete, the last one first, and where it is. -/
structure Reader where
  done : List Sentence
  state : State
  deriving DecidableEq

/-! ## Reducing -/

/-- The rule that an operator belongs to, counted from the loosest: a phrase of a rule is one of the
next rule, or it is a phrase of the same rule, an operator of the rule and a phrase of the next
one. -/
def layer : BinaryOp → Nat
  | .logical .and | .logical .or => 0
  | .strict .equal | .strict .notEqual => 1
  | .strict .less | .strict .lessEqual | .strict .greater | .strict .greaterEqual => 2
  | .strict .add | .strict .subtract => 3
  | .strict .multiply | .strict .divide => 4

/-- Closes prefix operators, and binary operators of at least the layer, around an operand. -/
def reduce (least : Nat) : List Open → Phrase → List Open × Phrase
  | .sign op :: stack, p => reduce least stack (.unary op p)
  | .left l op :: stack, p =>
    if least ≤ layer op then reduce least stack (.binary op l p) else (.left l op :: stack, p)
  | stack, p => (stack, p)

/-- Closes everything up to a parenthesis. -/
def reduceAll (stack : List Open) (p : Phrase) : List Open × Phrase := reduce 0 stack p

/-- The sentence that an expression completes. -/
def Purpose.sentence? (p : Phrase) : Purpose → Option Sentence
  | alone => none
  | expression => some (.expression p)
  | print => some (.print p)
  | declare name => some (.declare name (some p))

/-! ## Shifting -/

/-- Shifts a terminal before an operand. -/
def shiftOperand (purpose : Purpose) (stack : List Open) (t : Terminal) : Option State :=
  match t.phrase? with
  | some p => some (.operandRead purpose stack p)
  | none =>
    match t.kind.unaryOp? with
    | some op => some (.operandWanted purpose (.sign op :: stack))
    | none =>
      if t.kind = .mark .leftParen then some (.operandWanted purpose (.paren :: stack)) else none

/-- Shifts a terminal. -/
def Reader.shift (r : Reader) (t : Terminal) : Option Reader :=
  match r.state with
  | .between =>
    match t.kind with
    | .mark .printWord => some { r with state := .operandWanted .print [] }
    | .mark .varWord => some { r with state := .nameWanted }
    | _ => (shiftOperand .expression [] t).map fun s => { r with state := s }
  | .nameWanted =>
    if t.kind = .identifier then some { r with state := .nameRead t.text } else none
  | .nameRead name =>
    match t.kind with
    | .mark .assign => some { r with state := .operandWanted (.declare name) [] }
    | .mark .semicolon => some ⟨.declare name none :: r.done, .between⟩
    | _ => none
  | .operandWanted purpose stack => (shiftOperand purpose stack t).map fun s => { r with state := s }
  | .operandRead purpose stack p =>
    match t.kind.binaryOp? with
    | some op =>
      let (stack, p) := reduce (layer op) stack p
      some { r with state := .operandWanted purpose (.left p op :: stack) }
    | none =>
      match t.kind, reduceAll stack p with
      | .mark .rightParen, (.paren :: stack, p) =>
        some { r with state := .operandRead purpose stack (.group p) }
      | .mark .semicolon, ([], p) => (purpose.sentence? p).map fun s => ⟨s :: r.done, .between⟩
      | _, _ => none

/-- Shifts terminals until one is refused. -/
def Reader.shiftAll (r : Reader) : List Terminal → Except Error Reader
  | [] => .ok r
  | t :: ts =>
    match r.shift t with
    | some r => shiftAll r ts
    | none => .error (.unexpected t)

/-- The sentences of a finished program. -/
def Reader.program? (r : Reader) : Option (List Sentence) :=
  if r.state = .between then some r.done.reverse else none

/-- The phrase of a finished expression. -/
def Reader.phrase? (r : Reader) : Option Phrase :=
  match r.state with
  | .operandRead .alone stack p =>
    match reduceAll stack p with
    | ([], p) => some p
    | _ => none
  | _ => none

/-! ## Reading texts -/

/-- The reader before a program. -/
def Reader.forProgram : Reader := ⟨[], .between⟩

/-- The reader before an expression. -/
def Reader.forExpr : Reader := ⟨[], .operandWanted .alone []⟩

/-- Reads a text to its end, where it has to be complete. -/
def derive (start : Reader) (complete? : Reader → Option α) (s : String) : Except Error α := do
  let ts := divide s.toList .origin
  let r ← start.shiftAll ts.list
  match ts.stuck with
  | some (c, p) => throw (.unmatched c p)
  | none =>
    match complete? r with
    | some a => return a
    | none => throw (.unexpectedEnd ((ts.list.getLast?.map (·.place)).getD .origin))

/-- The room that making an expression starts with. -/
def buildRoom : Nat := 2490

/-- Reads a program. -/
def parseProgram (s : String) : Except Error (List Stmt) := do
  (← derive .forProgram Reader.program? s).mapM (Sentence.toStmt buildRoom)

/-- Reads an expression. -/
def parseExpr (s : String) : Except Error Expr := do
  (← derive .forExpr Reader.phrase? s).toExpr buildRoom

end Lox.Grammar
