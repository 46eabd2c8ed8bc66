import Lox.Diagnostic
import Lox.Grammar.Terminal
import Lox.Number.Numeral
import Lox.Text.LineBreak
import Lox.Tree
/-!
# `Grammar.Phrase` — what the grammar derives, and the trees made of it

A phrase is shaped like an expression, except that its numbers are still terminals. Making an
expression of it reads them, from left to right, and takes one level of room per node.
-/
namespace Lox.Grammar

/-! ## Errors -/

/-- Why the grammar does not derive a text. -/
inductive Error where
  /-- A terminal that cannot continue the text. -/
  | unexpected (t : Terminal)
  /-- The text cannot end here; the place is that of the last terminal. -/
  | unexpectedEnd (last : Place)
  /-- A character that no terminal starts with. -/
  | unmatched (c : Char) (place : Place)
  /-- A number without a finite value. -/
  | invalidNumber (text : String) (place : Place)
  | tooDeep
  deriving DecidableEq

namespace Error

/-- Where the error is. -/
def place? : Error → Option Place
  | unexpected t => some t.place
  | unexpectedEnd p | unmatched _ p | invalidNumber _ p => some p
  | tooDeep => none

/-- A place in words. -/
def atPlace (col : String) (p : Place) : String :=
  " at line " ++ toString p.row ++ col ++ toString p.col

/-- The kind of error. -/
def tag : Error → Tag
  | tooDeep => .tooDeep
  | _ => .parseError

/-- What is said about an error, in one line. -/
def text : Error → String
  | unexpected t =>
    "Unexpected token Token('" ++ kindName t.kind ++ "', " ++ Text.display t.text ++ ")" ++
      atPlace ", column " t.place ++ "."
  | unexpectedEnd p => "Unexpected token Token('$END', '')" ++ atPlace ", column " p ++ "."
  | unmatched c p =>
    String.ofList (Text.firstLine ("No terminal matches '".toList ++ c ::
      ("' in the current parser context," ++ atPlace " col " p).toList))
  | invalidNumber s _ => Text.display s ++ " is an invalid number"
  | tooDeep => "Expression nests too deeply"

/-- The error, ready to be written. -/
def diagnostic (e : Error) : Diagnostic :=
  ⟨e.tag, e.text, e.place?.map (·.row), e.place?.map (·.col)⟩

end Error

/-! ## Phrases -/

/-- What the grammar derives for an expression. -/
inductive Phrase where
  | number (t : Terminal)
  | leaf (l : Literal)
  | group (inner : Phrase)
  | unary (op : UnaryOp) (operand : Phrase)
  | binary (op : BinaryOp) (left right : Phrase)
  deriving DecidableEq

/-- What the grammar derives for a statement. -/
inductive Sentence where
  | expression (p : Phrase)
  | print (p : Phrase)
  | declare (name : String) (initial : Option Phrase)
  deriving DecidableEq

/-- The phrase of a terminal that is an operand by itself. -/
def Terminal.phrase? (t : Terminal) : Option Phrase :=
  match t.kind with
  | .number => some (.number t)
  | .string => some (.leaf (.string (String.ofList t.text.toList.tail.dropLast)))
  | .identifier => some (.leaf (.identifier t.text))
  | .mark .trueWord => some (.leaf (.boolean true))
  | .mark .falseWord => some (.leaf (.boolean false))
  | .mark .nilWord => some (.leaf .nil)
  | _ => none

/-- The expression of a number. -/
def Terminal.number (t : Terminal) : Except Error Expr :=
  match Number.read? t.text.toList with
  | some v =>
    if Number.isInfinite v then .error (.invalidNumber t.text t.place) else .ok (.literal (.number v))
  | none => .error (.invalidNumber t.text t.place)

/-- Goes on with one level less. -/
def descend (room : Nat) (go : Nat → Except Error α) : Except Error α :=
  if 1 ≤ room then go (room - 1) else .error .tooDeep

/-- The expression of a phrase, within the given room. -/
def Phrase.toExpr : (room : Nat) → Phrase → Except Error Expr
  | _, number t => t.number
  | _, leaf l => .ok (.literal l)
  | room, group p => descend room fun room => return .group (← p.toExpr room)
  | room, unary op p => descend room fun room => return .unary op (← p.toExpr room)
  | room, binary op l r => descend room fun room => do
    let a ← l.toExpr room
    let b ← r.toExpr room
    return .binary op a b

/-- The statement of a sentence, within the given room. -/
def Sentence.toStmt (room : Nat) : Sentence → Except Error Stmt
  | expression p => return .expression (← p.toExpr room)
  | print p => return .print (← p.toExpr room)
  | declare name none => .ok (.declare name none)
  | declare name (some p) => return .declare name (some (← p.toExpr room))

end Lox.Grammar
