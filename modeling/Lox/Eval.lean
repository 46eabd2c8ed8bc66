import Lox.Diagnostic
import Lox.Tree
import Lox.Value
/-!
# `Eval` — evaluating expressions and running statements

Operands are evaluated from left to right and the first error ends the evaluation. Nesting takes
room: a group one level, a strict operator two and a third while it is applied, a logical operator
three. Evaluation that runs out of room ends in an error of its own. There are no variables, so that
every name is undefined and every declaration is refused.
-/
namespace Lox

/-! ## Errors -/

/-- Why an evaluation failed. -/
inductive RuntimeError where
  /-- The operator, as it is written, was applied to something that is no number. -/
  | notANumber (op : String) (operand : Value)
  /-- Values that cannot be added. -/
  | notAddable (left right : Value)
  | undefinedName (name : String)
  | declaration (name : String)
  /-- A statement stood where an expression belongs. -/
  | notAnExpression (label : String)
  /-- An expression stood where a statement belongs. -/
  | notAStatement (label : String)
  | tooDeep
  deriving DecidableEq

namespace RuntimeError

/-- The kind of error. -/
def tag : RuntimeError → Tag
  | notANumber _ _ | notAddable _ _ => .typeError
  | undefinedName _ => .undefined
  | declaration _ => .unsupported
  | notAnExpression _ | notAStatement _ => .runtimeError
  | tooDeep => .tooDeep

/-- What is said about an error. -/
def text : RuntimeError → String
  | notANumber op v =>
    "Operand of '" ++ op ++ "' must be a number; got " ++ v.sortName ++ " " ++ v.display
  | notAddable l r =>
    "Operands of '+' must be two numbers or two strings; got " ++ l.display ++ " and " ++ r.display
  | undefinedName name => "undefined reference `" ++ name ++ "`"
  | declaration name => "variable declarations are not supported yet (var " ++ name ++ ")"
  | notAnExpression label => "Unsupported node " ++ label
  | notAStatement label => "Unsupported statement " ++ label
  | tooDeep => "expression nests too deeply to evaluate"

/-- The error, ready to be written. -/
def diagnostic (e : RuntimeError) : Diagnostic := ⟨e.tag, e.text, none, none⟩

/-- The value that an operator would not take. Of two values that cannot be added it is the left
one, unless that one alone would do. -/
def offender? : RuntimeError → Option Value
  | notANumber _ v => some v
  | notAddable l r =>
    match l with
    | .number _ | .string _ => some r
    | _ => some l
  | _ => none

end RuntimeError

/-! ## Operators -/

/-- The number that an operand has to be. -/
def Value.toNumber (op : String) : Value → Except RuntimeError Float
  | number v => .ok v
  | v => .error (.notANumber op v)

/-- Applies a function to two numbers. The left operand is checked first. -/
def Value.withNumbers (op : String) (f : Float → Float → Value) (l r : Value) :
    Except RuntimeError Value := do
  let a ← l.toNumber op
  let b ← r.toNumber op
  return f a b

/-- The sum of two numbers, or two strings joined. -/
def Value.add : Value → Value → Except RuntimeError Value
  | number a, number b => .ok (.number (a + b))
  | string a, string b => .ok (.string (a ++ b))
  | l, r => .error (.notAddable l r)

/-- Applies an operator to a value. -/
def UnaryOp.apply (op : UnaryOp) (v : Value) : Except RuntimeError Value :=
  match op with
  | negate => return .number (-(← v.toNumber op.spelling))
  | not => .ok (.bool !v.isTruthy)

/-- Applies an operator to two values. -/
def StrictOp.apply (op : StrictOp) (l r : Value) : Except RuntimeError Value :=
  match op with
  | equal => .ok (.bool (l.equals r))
  | notEqual => .ok (.bool !l.equals r)
  | less => Value.withNumbers op.spelling (fun a b => .bool (a < b)) l r
  | lessEqual => Value.withNumbers op.spelling (fun a b => .bool (a ≤ b)) l r
  | greater => Value.withNumbers op.spelling (fun a b => .bool (a > b)) l r
  | greaterEqual => Value.withNumbers op.spelling (fun a b => .bool (a ≥ b)) l r
  | add => Value.add l r
  | subtract => Value.withNumbers op.spelling (fun a b => .number (a - b)) l r
  | multiply => Value.withNumbers op.spelling (fun a b => .number (a * b)) l r
  | divide => Value.withNumbers op.spelling (fun a b => .number (a / b)) l r

/-- Does a left operand of this truth value settle the result? -/
def LogicalOp.settledBy : LogicalOp → Bool → Bool
  | and, left => !left
  | or, left => left

/-- An operator that is no function of two values. -/
structure NotStrict where
  op : LogicalOp
  deriving DecidableEq, Repr

/-- What is said about applying such an operator. -/
def NotStrict.message : NotStrict → String
  | ⟨.and⟩ => "Unknown operator <BinOp.AND: 'and'>"
  | ⟨.or⟩ => "Unknown operator <BinOp.OR: 'or'>"

/-- The function of two values that an operator is, if it is one. -/
def BinaryOp.apply : BinaryOp → Except NotStrict (Value → Value → Except RuntimeError Value)
  | logical op => .error ⟨op⟩
  | strict op => .ok op.apply

/-! ## Expressions -/

/-- The value of a leaf. -/
def Literal.eval : Literal → Except RuntimeError Value
  | string s => .ok (.string s)
  | identifier name => .error (.undefinedName name)
  | number v => .ok (.number v)
  | boolean b => .ok (.bool b)
  | nil => .ok .nil

/-- Goes on with `cost` levels less, if at least `need` are left. -/
def descend (room need cost : Nat) (go : Nat → Except RuntimeError Value) : Except RuntimeError Value :=
  if need ≤ room then go (room - cost) else .error .tooDeep

/-- The value of an expression, within the given room. -/
def Node.eval : (room : Nat) → Node → Except RuntimeError Value
  | _, literal l => l.eval
  | room, group n => descend room 1 1 fun room => n.eval room
  | room, unary op n => descend room 3 2 fun room => do
    op.apply (← n.eval room)
  | room, binary (.strict op) l r => descend room 3 2 fun room => do
    let a ← l.eval room
    let b ← r.eval room
    op.apply a b
  | room, binary (.logical op) l r => descend room 3 3 fun room => do
    let a ← l.eval room
    if op.settledBy a.isTruthy then return .bool a.isTruthy
    else return .bool (← r.eval room).isTruthy
  | _, n => .error (.notAnExpression n.label)

/-- The room that an evaluation starts with. -/
def evalRoom : Nat := 4992

/-- The value of an expression. -/
def Expr.eval (e : Expr) : Except RuntimeError Value := e.toNode.eval evalRoom

/-! ## Statements -/

/-- Runs a statement: its value, and what it prints. -/
def Node.exec : Node → Except RuntimeError Value × String
  | expression n => (n.eval evalRoom, "")
  | print n =>
    match n.eval evalRoom with
    | .ok v => (.ok v, v.text ++ "\n")
    | .error e => (.error e, "")
  | declare name | declareAs name _ => (.error (.declaration name), "")
  | n => (.error (.notAStatement n.label), "")

/-- What came of running statements one after another until one failed. -/
structure Run where
  values : List Value
  printed : String
  failure : Option RuntimeError
  deriving DecidableEq

/-- Runs statements one after another until one fails. -/
def Run.ofStatements : List Stmt → Run
  | [] => ⟨[], "", none⟩
  | s :: rest =>
    match s.toNode.exec with
    | (.ok v, printed) =>
      let more := ofStatements rest
      ⟨v :: more.values, printed ++ more.printed, more.failure⟩
    | (.error e, printed) => ⟨[], printed, some e⟩

end Lox
