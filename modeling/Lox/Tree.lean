import Lox.Operator
/-!
# `Tree` — expressions, statements, and trees of both

Reading a text gives expressions and statements, each sort in its own place. A tree that was put
together by hand may have a statement where an expression belongs; `Node` is the type of such trees,
into which the two sorts embed, and what walks over trees is defined on it.
-/
namespace Lox

/-- The leaves of an expression. -/
inductive Literal where
  | string (contents : String)
  | identifier (name : String)
  | number (value : Float)
  | boolean (value : Bool)
  | nil
  deriving DecidableEq

/-- Expressions. Parentheses are kept. -/
inductive Expr where
  | literal (l : Literal)
  | group (inner : Expr)
  | unary (op : UnaryOp) (operand : Expr)
  | binary (op : BinaryOp) (left right : Expr)
  deriving DecidableEq

/-- Statements. -/
inductive Stmt where
  /-- An expression that stands for itself. -/
  | expression (e : Expr)
  | print (e : Expr)
  /-- The declaration of a variable, with the expression for its first value if there is one. -/
  | declare (name : String) (initial : Option Expr)
  deriving DecidableEq

/-- Trees of expressions and statements in any order. -/
inductive Node where
  | literal (l : Literal)
  | group (inner : Node)
  | unary (op : UnaryOp) (operand : Node)
  | binary (op : BinaryOp) (left right : Node)
  | expression (inner : Node)
  | print (inner : Node)
  | declare (name : String)
  | declareAs (name : String) (initial : Node)
  deriving DecidableEq

/-- An expression as a tree. -/
def Expr.toNode : Expr → Node
  | literal l => .literal l
  | group e => .group e.toNode
  | unary op e => .unary op e.toNode
  | binary op l r => .binary op l.toNode r.toNode

/-- A statement as a tree. -/
def Stmt.toNode : Stmt → Node
  | expression e => .expression e.toNode
  | print e => .print e.toNode
  | declare name none => .declare name
  | declare name (some e) => .declareAs name e.toNode

/-- What a message calls the root of a tree. -/
def Node.label : Node → String
  | literal _ => "Literal"
  | group _ => "Grouping"
  | unary _ _ => "Unary"
  | binary _ _ _ => "Binary"
  | expression _ => "ExprStmt"
  | print _ => "PrintStmt"
  | declare _ | declareAs _ _ => "VarStmt"

/-- How many nodes stand above the deepest leaf. -/
def Node.depth : Node → Nat
  | literal _ | declare _ => 0
  | group n | unary _ n | expression n | print n | declareAs _ n => n.depth + 1
  | binary _ l r => max l.depth r.depth + 1

end Lox
