import Lox.Diagnostic
import Lox.Text.Quoted
import Lox.Tree
/-!
# `Render` — trees as text

A tree is written on one line in prefix form, each operator before its operands and brackets around
both. Strings are quoted, names stand between backquotes, so that the text determines the tree.
Trees beyond a certain depth are refused.
-/
namespace Lox

/-- A leaf as text. -/
def Literal.render : Literal → String
  | string s => Text.quote s
  | identifier s => "`" ++ s ++ "`"
  | number v => Number.text v
  | boolean true => "true"
  | boolean false => "false"
  | nil => "nil"

/-- A tree as text. -/
def Node.render : Node → String
  | literal l => l.render
  | group n => "(group " ++ n.render ++ ")"
  | unary op n => "(" ++ op.spelling ++ " " ++ n.render ++ ")"
  | binary op l r => "(" ++ op.spelling ++ " " ++ l.render ++ " " ++ r.render ++ ")"
  | expression n => n.render
  | print n => "(print " ++ n.render ++ ")"
  | declare name => "(var " ++ name ++ ")"
  | declareAs name n => "(var " ++ name ++ " " ++ n.render ++ ")"

/-- A tree that is refused for its depth. -/
structure RenderError where
  deriving DecidableEq, Repr

/-- The refusal, ready to be written. -/
def RenderError.diagnostic (_ : RenderError) : Diagnostic :=
  ⟨.tooDeep, "Tree nests too deeply to print", none, none⟩

/-- The depth of the deepest tree that is written. -/
def renderDepth : Nat := 4991

/-- A tree as text, unless it is too deep. -/
def Node.text (n : Node) : Except RenderError String :=
  if n.depth ≤ renderDepth then .ok n.render else .error {}

/-- An expression as text, unless it is too deep. -/
def Expr.text (e : Expr) : Except RenderError String := e.toNode.text

/-- A statement as text, unless it is too deep. -/
def Stmt.text (s : Stmt) : Except RenderError String := s.toNode.text

end Lox
