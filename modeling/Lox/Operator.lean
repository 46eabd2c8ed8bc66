import Lox.Token
/-!
# `Operator` — operators and their tiers

A strict operator is a function of the values of its two operands. A logical operator looks at its
left operand first and may never look at its right one. Binary operators fall into five tiers; each
front end knows by itself which operators are in which.
-/
namespace Lox

/-- The operators with one operand. -/
inductive UnaryOp where
  | negate
  | not
  deriving DecidableEq, Repr

/-- The operators that may skip their right operand. -/
inductive LogicalOp where
  | and
  | or
  deriving DecidableEq, Repr

/-- The operators that take the values of both operands. -/
inductive StrictOp where
  | equal | notEqual
  | less | lessEqual | greater | greaterEqual
  | add | subtract
  | multiply | divide
  deriving DecidableEq, Repr

/-- The operators with two operands. -/
inductive BinaryOp where
  | logical (op : LogicalOp)
  | strict (op : StrictOp)
  deriving DecidableEq, Repr

/-- The levels of binding, from the loosest to the tightest. -/
inductive Tier where
  | logical
  | equality
  | comparison
  | term
  | factor
  deriving DecidableEq, Repr

/-! ## Spelling -/

/-- How an operator is written. -/
def UnaryOp.spelling : UnaryOp → String
  | negate => "-"
  | not => "!"

/-- How an operator is written. -/
def LogicalOp.spelling : LogicalOp → String
  | and => "and"
  | or => "or"

/-- How an operator is written. -/
def StrictOp.spelling : StrictOp → String
  | equal => "==" | notEqual => "!="
  | less => "<" | lessEqual => "<=" | greater => ">" | greaterEqual => ">="
  | add => "+" | subtract => "-"
  | multiply => "*" | divide => "/"

/-- How an operator is written. -/
def BinaryOp.spelling : BinaryOp → String
  | logical op => op.spelling
  | strict op => op.spelling

/-- All unary operators. -/
def UnaryOp.all : List UnaryOp := [.negate, .not]

/-- All binary operators. -/
def BinaryOp.all : List BinaryOp :=
  [.logical .and, .logical .or, .strict .equal, .strict .notEqual, .strict .less,
    .strict .lessEqual, .strict .greater,
    .strict .greaterEqual, .strict .add, .strict .subtract, .strict .multiply, .strict .divide]

/-- The operator that is written so. -/
def UnaryOp.ofSpelling? (s : String) : Option UnaryOp := all.find? (·.spelling == s)

/-- The operator that is written so. -/
def BinaryOp.ofSpelling? (s : String) : Option BinaryOp := all.find? (·.spelling == s)

/-! ## Marks -/

/-- The unary operator that a kind of token stands for. -/
def Kind.unaryOp? : Kind → Option UnaryOp
  | mark .minus => some .negate
  | mark .bang => some .not
  | _ => none

/-- The binary operator that a kind of token stands for. -/
def Kind.binaryOp? : Kind → Option BinaryOp
  | mark .andWord => some (.logical .and)
  | mark .orWord => some (.logical .or)
  | mark .equal => some (.strict .equal)
  | mark .notEqual => some (.strict .notEqual)
  | mark .less => some (.strict .less)
  | mark .lessEqual => some (.strict .lessEqual)
  | mark .greater => some (.strict .greater)
  | mark .greaterEqual => some (.strict .greaterEqual)
  | mark .plus => some (.strict .add)
  | mark .minus => some (.strict .subtract)
  | mark .star => some (.strict .multiply)
  | mark .slash => some (.strict .divide)
  | _ => none

end Lox
