import Lox.Interpret
/-!
# `Listing` — looking at tokens and trees

Two small tools beside the interpreter: one lists the items of a text, one the trees of a program.
-/
namespace Lox

/-- An item on a line of its own. -/
def itemLine : Item → String
  | .ok t => t.listing ++ "\n"
  | .error e => e.message ++ "\n"

/-- The items of a text, one per line. -/
def itemListing (s : String) : String := String.join ((scan s).map itemLine)

/-- The trees of a program, one per line, and the complaint about what could not be read or
written. -/
def treeListing (s : String) : String × Option String :=
  let complaint (d : Diagnostic) := "Parse error: " ++ d.message ++ "\n"
  match Descent.parseProgram s with
  | .error e => ("", some (complaint e.diagnostic))
  | .ok stmts =>
    let (lines, e) := treeLines (stmts.map Stmt.toNode)
    (lines, e.map fun e => complaint e.diagnostic)

end Lox
