import Lox.Eval
import Lox.FrontEnd
import Lox.Render
/-!
# `Interpret` — from text to values and output

Nothing is run before the whole text is read. A text typed in a session is tried as an expression
first and run as a program if it is none.
-/
namespace Lox

/-- Whatever can go wrong with a text. -/
inductive Failure where
  | source (e : SourceError)
  | render (e : RenderError)
  | runtime (e : RuntimeError)
  deriving DecidableEq

/-- The failure, ready to be written. -/
def Failure.diagnostic : Failure → Diagnostic
  | source e => e.diagnostic
  | render e => e.diagnostic
  | runtime e => e.diagnostic

/-- The value of an expression. -/
def evaluate (f : FrontEnd) (s : String) : Except Failure Value := do
  let e ← (f.parseExpr s).mapError .source
  e.eval.mapError .runtime

/-- Runs a program. -/
def run (f : FrontEnd) (s : String) : Except SourceError Run :=
  return .ofStatements (← f.parseProgram s)

/-! ## Entries of a session -/

/-- What an entry comes to. -/
inductive Reply where
  /-- The entry was an expression with this value. -/
  | value (v : Value)
  /-- The entry was a program, and this is the value of its last statement. -/
  | ran (last : Option Value)
  deriving DecidableEq

/-- Evaluates an entry: what it comes to, and what it prints. -/
def answer (f : FrontEnd) (s : String) : Except Failure Reply × String :=
  match f.parseExpr s with
  | .ok e => ((e.eval.mapError .runtime).map .value, "")
  | .error _ =>
    match run f s with
    | .error e => (.error (.source e), "")
    | .ok r =>
      match r.failure with
      | some e => (.error (.runtime e), r.printed)
      | none => (.ok (.ran r.values.getLast?), r.printed)

/-! ## Trees -/

/-- The lines of trees, up to the first one that is too deep. -/
def treeLines : List Node → String × Option RenderError
  | [] => ("", none)
  | n :: ns =>
    match n.text with
    | .ok s =>
      let (more, e) := treeLines ns
      (s ++ "\n" ++ more, e)
    | .error e => ("", some e)

/-- The tree of an entry: of the expression that it is, or of each statement. -/
def entryTrees (f : FrontEnd) (s : String) : Except SourceError (List Node) :=
  match f.parseExpr s with
  | .ok e => .ok [e.toNode]
  | .error _ => return (← f.parseProgram s).map Stmt.toNode

end Lox
