import Lox.Interpret
/-!
# `Script` — running a text as a script

A script ends with an exit code, what it wrote, and at most one line of complaint.
-/
namespace Lox

/-- How a run can end. -/
inductive ExitCode where
  | ok
  | usage
  | dataError
  | software
  | inputError
  deriving DecidableEq, Repr

/-- The number of an exit code. -/
def ExitCode.number : ExitCode → Nat
  | ok => 0
  | usage => 64
  | dataError => 65
  | software => 70
  | inputError => 74

/-- How a run ended, and what it wrote to either stream. -/
structure Report where
  code : ExitCode
  out : String
  err : String
  deriving DecidableEq, Repr

/-- The lines for a complaint. With tracing on, the heading of a trace follows; there are no frames
to list under it. -/
def complaint (trace : Bool) (message : String) : String :=
  "Error: " ++ message ++ "\n" ++ if trace then "\nPython traceback:\n" else ""

/-- The exit code for a failure. -/
def Failure.exitCode : Failure → ExitCode
  | source _ | render _ => .dataError
  | runtime _ => .software

/-- The report of a run that wrote `out` and may have failed. -/
def Report.ofRun (trace : Bool) (out : String) : Option Failure → Report
  | none => ⟨.ok, out, ""⟩
  | some e => ⟨e.exitCode, out, complaint trace e.diagnostic.message⟩

/-- Runs a script, or with `tree` writes its trees. -/
def runScript (f : FrontEnd) (tree trace : Bool) (s : String) : Report :=
  match f.parseProgram s with
  | .error e => .ofRun trace "" (some (.source e))
  | .ok stmts =>
    if tree then
      let (lines, e) := treeLines (stmts.map Stmt.toNode)
      .ofRun trace lines (e.map .render)
    else
      let r := Run.ofStatements stmts
      .ofRun trace r.printed (r.failure.map .runtime)

end Lox
