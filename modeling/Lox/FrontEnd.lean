import Lox.Descent.Parser
import Lox.Grammar.Reader
/-!
# `FrontEnd` — the two ways to read a text

Programs and expressions are read by descent over tokens or by shift and reduce over the terminals
of the grammar. Both give the same trees; their errors are worded differently.
-/
namespace Lox

/-- A way to read a text. -/
inductive FrontEnd where
  | descent
  | grammar
  deriving DecidableEq, Repr

/-- Why a text was not accepted. -/
inductive SourceError where
  | descent (e : Descent.Error)
  | grammar (e : Grammar.Error)
  deriving DecidableEq

namespace SourceError

/-- The kind of error. -/
def tag : SourceError → Tag
  | descent e => e.tag
  | grammar e => e.tag

/-- The error, ready to be written. -/
def diagnostic : SourceError → Diagnostic
  | descent e => e.diagnostic
  | grammar e => e.diagnostic

/-- The token that was found in place of another one, if the error names one. -/
def token? : SourceError → Option Token
  | descent e => e.token?
  | grammar _ => none

/-- The fault that the error passes on. -/
def fault? : SourceError → Option ScanError
  | descent (.lexical e) => some e
  | _ => none

end SourceError

namespace FrontEnd

/-- How a front end is asked for. -/
def name : FrontEnd → String
  | descent => "rd"
  | grammar => "lark"

/-- A name that no front end has. -/
structure Unknown where
  name : String
  deriving DecidableEq, Repr

/-- What is said about such a name. -/
def Unknown.message (u : Unknown) : String :=
  "Unknown parser front end " ++ Text.display u.name ++ "; expected one of ['lark', 'rd']"

/-- The front end of a name. -/
def ofName (s : String) : Except Unknown FrontEnd :=
  if s = descent.name then .ok descent
  else if s = grammar.name then .ok grammar
  else .error ⟨s⟩

/-- Reads a program. -/
def parseProgram (f : FrontEnd) (s : String) : Except SourceError (List Stmt) :=
  match f with
  | descent => (Descent.parseProgram s).mapError .descent
  | grammar => (Grammar.parseProgram s).mapError .grammar

/-- Reads an expression. -/
def parseExpr (f : FrontEnd) (s : String) : Except SourceError Expr :=
  match f with
  | descent => (Descent.parseExpr s).mapError .descent
  | grammar => (Grammar.parseExpr s).mapError .grammar

end FrontEnd
end Lox
