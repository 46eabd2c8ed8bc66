import Lox.Script
import Lox.Session.Switches
/-!
# `Session` — typing one entry after another

A session reads lines until its input ends. Entries are evaluated, or shown as trees, and change
nothing; all that changes is the switches. A front end that is asked for by name is looked up when
the first entry has to be read, so that a name that no front end has does no harm before.
-/
namespace Lox

/-- The state of a session. -/
structure Session where
  frontEnd : FrontEnd
  switches : Session.Switches
  deriving DecidableEq, Repr

namespace Session

/-! ## Entries -/

/-- The complaint about a failure, if there is one, behind what was written. -/
def finish (s : Session) (out : String) (e : Option Failure) : Effects :=
  ⟨out, (e.map fun e => complaint s.switches.trace e.diagnostic.message).getD "", 0⟩

/-- Shows the trees of an entry. -/
def showTrees (s : Session) (entry : String) : Effects :=
  match entryTrees s.frontEnd entry with
  | .error e => s.finish "" (some (.source e))
  | .ok trees =>
    let (lines, e) := treeLines trees
    s.finish lines (e.map .render)

/-- Evaluates an entry. The value of an expression is shown unless it is `nil`. -/
def evaluateEntry (s : Session) (entry : String) : Effects :=
  match answer s.frontEnd entry with
  | (.error e, out) => s.finish out (some e)
  | (.ok (.value .nil), out) => s.finish out none
  | (.ok (.value v), out) => s.finish (out ++ v.text ++ "\n") none
  | (.ok (.ran _), out) => s.finish out none

/-- Handles an entry. -/
def enter (s : Session) (entry : String) : Effects :=
  if s.switches.showTree then s.showTrees entry else s.evaluateEntry entry

/-! ## The loop -/

/-- Handles one input. -/
def step (s : Session) (i : Input) : Effects × Session :=
  match s.switches.turn i with
  | .done e w => (e, { s with switches := w })
  | .entry text => (s.enter text, s)

/-- The effects of each input in turn. -/
def play (s : Session) : List Input → List Effects
  | [] => []
  | i :: is =>
    let (e, s) := s.step i
    e :: play s is

/-- What is said before the first line. -/
def banner : Effects := .say "lox repl: Ctrl-D to exit, / for commands"

/-- What is said when the input ends. -/
def farewell : Effects := .say ""

/-- What is said in a whole session around the effects of its inputs. -/
def framed (effects : List Effects) : List Effects := banner :: effects ++ [farewell]

/-- A whole session: the banner, the effects of each input, the farewell. -/
def transcript (s : Session) (inputs : List Input) : List Effects := framed (s.play inputs)

/-- A whole session with the front end of a name. The name does not matter if there is no entry to
read. -/
def transcriptNamed (frontEnd : String) (w : Switches) (inputs : List Input) :
    Except FrontEnd.Unknown (List Effects) :=
  match FrontEnd.ofName frontEnd with
  | .ok f => .ok (transcript ⟨f, w⟩ inputs)
  | .error u =>
    match w.play? inputs with
    | some effects => .ok (framed effects)
    | none => .error u

end Session
end Lox
