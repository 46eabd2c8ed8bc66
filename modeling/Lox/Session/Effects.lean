/-!
# `Session.Effects` — what a session does in answer to a line
-/
namespace Lox.Session

/-- What was written to either stream, and how often the screen was cleared. -/
structure Effects where
  out : String
  err : String
  clears : Nat
  deriving DecidableEq, Repr

namespace Effects

/-- No effect. -/
def none : Effects := ⟨"", "", 0⟩

/-- A line of output. -/
def say (s : String) : Effects := ⟨s ++ "\n", "", 0⟩

/-- A line of complaint. -/
def warn (s : String) : Effects := ⟨"", s ++ "\n", 0⟩

/-- One after the other. -/
def append (a b : Effects) : Effects := ⟨a.out ++ b.out, a.err ++ b.err, a.clears + b.clears⟩

end Effects
end Lox.Session
