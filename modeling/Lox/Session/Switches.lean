import Lox.Session.Editor
import Lox.Session.Effects
/-!
# `Session.Switches` — what happens without reading an entry

Commands set two switches. A line is dropped if nothing visible is on it and obeyed if it is a
command; any other line is an entry, which is all that a front end is needed for.
-/
namespace Lox.Session

/-- The switches that commands set. -/
structure Switches where
  /-- Are entries shown as trees instead of being evaluated? -/
  showTree : Bool
  /-- Does a trace follow a complaint? -/
  trace : Bool
  deriving DecidableEq, Repr

/-- The word for a switch's position. -/
def onOff (b : Bool) : String := if b then "on" else "off"

/-- What a session is given: a line, or the request to drop the one being typed. -/
inductive Input where
  | line (s : String)
  | interrupt
  deriving DecidableEq, Repr

/-- What an input comes to: it is dealt with by its effects and the new switches, or
an entry is left to read.
-/
inductive Turn where
  | done (effects : Effects) (switches : Switches)
  | entry (text : String)
  deriving DecidableEq, Repr

namespace Switches

/-- Obeys a command. -/
def obey (w : Switches) (c : Command) (argument : List Char) : Effects × Switches :=
  match c with
  | .clear => (⟨"", "", 1⟩, w)
  | .trace =>
    match switch? argument w.trace with
    | some b => (.say ("Python traceback: " ++ onOff b), { w with trace := b })
    | none => (.warn "Usage: /py-traceback [on|off]", w)
  | .tree =>
    match switch? argument w.showTree with
    | some b => (.say ("Parse tree: " ++ onOff b), { w with showTree := b })
    | none => (.warn "Usage: /tree [on|off]", w)

/-- Obeys a line if it is a command. -/
def command? (w : Switches) (line : String) : Option (Effects × Switches) :=
  match splitCommand? line.toList with
  | none => none
  | some (name, argument) =>
    match Command.ofName? name with
    | some c => some (w.obey c argument)
    | none => some (.warn ("Unknown command: " ++ name), w)

/-- Takes one input. -/
def turn (w : Switches) : Input → Turn
  | .interrupt => .done (.say "KeyboardInterrupt") w
  | .line text =>
    let entry := normalize text
    if (Text.trim entry.toList).isEmpty then .done .none w
    else
      match w.command? entry with
      | some (e, w) => .done e w
      | none => .entry entry

/-- The effects of each input in turn, unless one of them is an entry. -/
def play? (w : Switches) : List Input → Option (List Effects)
  | [] => some []
  | i :: is =>
    match w.turn i with
    | .done e w => (w.play? is).map (e :: ·)
    | .entry _ => none

end Switches
end Lox.Session
