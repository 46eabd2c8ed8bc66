import Lox.Text.Blank
/-!
# `Session.Command` — slash commands

A line that starts with a slash, blanks aside, is a command: its first word is the name
and the rest its argument. Switches are set by a few words for on and off, in any case,
and flipped by no argument.
-/
namespace Lox.Session

/-- The commands. -/
inductive Command where
  | clear
  | trace
  | tree
  deriving DecidableEq, Repr

namespace Command

/-- All commands, in the order in which they are offered. -/
def all : List Command := [clear, trace, tree]

/-- How a command is typed. -/
def name : Command → String
  | clear => "/clear"
  | trace => "/py-traceback"
  | tree => "/tree"

/-- What a command does, in a few words. -/
def summary : Command → String
  | clear => "Clear the terminal screen"
  | trace => "Toggle Python traceback on errors"
  | tree => "Toggle printing the parse tree instead of evaluating"

/-- The command of a name. -/
def ofName? (s : String) : Option Command := all.find? (·.name == s)

/-- The commands whose names go on from what was typed. Only what starts with a slash is
completed. -/
def completions (typed : List Char) : List Command :=
  match typed with
  | '/' :: _ => all.filter fun c => typed.isPrefixOf c.name.toList
  | _ => []

end Command

/-- A line as a command: the name and the argument. -/
def splitCommand? (line : List Char) : Option (String × List Char) :=
  match Text.trim line with
  | '/' :: cs =>
    let (name, argument) := Text.firstWord ('/' :: cs)
    some (String.ofList name, argument)
  | _ => none

/-- The words for on. -/
def onWords : List String := ["on", "1", "true", "yes"]

/-- The words for off. -/
def offWords : List String := ["off", "0", "false", "no"]

/-- What a switch is set to by an argument, given what it is. -/
def switch? (argument : List Char) (current : Bool) : Option Bool :=
  let word := String.ofList (Text.lower argument)
  if onWords.contains word then some true
  else if offWords.contains word then some false
  else if argument.isEmpty then some !current
  else none

/-- Does the value of a setting mean on? -/
def settingIsOn (value : Option (List Char)) : Bool :=
  value.any fun cs => onWords.contains (String.ofList (Text.lower (Text.trim cs)))

end Lox.Session
