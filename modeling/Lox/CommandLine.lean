import Lox.CommandLine.Path
import Lox.Session
import Lox.Text.LineBreak
import Lox.Text.Utf8
/-!
# `CommandLine` — what the arguments ask for

Options may stand anywhere, the last choice of a front end counts, and a request for help wins as
soon as it is met. One argument that is no option names the script, `-` standard input; without any
there is a session.
-/
namespace Lox.CommandLine

/-! ## Arguments -/

/-- The usage line. -/
def usageLine : String := "Usage: lox [--parser rd|lark] [--tree] [script]"

/-- What the arguments have set so far. -/
structure Settings where
  frontEnd : String
  tree : Bool
  /-- The arguments that are no options, the last one first. -/
  operands : List String
  deriving DecidableEq, Repr

/-- The settings before the first argument. -/
def Settings.initial : Settings := ⟨"rd", false, []⟩

/-- Why reading the arguments stops before their end. -/
inductive Stop where
  | help
  | missingValue
  deriving DecidableEq, Repr

/-- What follows `--parser=` in an argument that starts so. -/
def joinedValue? (argument : String) : Option String :=
  let option := "--parser=".toList
  if option.isPrefixOf argument.toList then
    some (String.ofList (argument.toList.drop option.length))
  else none

/-- Reads arguments one after another. -/
def readArguments (s : Settings) : List String → Except Stop Settings
  | [] => .ok s
  | [a] =>
    if a = "--parser" then .error .missingValue else readOne s a
  | a :: b :: rest =>
    if a = "--parser" then readArguments { s with frontEnd := b } rest
    else do readArguments (← readOne s a) (b :: rest)
where
  /-- Reads an argument that takes no value behind it. -/
  readOne (s : Settings) (a : String) : Except Stop Settings :=
    if a = "--tree" then .ok { s with tree := true }
    else
      match joinedValue? a with
      | some v => .ok { s with frontEnd := v }
      | none =>
        if a = "-h" || a = "--help" then .error .help
        else .ok { s with operands := a :: s.operands }

/-- Where the text to run comes from. -/
inductive Origin where
  | session
  | standardInput
  | file (path : String)
  deriving DecidableEq, Repr

/-- What the arguments ask for. -/
inductive Request where
  | help
  | missingValue
  | misuse
  | run (frontEnd : FrontEnd) (tree : Bool) (origin : Origin)
  deriving DecidableEq, Repr

/-- Settings as a request. -/
def Settings.request (s : Settings) : Request :=
  match FrontEnd.ofName s.frontEnd, s.operands with
  | .ok f, [] => .run f s.tree .session
  | .ok f, [a] => .run f s.tree (if a = "-" then .standardInput else .file a)
  | _, _ => .misuse

/-- What the arguments ask for. -/
def Request.ofArguments (arguments : List String) : Request :=
  match readArguments .initial arguments with
  | .ok s => s.request
  | .error .help => .help
  | .error .missingValue => .missingValue

/-! ## Running -/

/-- What no exit code tells: the run breaks off. -/
inductive Breakdown where
  | undecodable (e : Text.Utf8.Error)
  | nullInPath
  deriving DecidableEq, Repr

/-- What is said about a breakdown. -/
def Breakdown.message : Breakdown → String
  | undecodable e => e.message
  | nullInPath => "embedded null byte"

/-- What a run can see of the world. -/
structure World where
  read : Path → Except ReadError (List UInt8)
  standardInput : List UInt8
  inputs : List Session.Input
  trace : Bool

/-- The text that bytes hold, with line feeds for all newlines. -/
def decodeText (bytes : List UInt8) : Except Breakdown String :=
  match Text.Utf8.decode bytes with
  | .ok cs => .ok (String.ofList (Text.unifyNewlines cs))
  | .error e => .error (.undecodable e)

/-- The report of a session. -/
def sessionReport (f : FrontEnd) (tree trace : Bool) (inputs : List Session.Input) : Report :=
  let effects := (Session.transcript ⟨f, ⟨tree, trace⟩⟩ inputs).foldl Session.Effects.append .none
  ⟨.ok, effects.out, effects.err⟩

/-- Runs the file of a path. -/
def runFile (w : World) (f : FrontEnd) (tree : Bool) (path : String) : Except Breakdown Report :=
  if path.toList.contains '\x00' then .error .nullInPath
  else
    match w.read (.ofText path) with
    | .error e => .ok ⟨.inputError, "", complaint w.trace (e.message (.ofText path))⟩
    | .ok bytes => return runScript f tree w.trace (← decodeText bytes)

/-- Does what a request asks for. -/
def Request.perform (w : World) : Request → Except Breakdown Report
  | help => .ok ⟨.ok, usageLine ++ "\n", ""⟩
  | missingValue => .ok ⟨.usage, "", "--parser flag requires a value\n"⟩
  | misuse => .ok ⟨.usage, "", usageLine ++ "\n"⟩
  | run f tree .session => .ok (sessionReport f tree w.trace w.inputs)
  | run f tree .standardInput => return runScript f tree w.trace (← decodeText w.standardInput)
  | run f tree (.file path) => runFile w f tree path

/-- Runs the program with its arguments. -/
def perform (w : World) (arguments : List String) : Except Breakdown Report :=
  (Request.ofArguments arguments).perform w

end Lox.CommandLine
